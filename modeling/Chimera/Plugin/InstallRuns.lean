import Chimera.Plugin.InstallInvariant

/-!
# Installing the oplog over a run

Writers, the pruner and crashes keep what the calls rely on, so it holds all along every run.  It
follows that an oplog with a history row is one that was freshly installed once, however it came
about, and that the calls never wait for each other in a circle.
-/

namespace Chimera

open OplogServer StepSystem

namespace InstallServer

/-! ## What others do -/

/-- Writers and the pruner keep the invariant where they leave the seeding call alone. -/
lemma Inv.setServer {s : InstallServer} {calls : ℕ → Option InstallCall} (hI : s.Inv calls)
    {server : OplogServer} {inTransaction : ℕ → Bool}
    (hsound : ({ s with server := server } : InstallServer).Sound)
    (hwritten : s.historyRow = false → s.server.FreshlyWritten → server.FreshlyWritten)
    (hseeding : ∀ c history, s.seeding = some (c, history) →
      server.lock = .free ∧ server.rows = s.server.rows ∧ server.clock = s.server.clock)
    (htrans : ∀ c phase, calls c = some (.asks phase) → inTransaction c = s.inTransaction c)
    (hheld : ∀ c phase, calls c = some (.asks phase) → server.lock.heldBy c = true →
      s.server.lock.heldBy c = true) :
    ({ s with server := server, inTransaction := inTransaction } : InstallServer).Inv calls where
  program := hI.program
  returned := hI.returned
  holder := hI.holder
  settled c phase hcall hphase := by
    obtain ⟨htransaction, hlock⟩ := hI.settled c phase hcall hphase
    refine ⟨(htrans c phase hcall).trans htransaction, ?_⟩
    cases hnew : server.lock.heldBy c with
    | false => rfl
    | true => rw [hheld c phase hcall hnew] at hlock; cases hlock
  busy c phase hcall hnew :=
    (htrans c phase hcall).trans (hI.busy c phase hcall (hheld c phase hcall hnew))
  phases c phase hcall :=
    (hI.phases c phase hcall).mono rfl (fun _ => id) hwritten fun history h =>
      ⟨h, (hseeding c history h).2⟩
  seeder c history h := ⟨(hseeding c history h).1, (hI.seeder c history h).2⟩
  sound := ⟨hsound.1, hsound.2, hsound.3, hsound.4, hsound.5, hsound.6⟩

/-- A connection whose call has ended does not wait for it. -/
lemma Inv.not_asking {s : InstallServer} {calls : ℕ → Option InstallCall} (hI : s.Inv calls)
    {conn : ℕ} (hidle : s.underWay conn = false) {phase : InstallPhase} :
    calls conn ≠ some (.asks phase) := fun hcall => by
  rw [hI.underWay_iff.2 ⟨phase, hcall⟩] at hidle
  cases hidle

/-- A call begins. -/
lemma Inv.call {s s' : InstallServer} {calls : ℕ → Option InstallCall} (hI : s.Inv calls)
    {conn : ℕ} (hst : s.step (.call conn) = some s') : ∃ calls', s'.Inv calls' := by
  simp only [InstallServer.step] at hst
  split at hst
  · cases hst
  next hready =>
  obtain rfl := Option.some.inj hst
  obtain ⟨hidle, hbusy⟩ : s.underWay conn = false ∧
      (s.server.lock.heldBy conn = true → s.inTransaction conn = true) := by simpa using hready
  have hprogram : installUnderMutex = (InstallCall.asks .connect).program := rfl
  refine ⟨Function.update calls conn (some (.asks .connect)), ?_⟩
  rw [hprogram]
  refine hI.goOn rfl rfl rfl (fun c => ?_) (fun h => by cases h) hbusy
    (fun c phase _ hc => hI.phases c phase hc) (fun phase heq => ?_) (fun heq => by cases heq) id
    (fun c history hseeding => ?_) hI.sound
  · rw [hI.holder]
    by_cases hc : c = conn
    · subst hc
      rw [if_pos rfl]
      cases hcall : calls c with
      | none => simp [InstallCall.asksA, InstallPhase.locked]
      | some call =>
        cases call with
        | asks phase => exact absurd hcall (hI.not_asking hidle)
        | ended result => simp [InstallCall.asksA, InstallPhase.locked]
    · rw [if_neg hc]
  · obtain rfl := InstallCall.asks.inj heq
    exact phaseInv_of_unlocked rfl fun h => by cases h
  · obtain ⟨hfree, hasks⟩ := hI.seeder c history hseeding
    refine ⟨hfree, ?_⟩
    by_cases hc : c = conn
    · subst hc
      cases hcall : calls c with
      | none => simp [hcall] at hasks
      | some call =>
        cases call with
        | asks phase => exact absurd hcall (hI.not_asking hidle)
        | ended result => simp [hcall, InstallCall.asksA] at hasks
    · rw [if_neg hc]
      exact ⟨history, hseeding⟩

/-- Only the connection that appends may come to hold the clock row. -/
lemma heldBy_of_append {server server' : OplogServer} {conn c : ℕ} {call : AppendCall}
    (hst : server.step (.append conn call) = some server')
    (hheld : server'.lock.heldBy c = true) : c = conn := by
  obtain ⟨-, clock, row, -, rfl⟩ := OplogServer.step_append hst
  simpa [ClockLock.heldBy, eq_comm] using hheld

/-- A writer appends. -/
lemma Inv.append {s s' : InstallServer} {calls : ℕ → Option InstallCall} (hI : s.Inv calls)
    {conn : ℕ} {call : AppendCall} (hst : s.step (.append conn call) = some s') :
    s'.Inv calls := by
  simp only [InstallServer.step] at hst
  split at hst
  · cases hst
  next hready =>
  obtain ⟨server, hserver, rfl⟩ := Option.map_eq_some_iff.1 hst
  obtain ⟨hidle, hcan⟩ : s.underWay conn = false ∧ s.canAppend = true := by simpa using hready
  obtain ⟨⟨⟨⟨-, -⟩, htable⟩, hclock⟩, hnone⟩ : (((s.mirrored = true ∧ _) ∧ s.tables .oplog = true) ∧
      s.clockRow = true) ∧ s.seeding = none := by
    simpa [canAppend] using hcan
  have hS := hI.sound
  refine hI.setServer ⟨hS.clock, hS.history, fun h => ?_, fun h => ?_,
    fun h => (hS.unseeded h).writer rfl hserver, fun h => (hS.seeded h).step hserver⟩
    (fun _ h => h.writer rfl hserver) (fun c history h => ?_) (fun _ _ _ => rfl)
    fun c phase hcall hheld => ?_
  · cases hclock.symm.trans h
  · cases htable.symm.trans h
  · cases hnone.symm.trans h
  · obtain rfl := heldBy_of_append hserver hheld
    exact absurd hcall (hI.not_asking hidle)

/-- A transaction that ends leaves nothing locked, and nothing else changes without it. -/
lemma endTransaction_cases (server : OplogServer) (conn : ℕ) (keep : Bool) :
    (server.step (if keep then .commit conn else .rollback conn)).getD server = server ∨
      ∃ a server', a.writer.isSome = true ∧ server.step a = some server' ∧
        (server.step (if keep then .commit conn else .rollback conn)).getD server = server' ∧
        server.lock ≠ .free ∧ server'.lock = .free := by
  cases keep with
  | true =>
    cases hst : server.step (.commit conn) with
    | none => exact .inl (by simp [hst])
    | some server' =>
      obtain ⟨pending, clock, hlock, heq⟩ := OplogServer.step_commit hst
      exact .inr ⟨_, server', rfl, hst, by simp [hst], by simp [hlock], by rw [heq]⟩
  | false =>
    cases hst : server.step (.rollback conn) with
    | none => exact .inl (by simp [hst])
    | some server' =>
      obtain ⟨-, heq⟩ := OplogServer.step_rollback hst
      refine .inr ⟨_, server', rfl, hst, by simp [hst], fun hfree => ?_, by rw [heq]⟩
      simp [OplogServer.step, hfree] at hst

/-- A transaction ends. -/
lemma Inv.endTransaction {s s' : InstallServer} {calls : ℕ → Option InstallCall}
    (hI : s.Inv calls) {conn : ℕ} {keep : Bool}
    (hst : s.step (.endTransaction conn keep) = some s') : s'.Inv calls := by
  simp only [InstallServer.step] at hst
  split at hst
  · cases hst
  next hready =>
  have hidle : s.underWay conn = false := by simpa using hready
  obtain rfl := Option.some.inj hst
  have hS := hI.sound
  have htrans (c : ℕ) (phase : InstallPhase) (hcall : calls c = some (.asks phase)) :
      Function.update s.inTransaction conn false c = s.inTransaction c := by
    by_cases hc : c = conn
    · subst hc
      exact absurd hcall (hI.not_asking hidle)
    · simp [hc]
  rcases endTransaction_cases s.server conn keep with
    heq | ⟨a, server, ha, hserver, heq, hheld, hfree⟩
  · rw [heq]
    exact hI.setServer hS (fun _ => id)
      (fun c history h => ⟨(hI.seeder c history h).1, rfl, rfl⟩) htrans fun _ _ _ => id
  · rw [heq]
    refine hI.setServer ⟨hS.clock, hS.history, fun h => ?_, fun h => ?_,
      fun h => (hS.unseeded h).writer ha hserver, fun h => (hS.seeded h).step hserver⟩
      (fun _ h => h.writer ha hserver) (fun c history h => ?_) htrans fun c phase _ hnew => ?_
    · exact absurd (hS.unstamped h).2.quiescent.lock_free hheld
    · exact absurd (hS.empty h).2.quiescent.lock_free hheld
    · exact absurd (hI.seeder c history h).1 hheld
    · rw [hfree] at hnew
      cases hnew

/-- The pruner is at work only after the history row is there. -/
lemma Sound.historyRow_of_pruning {s : InstallServer} (h : s.Sound)
    (hpruning : s.server.pruning ≠ .idle) : s.historyRow = true := by
  by_contra hrow
  exact hpruning (h.unseeded (by simpa using hrow)).idle

/-- A statement of the pass gives the clock row to no writer. -/
lemma heldBy_of_pruneStatement {server server' : OplogServer} {now c : ℕ}
    (hst : server.pruneStatement now = some server') (hheld : server'.lock.heldBy c = true) :
    server.lock.heldBy c = true := by
  cases hp : server.pruning with
  | idle => simp [OplogServer.pruneStatement, hp] at hst
  | lockClock plan =>
    simp only [OplogServer.pruneStatement, hp] at hst
    split at hst
    · obtain rfl := Option.some.inj hst
      cases hheld
    · cases hst
  | commit survivors removed history =>
    simp only [OplogServer.pruneStatement, hp, Option.some.injEq] at hst
    subst hst
    cases hheld
  | rollback =>
    simp only [OplogServer.pruneStatement, hp, Option.some.injEq] at hst
    subst hst
    by_cases hlock : server.lock = .pruner
    · simp [hlock, ClockLock.heldBy] at hheld
    · simpa [hlock] using hheld
  | _ =>
    simp only [OplogServer.pruneStatement, hp, Option.some.injEq] at hst
    subst hst
    exact hheld

/-- The pruner goes on. -/
lemma Inv.pruner {s : InstallServer} {calls : ℕ → Option InstallCall} (hI : s.Inv calls)
    {server : OplogServer} {a : ServerAction} (hst : s.server.step a = some server)
    (hrow : s.historyRow = true)
    (hseeding : s.seeding ≠ none → server.lock = s.server.lock ∧ server.rows = s.server.rows ∧
      server.clock = s.server.clock)
    (hheld : ∀ c, server.lock.heldBy c = true → s.server.lock.heldBy c = true) :
    ({ s with server := server } : InstallServer).Inv calls := by
  have hS := hI.sound
  refine hI.setServer ⟨hS.clock, hS.history, fun h => ?_, fun h => ?_, fun h => ?_,
    fun h => (hS.seeded h).step hst⟩ (fun h => ?_) (fun c history h => ?_) (fun _ _ _ => rfl)
    fun c _ _ => hheld c
  · cases hrow.symm.trans (hS.unstamped h).1
  · cases hrow.symm.trans (hS.empty h).1
  · cases hrow.symm.trans h
  · cases hrow.symm.trans h
  · obtain ⟨hlock, hrows, hclock⟩ := hseeding (by simp [h])
    exact ⟨hlock.trans (hI.seeder c history h).1, hrows, hclock⟩

/-- A crash leaves no calls, and an oplog as sound as before. -/
lemma Inv.crash {s s' : InstallServer} {calls : ℕ → Option InstallCall} (hI : s.Inv calls)
    (hst : s.step .crash = some s') : s'.Inv fun _ => none := by
  obtain rfl := Option.some.inj hst
  have hS := hI.sound
  have hfresh (h : s.server.Fresh) :
      ({ s.server with lock := .free, pruning := .idle } : OplogServer).Fresh := by
    have heq : ({ s.server with lock := .free, pruning := .idle } : OplogServer) = s.server := by
      rw [← h.quiescent.lock_free, ← h.quiescent.idle]
    rwa [heq]
  refine ⟨fun _ => rfl, fun _ h => ?_, fun _ => ?_, fun _ _ h => ?_, fun _ _ h => ?_,
    fun _ _ h => ?_, fun _ _ h => ?_, ⟨hS.clock, hS.history, fun h => ?_, fun h => ?_,
    fun h => (hS.unseeded h).crash, fun h => (hS.seeded h).crash⟩⟩
  · cases h
  · simp
  · cases h
  · cases h
  · cases h
  · cases h
  · exact ⟨(hS.unstamped h).1, hfresh (hS.unstamped h).2⟩
  · exact ⟨(hS.empty h).1, hfresh (hS.empty h).2⟩

/-- **Every action keeps the invariant.** -/
theorem Inv.step {s s' : InstallServer} {calls : ℕ → Option InstallCall} (hI : s.Inv calls)
    {a : InstallAction} (hst : s.step a = some s') : ∃ calls', s'.Inv calls' := by
  cases a with
  | call conn => exact hI.call hst
  | next conn => exact hI.next hst
  | fail conn e =>
    simp only [InstallServer.step] at hst
    split at hst
    · cases hst
    · next hcode => exact hI.fail hcode hst
  | begin conn =>
    simp only [InstallServer.step] at hst
    split at hst
    · cases hst
    next hready =>
    obtain rfl := Option.some.inj hst
    obtain ⟨hidle, -⟩ : s.underWay conn = false ∧ _ := by simpa using hready
    refine ⟨calls, hI.setServer hI.sound (fun _ => id)
      (fun c history h => ⟨(hI.seeder c history h).1, rfl, rfl⟩) (fun c phase hcall => ?_)
      fun _ _ _ => id⟩
    by_cases hc : c = conn
    · subst hc
      exact absurd hcall (hI.not_asking hidle)
    · simp [hc]
  | adopt =>
    simp only [InstallServer.step] at hst
    split at hst
    · obtain rfl := Option.some.inj hst
      have hS := hI.sound
      refine ⟨calls, hI.program, hI.returned, hI.holder, hI.settled, hI.busy,
        fun c phase hcall => ?_, hI.seeder, ⟨hS.1, hS.2, hS.3, hS.4, hS.5, hS.6⟩⟩
      exact (hI.phases c phase hcall).mono rfl (fun _ => id) (fun _ => id) fun _ h => ⟨h, rfl, rfl⟩
    · cases hst
  | append conn call => exact ⟨calls, hI.append hst⟩
  | endTransaction conn keep => exact ⟨calls, hI.endTransaction hst⟩
  | prune conn maxRows maxAge =>
    simp only [InstallServer.step] at hst
    split at hst
    · next hreturned =>
      obtain ⟨server, hserver, rfl⟩ := Option.map_eq_some_iff.1 hst
      have hrow : s.historyRow = true := by
        rw [hI.program conn] at hreturned
        cases hcall : calls conn with
        | none => simp [hcall] at hreturned
        | some call =>
          cases call with
          | asks phase =>
            obtain ⟨next, hask, -⟩ := phase.program_eq
            simp [hcall, InstallCall.program, hask, InstallProgram.returned] at hreturned
          | ended result =>
            cases result with
            | ok _ => exact hI.returned conn hcall
            | error e =>
              simp [hcall, InstallCall.program, Interaction.ofExcept, InstallProgram.returned]
                at hreturned
      have hsame := hserver
      simp only [OplogServer.step] at hsame
      split at hsame
      · obtain rfl := Option.some.inj hsame
        exact ⟨calls, hI.pruner hserver hrow (fun _ => ⟨rfl, rfl, rfl⟩) fun _ => id⟩
      · cases hsame
    · cases hst
  | pruneStep now =>
    simp only [InstallServer.step] at hst
    split at hst
    · next hnone =>
      obtain ⟨server, hserver, rfl⟩ := Option.map_eq_some_iff.1 hst
      have hrow := hI.sound.historyRow_of_pruning fun hidle => by
        simp [OplogServer.step, OplogServer.pruneStatement, hidle] at hserver
      refine ⟨calls, hI.pruner hserver hrow (fun h => ?_) fun _ =>
        heldBy_of_pruneStatement hserver⟩
      exact absurd (by simpa using hnone) h
    · cases hst
  | pruneFail =>
    simp only [InstallServer.step] at hst
    obtain ⟨server, hserver, rfl⟩ := Option.map_eq_some_iff.1 hst
    have hrow := hI.sound.historyRow_of_pruning fun hidle => by
      simp [OplogServer.step, hidle] at hserver
    have hsame := hserver
    simp only [OplogServer.step] at hsame
    split at hsame
    · cases hsame
    · obtain rfl := Option.some.inj hsame
      exact ⟨calls, hI.pruner hserver hrow (fun _ => ⟨rfl, rfl, rfl⟩) fun _ => id⟩
  | crash => exact ⟨_, hI.crash hst⟩

/-- A server that has just come up meets the invariant. -/
lemma Initial.inv {s : InstallServer} (h : s.Initial) : s.Inv fun _ => none := by
  obtain ⟨hmutex, hseeding, hcalls, -⟩ := h.quiet
  refine ⟨hcalls, fun _ h => ?_, fun conn => by simp [hmutex], fun _ _ h => ?_, fun _ _ h => ?_,
    fun _ _ h => ?_, fun c history h => ?_, ⟨h.clock, fun hrow => ?_,
    fun hmissing => ⟨h.unseeded, h.quiescent, h.positive.1, h.unstamped hmissing⟩,
    fun hmissing => ⟨h.unseeded, h.quiescent, h.positive.1, h.empty hmissing⟩,
    fun _ => h.quiescent.unseeded h.positive, fun hrow => ?_⟩⟩
  · cases h
  · cases h
  · cases h
  · cases h
  · cases hseeding.symm.trans h
  · cases h.unseeded.symm.trans hrow
  · cases h.unseeded.symm.trans hrow

/-- **The invariant holds all along.** -/
theorem Initial.reaches {s₀ s : InstallServer} {as : List InstallAction} (h : s₀.Initial)
    (hs : Steps InstallServer.step s₀ as s) : ∃ calls, s.Inv calls := by
  refine hs.invariant (P := fun s => ∃ calls, s.Inv calls) (fun s a s' hs _ hst => ?_) ⟨_, h.inv⟩
  obtain ⟨calls, hI⟩ := hs
  exact hI.step hst

/-! ## The history row -/

/-- The history row stays, and its watermark does not go back. -/
structure Keeps (s s' : InstallServer) : Prop where
  /-- The row stays. -/
  row : s.historyRow = true → s'.historyRow = true
  /-- Its watermark does not go back, and its baseline stays. -/
  history : s.historyRow = true → s.server.history.Advances s'.server.history

/-- Where the row and the history are the same they are kept. -/
lemma Keeps.of_eq {s s' : InstallServer} (hrow : s'.historyRow = s.historyRow)
    (hhistory : s'.server.history = s.server.history) : s.Keeps s' :=
  ⟨fun h => hrow.trans h, fun _ => hhistory ▸ .refl _⟩

/-- Keeping is transitive. -/
lemma Keeps.trans {s t u : InstallServer} (h : s.Keeps t) (h' : t.Keeps u) : s.Keeps u :=
  ⟨fun hrow => h'.row (h.row hrow), fun hrow => (h.history hrow).trans (h'.history (h.row hrow))⟩

/-- The call that inserts the history row is the only one that touches it. -/
lemma Inv.keeps_next {s s' : InstallServer} {calls : ℕ → Option InstallCall} (hI : s.Inv calls)
    {conn : ℕ} (hst : s.nextAnswer conn = some s') : s.Keeps s' := by
  obtain ⟨phase, r, s₁, hcall, hanswer, rfl⟩ := hI.nextAnswer hst
  have hinv := hI.phases conn phase hcall
  suffices h : s.Keeps s₁ from ⟨h.1, h.2⟩
  cases hunseeded : phase.unseeded with
  | true =>
    have hrow := hinv.unseeded hunseeded
    exact ⟨fun h => (by cases hrow.symm.trans h), fun h => by cases hrow.symm.trans h⟩
  | false =>
    cases phase with
    | connect | caller | rollback e | unlock result | close result =>
      obtain ⟨-, rfl⟩ := Prod.ext_iff.1 (Option.some.inj hanswer)
      exact .of_eq rfl rfl
    | firstLook | secondLook =>
      have hlook : s.statement conn .historyRow = some (r, s₁) := hanswer
      obtain ⟨rfl, -⟩ := hI.sound.looked hlook .connect .connect fun _ => .connect
      exact .of_eq rfl rfl
    | lock =>
      simp only [InstallPhase.question, InstallServer.answer] at hanswer
      split at hanswer
      · obtain ⟨-, rfl⟩ := Prod.ext_iff.1 (Option.some.inj hanswer)
        exact .of_eq rfl rfl
      · cases hanswer
    | _ => cases hunseeded

/-- What the oplog does by itself keeps the history row. -/
lemma Inv.keeps_server {s : InstallServer} {calls : ℕ → Option InstallCall} (hI : s.Inv calls)
    {server : OplogServer} {a : ServerAction} (hst : s.server.step a = some server)
    (inTransaction : ℕ → Bool) :
    s.Keeps { s with server := server, inTransaction := inTransaction } :=
  ⟨id, fun hrow => (hI.sound.seeded hrow).inv.advances_step hst⟩

/-- **Nothing undoes the history row.** -/
lemma Inv.keeps_step {s s' : InstallServer} {calls : ℕ → Option InstallCall} (hI : s.Inv calls)
    {a : InstallAction} (hst : s.step a = some s') : s.Keeps s' := by
  cases a with
  | call conn | begin conn | adopt =>
    simp only [InstallServer.step] at hst
    split at hst
    all_goals first
      | (obtain rfl := Option.some.inj hst; exact .of_eq rfl rfl)
      | cases hst
  | next conn => exact hI.keeps_next hst
  | fail conn e =>
    simp only [InstallServer.step, nextFailure] at hst
    split at hst
    · cases hst
    · split at hst
      · obtain rfl := Option.some.inj hst
        exact .of_eq rfl rfl
      · obtain rfl := Option.some.inj hst
        exact .of_eq rfl rfl
      · cases hst
  | append conn call =>
    simp only [InstallServer.step] at hst
    split at hst
    · cases hst
    · obtain ⟨server, hserver, rfl⟩ := Option.map_eq_some_iff.1 hst
      exact hI.keeps_server hserver s.inTransaction
  | endTransaction conn keep =>
    simp only [InstallServer.step] at hst
    split at hst
    · cases hst
    · obtain rfl := Option.some.inj hst
      rcases endTransaction_cases s.server conn keep with heq | ⟨a, server, -, hserver, heq, -⟩
      · rw [heq]
        exact .of_eq rfl rfl
      · rw [heq]
        exact hI.keeps_server hserver _
  | prune conn maxRows maxAge =>
    simp only [InstallServer.step] at hst
    split at hst
    · obtain ⟨server, hserver, rfl⟩ := Option.map_eq_some_iff.1 hst
      exact hI.keeps_server hserver s.inTransaction
    · cases hst
  | pruneStep now =>
    simp only [InstallServer.step] at hst
    split at hst
    · obtain ⟨server, hserver, rfl⟩ := Option.map_eq_some_iff.1 hst
      exact hI.keeps_server hserver s.inTransaction
    · cases hst
  | pruneFail =>
    simp only [InstallServer.step] at hst
    obtain ⟨server, hserver, rfl⟩ := Option.map_eq_some_iff.1 hst
    exact hI.keeps_server hserver s.inTransaction
  | crash =>
    obtain rfl := Option.some.inj hst
    exact .of_eq rfl rfl

/-- **However the history row came about, the oplog is a freshly installed one that has run on.**  A
call that returns leaves the row, an oplog with the row behaves as one that had it from the start,
and nothing removes the row, moves its watermark back or changes its baseline. -/
theorem install_refines {s₀ s : InstallServer} {as : List InstallAction} (hs₀ : s₀.Initial)
    (hs : Steps InstallServer.step s₀ as s) :
    (∀ conn, s.calls conn = some (.done ()) → s.historyRow = true) ∧
    (s.historyRow = true →
      ∃ server bs, server.Installed ∧ Steps OplogServer.step server bs s.server) ∧
    ∀ bs t, Steps InstallServer.step s bs t → s.historyRow = true →
      t.historyRow = true ∧ s.server.history.Advances t.server.history := by
  obtain ⟨calls, hI⟩ := hs₀.reaches hs
  refine ⟨fun conn hdone => ?_, hI.sound.seeded, fun bs t ht hrow => ?_⟩
  · have hprogram := (hI.program conn).symm.trans hdone
    cases hcall : calls conn with
    | none => simp [hcall] at hprogram
    | some call =>
      cases call with
      | asks phase =>
        obtain ⟨next, hask, -⟩ := phase.program_eq
        simp [hcall, InstallCall.program, hask] at hprogram
      | ended result =>
        cases result with
        | ok _ => exact hI.returned conn hcall
        | error e => simp [hcall, InstallCall.program, Interaction.ofExcept] at hprogram
  · have hkeeps : s.Keeps t := by
      refine ht.relate (P := fun s => ∃ calls, s.Inv calls) Keeps (fun s => .of_eq rfl rfl)
        (fun _ _ _ => .trans) (fun s a s' hs _ hst => ?_) ⟨calls, hI⟩
      obtain ⟨calls', hI'⟩ := hs
      exact ⟨hI'.step hst, hI'.keeps_step hst⟩
    exact ⟨hkeeps.row hrow, hkeeps.history hrow⟩

/-! ## Waiting -/

/-- A call that may not wait is answered at once. -/
lemma answer_of_unsettled (s : InstallServer) (conn : ℕ) {phase : InstallPhase}
    (hphase : phase.settled = false) : ∃ r s₁, s.answer conn phase.question = some (r, s₁) := by
  cases phase with
  | connect | caller | close result => exact ⟨_, _, rfl⟩
  | firstLook =>
    change ∃ r s₁, s.reading .oplogHistory (some (.ok s.historyRow, s)) = some (r, s₁)
    rw [reading]
    split <;> exact ⟨_, _, rfl⟩
  | _ => cases hphase

/-- Whoever holds the mutex is answered, or waits for the clock row. -/
lemma Inv.answer_of_locked {s : InstallServer} {calls : ℕ → Option InstallCall} (hI : s.Inv calls)
    {conn : ℕ} {phase : InstallPhase} (hcall : calls conn = some (.asks phase))
    (hlocked : phase.locked = true) :
    (∃ r s₁, s.answer conn phase.question = some (r, s₁)) ∨
      s.historyRow = false ∧ (s.server.lock ≠ .free ∨
        ∃ c history, s.seeding = some (c, history) ∧ c ≠ conn) := by
  have hclock (hfree : ¬ s.clockFree conn = true) : s.server.lock ≠ .free ∨
      ∃ c history, s.seeding = some (c, history) ∧ c ≠ conn := by
    by_cases hlock : s.server.lock = .free
    · right
      cases hseeding : s.seeding with
      | none => simp [clockFree, hlock, hseeding] at hfree
      | some seeding =>
        exact ⟨seeding.1, seeding.2, rfl, by simpa [clockFree, hlock, hseeding] using hfree⟩
    · exact .inl hlock
  have hinv := hI.phases conn phase hcall
  cases phase with
  | secondLook | oldest | seed legacy =>
    left
    simp only [InstallPhase.question, InstallServer.answer, InstallServer.statement, reading]
    split <;> exact ⟨_, _, rfl⟩
  | tables | begin legacy | commit legacy | rollback e | unlock result => exact .inl ⟨_, _, rfl⟩
  | lockClock legacy =>
    simp only [InstallPhase.question, InstallServer.answer, InstallServer.statement, reading]
    split
    · split
      · split
        · exact .inl ⟨_, _, rfl⟩
        · next hfree => exact .inr ⟨hinv.unseeded rfl, hclock hfree⟩
      · exact .inl ⟨_, _, rfl⟩
    · exact .inl ⟨_, _, rfl⟩
  | define legacy q rest =>
    obtain ⟨before, heq, -⟩ := hinv.defined (q :: rest) rfl
    have hq : q ∈ schemaDefinitions := by simp [heq]
    have hrow := hinv.unseeded rfl
    simp only [schemaDefinitions, List.mem_cons, List.not_mem_nil, or_false] at hq
    rcases hq with rfl | rfl | rfl | rfl | rfl | rfl | rfl | rfl | rfl | rfl
    case inr.inr.inr.inr.inr.inr.inr.inl =>
      simp only [InstallPhase.question, InstallServer.answer, InstallServer.statement, reading]
      split
      · split
        · split
          · exact .inl ⟨_, _, rfl⟩
          · next hfree => exact .inr ⟨hrow, hclock hfree⟩
        · exact .inl ⟨_, _, rfl⟩
      · exact .inl ⟨_, _, rfl⟩
    case inr.inr.inr.inr.inr.inr.inr.inr.inl =>
      simp only [InstallPhase.question, InstallServer.answer, InstallServer.statement]
      split
      · exact .inl ⟨_, _, rfl⟩
      · next hlock => exact .inr ⟨hrow, .inl hlock⟩
    all_goals exact .inl ⟨_, _, rfl⟩
  | _ => cases hlocked

/-- An oplog that is older than the history row: two rows were pruned, one is left. -/
def olderOplog : OplogServer :=
  { newOplog with
    rows := [eventAt 3 10], clock := ⟨10, 1⟩, autoIncrement := 4,
    committed :=
      [eventAt 1 8, eventAt 2 9, eventAt 3 10],
    lost := [eventAt 1 8, eventAt 2 9] }

/-- The server that has it, and a collection that is mirrored. -/
def olderServer : InstallServer where
  server := olderOplog
  tables table := decide (table = .oplogClock ∨ table = .oplog)
  procedures procedure := decide (procedure = .oplogAppend)
  clockRow := true
  historyRow := false
  mirrored := true
  inTransaction _ := false
  mutex := none
  seeding := none
  calls _ := none

/-- It has just come up. -/
lemma olderServer_initial : olderServer.Initial where
  quiescent := ⟨rfl, rfl, rfl, by unfold SequencedLog.Sequenced; decide, by decide, by decide, rfl⟩
  positive := by decide
  unseeded := rfl
  empty h := by cases h
  clock _ := rfl
  unstamped h := by cases h
  quiet := ⟨rfl, rfl, fun _ => rfl, fun _ => rfl⟩

/-- A transaction writes and then calls; it is refused, while two other connections begin to
install. -/
def contendedRun : List InstallAction :=
  [.begin 7, .append 7 (plainAppend 11), .call 1, .call 2, .call 7] ++
    List.replicate 4 (.next 7) ++ List.replicate 13 (.next 1) ++ List.replicate 3 (.next 2)

/-- The transaction ends, and the two calls too. -/
def settledRun : List InstallAction :=
  contendedRun ++ .endTransaction 7 true :: List.replicate 10 (.next 1) ++
    List.replicate 4 (.next 2)

/-- The older oplog is marked as one whose first two rows are unknown. -/
theorem install_refines_settledRun :
    ∃ s, Steps InstallServer.step olderServer settledRun s ∧ s.historyRow = true ∧
      s.server.rows = [eventAt 3 10, eventAt 4 11] ∧
      s.server.history = ⟨0, ⟨0, 0⟩, true, 2, ⟨10, 1⟩⟩ ∧
      ∃ server bs, server.Installed ∧ Steps OplogServer.step server bs s.server := by
  obtain ⟨s, hs, hrow, hrows, hhistory⟩ : ∃ s,
      runActions InstallServer.step olderServer settledRun = some s ∧ s.historyRow = true ∧
        s.server.rows = [eventAt 3 10, eventAt 4 11] ∧
        s.server.history = ⟨0, ⟨0, 0⟩, true, 2, ⟨10, 1⟩⟩ := ⟨_, rfl, rfl, rfl, rfl⟩
  exact ⟨s, steps_of_runActions hs, hrow, hrows, hhistory,
    (install_refines olderServer_initial (steps_of_runActions hs)).2.1 hrow⟩

end InstallServer

/-- How far the phase is from the end of the call.  Taking the mutex and locking the clock row are
far above what follows them. -/
def InstallPhase.rank : InstallPhase → ℕ
  | .connect => 56
  | .firstLook => 55
  | .caller => 54
  | .lock => 53
  | .secondLook => 26
  | .tables => 25
  | .define _ _ rest => 15 + rest.length
  | .begin _ => 14
  | .lockClock _ => 13
  | .oldest => 6
  | .seed _ => 5
  | .commit _ => 4
  | .rollback _ => 3
  | .unlock _ => 2
  | .close _ => 1

/-- How far the call is from its end. -/
def InstallCall.rank : InstallCall → ℕ
  | .asks phase => phase.rank
  | .ended _ => 0

/-- The definitions come closer to the transaction. -/
lemma InstallPhase.rank_defining (legacy : Bool) (rest : List Sql) :
    (InstallPhase.defining legacy rest).rank = 14 + rest.length := by
  cases rest with
  | nil => rfl
  | cons q rest =>
    change 15 + rest.length = 14 + (rest.length + 1)
    omega

/-- A look leads to what was found, to what is missing, or to a failure. -/
lemma InstallPhase.rank_looked {found missing : InstallPhase}
    {failed : TranslatorError → InstallPhase} {n : ℕ} (hfound : found.rank < n)
    (hmissing : missing.rank < n) (hfailed : ∀ e, (failed e).rank < n)
    (r : Except TranslatorError Bool) : (looked found failed missing r).rank < n := by
  cases r with
  | ok there =>
    cases there with
    | true => exact hfound
    | false => exact hmissing
  | error e =>
    rw [looked]
    split
    · exact hfailed e
    · exact hmissing

/-- Every answer brings the call closer to its end. -/
lemma InstallPhase.rank_answered (phase : InstallPhase) (r : phase.question.Answer) :
    (phase.answered r).rank < phase.rank := by
  cases phase with
  | connect | begin _ | seed _ | commit _ | rollback _ =>
    cases r with
    | ok _ => simp [answered, InstallCall.rank, rank]
    | error e => simp [answered, InstallCall.rank, rank]
  | firstLook | secondLook =>
    refine rank_looked ?_ ?_ (fun e => ?_) r <;> simp [rank]
  | caller =>
    cases r with
    | true => simp [answered, InstallCall.rank, rank]
    | false => simp [answered, InstallCall.rank, rank]
  | lock => exact (by decide : 26 < 53)
  | tables =>
    cases r with
    | ok count =>
      cases count with
      | none => simp [answered, InstallCall.rank, rank]
      | some count =>
        change (InstallPhase.defining (decide ((count : ℕ) ≠ 0)) schemaDefinitions).rank < 25
        rw [rank_defining]
        decide
    | error e => simp [answered, InstallCall.rank, rank]
  | define legacy q rest =>
    cases r with
    | ok _ =>
      change (InstallPhase.defining legacy rest).rank < 15 + rest.length
      rw [rank_defining]
      omega
    | error e =>
      change 2 < 15 + rest.length
      omega
  | lockClock legacy =>
    cases r with
    | ok clock =>
      cases clock with
      | none => simp [answered, InstallCall.rank, rank]
      | some clock =>
        change (if legacy && decide (clock ≠ ⟨0, 0⟩) then InstallPhase.oldest
          else .seed legacy).rank < 13
        split <;> simp [rank]
    | error e => simp [answered, InstallCall.rank, rank]
  | oldest =>
    cases r with
    | ok there => cases there <;> simp [answered, InstallCall.rank, rank]
    | error e => simp [answered, InstallCall.rank, rank]
  | unlock result => exact (by decide : 1 < 2)
  | close result => exact (by decide : 0 < 1)

/-- The connection whose transaction holds the clock row. -/
def ClockLock.owner : ClockLock → Option ℕ
  | .writer owner _ _ => some owner
  | _ => none

/-- How far a call is from its end, if there is one. -/
def rankOf (calls : ℕ → Option InstallCall) (conn : Option ℕ) : ℕ :=
  (conn.bind calls).elim 0 InstallCall.rank

/-- A call that goes on brings nobody further from the end. -/
lemma rankOf_update_le {calls : ℕ → Option InstallCall} {conn : ℕ} {call : InstallCall}
    (hrank : call.rank ≤ rankOf calls (some conn)) (c : Option ℕ) :
    rankOf (Function.update calls conn (some call)) c ≤ rankOf calls c := by
  cases c with
  | none => exact le_rfl
  | some c =>
    by_cases hc : c = conn
    · subst hc
      simpa [rankOf] using hrank
    · simp [rankOf, hc]

/-- It is itself closer to the end. -/
@[simp] lemma rankOf_update_self {calls : ℕ → Option InstallCall} {conn : ℕ} {call : InstallCall} :
    rankOf (Function.update calls conn (some call)) (some conn) = call.rank := by
  simp [rankOf]

namespace InstallServer

/-- How far everybody is from the end on whom the connection's call may have to wait. -/
def distance (s : InstallServer) (calls : ℕ → Option InstallCall) (conn : ℕ) : ℕ :=
  rankOf calls (some conn) + rankOf calls s.mutex + rankOf calls (s.seeding.map Prod.fst) +
    (rankOf calls s.server.lock.owner + if s.server.lock.owner.isSome then 1 else 0)

/-- What an answer does to the locks. -/
lemma Inv.answer_locks {s s₁ : InstallServer} {calls : ℕ → Option InstallCall} (hI : s.Inv calls)
    {conn : ℕ} {phase : InstallPhase} (hcall : calls conn = some (.asks phase))
    {r : phase.question.Answer} (hanswer : s.answer conn phase.question = some (r, s₁)) :
    s₁.server.lock = s.server.lock ∧
      (phase = .lock ∧ s₁.mutex = some conn ∨ s₁.mutex = s.mutex ∨ s₁.mutex = none) ∧
      ((∃ legacy, phase = .lockClock legacy) ∧ s₁.seeding = some (conn, none) ∨
        s₁.seeding.map Prod.fst = s.seeding.map Prod.fst ∨ s₁.seeding = none) := by
  have hrelease : (s.release conn).seeding.map Prod.fst = s.seeding.map Prod.fst ∨
      (s.release conn).seeding = none := by
    cases hseeding : s.seeding with
    | none => simp [release, hseeding]
    | some seeding =>
      by_cases howner : seeding.1 = conn
      · simp [release, hseeding, howner]
      · left
        rw [release, hseeding, Option.filter_some_pos (by simpa using howner)]
  cases phase with
  | connect | caller | begin legacy | tables =>
    obtain ⟨-, rfl⟩ := Prod.ext_iff.1 (Option.some.inj hanswer)
    exact ⟨rfl, .inr (.inl rfl), .inr (.inl rfl)⟩
  | firstLook | secondLook =>
    have hlook : s.statement conn .historyRow = some (r, s₁) := hanswer
    obtain ⟨rfl, -⟩ := hI.sound.looked hlook .connect .connect fun _ => .connect
    exact ⟨rfl, .inr (.inl rfl), .inr (.inl rfl)⟩
  | lock =>
    simp only [InstallPhase.question, InstallServer.answer] at hanswer
    split at hanswer
    · obtain ⟨-, rfl⟩ := Prod.ext_iff.1 (Option.some.inj hanswer)
      exact ⟨rfl, .inl ⟨rfl, rfl⟩, .inr (.inl rfl)⟩
    · cases hanswer
  | define legacy q rest =>
    obtain ⟨before, heq, -⟩ := (hI.phases conn _ hcall).defined (q :: rest) rfl
    have hst : s.statement conn q = some (r, s₁) := hanswer
    rcases hI.sound.definition (by simp [heq]) hst with ⟨e, rfl, rfl⟩ | ⟨-, hdefines, -⟩
    · exact ⟨rfl, .inr (.inl rfl), .inr (.inl rfl)⟩
    · obtain ⟨-, -, hmutex, hseeding⟩ := hdefines.calls
      exact ⟨hdefines.rows.2.1, .inr (.inl hmutex), .inr (.inl (by rw [hseeding]))⟩
  | lockClock legacy =>
    simp only [InstallPhase.question, InstallServer.answer, InstallServer.statement, reading]
      at hanswer
    split at hanswer
    · split at hanswer
      · split at hanswer
        · obtain ⟨-, rfl⟩ := Prod.ext_iff.1 (Option.some.inj hanswer)
          exact ⟨rfl, .inr (.inl rfl), .inl ⟨⟨legacy, rfl⟩, rfl⟩⟩
        · cases hanswer
      · obtain ⟨-, rfl⟩ := Prod.ext_iff.1 (Option.some.inj hanswer)
        exact ⟨rfl, .inr (.inl rfl), .inr (.inl rfl)⟩
    · obtain ⟨-, rfl⟩ := Prod.ext_iff.1 (Option.some.inj hanswer)
      exact ⟨rfl, .inr (.inl rfl), .inr (.inl rfl)⟩
  | oldest =>
    simp only [InstallPhase.question, InstallServer.answer, InstallServer.statement, reading]
      at hanswer
    split at hanswer
    · obtain ⟨-, rfl⟩ := Prod.ext_iff.1 (Option.some.inj hanswer)
      exact ⟨rfl, .inr (.inl rfl), .inr (.inl rfl)⟩
    · obtain ⟨-, rfl⟩ := Prod.ext_iff.1 (Option.some.inj hanswer)
      exact ⟨rfl, .inr (.inl rfl), .inr (.inl rfl)⟩
  | seed legacy =>
    simp only [InstallPhase.question, InstallServer.answer, InstallServer.statement, reading]
      at hanswer
    split at hanswer
    · obtain ⟨-, rfl⟩ := Prod.ext_iff.1 (Option.some.inj hanswer)
      refine ⟨rfl, .inr (.inl rfl), .inr (.inl ?_)⟩
      cases hseeding : s.seeding with
      | none => rfl
      | some seeding =>
        simp only [Option.map_some]
        split <;> rfl
    · obtain ⟨-, rfl⟩ := Prod.ext_iff.1 (Option.some.inj hanswer)
      exact ⟨rfl, .inr (.inl rfl), .inr (.inl rfl)⟩
  | commit legacy =>
    have hheld := (hI.phases conn _ hcall).seeding _ rfl
    obtain ⟨-, rfl⟩ := Prod.ext_iff.1 (Option.some.inj hanswer)
    simp only [hheld, if_true]
    exact ⟨trivial, .inr (.inl trivial), .inr (.inr trivial)⟩
  | rollback e | close result =>
    obtain ⟨-, rfl⟩ := Prod.ext_iff.1 (Option.some.inj hanswer)
    exact ⟨rfl, .inr (.inl rfl), .inr hrelease⟩
  | unlock result =>
    obtain ⟨-, rfl⟩ := Prod.ext_iff.1 (Option.some.inj hanswer)
    exact ⟨rfl, .inr (.inr rfl), .inr (.inl rfl)⟩

/-- Everybody on whom the connection's call may have to wait. -/
def Concerns (s : InstallServer) (conn c : ℕ) : Prop :=
  c = conn ∨ s.mutex = some c ∨ s.seeding.map Prod.fst = some c ∨ s.server.lock.owner = some c

/-- An answer brings the end closer, if its call is one of these.  Only the connection's own call
should take the mutex. -/
lemma Inv.distance_next {s s₁ : InstallServer} {calls : ℕ → Option InstallCall} (hI : s.Inv calls)
    {conn c : ℕ} {phase : InstallPhase} (hcall : calls c = some (.asks phase))
    {r : phase.question.Answer} (hanswer : s.answer c phase.question = some (r, s₁))
    (hconcerns : s.Concerns conn c) (hlock : phase = .lock → c = conn)
    (rest : InstallProgram Unit) :
    (s₁.goOn c rest).distance (Function.update calls c (some (phase.answered r))) conn <
      s.distance calls conn := by
  obtain ⟨hsame, hmutex, hseeding⟩ := hI.answer_locks hcall hanswer
  have hrank := phase.rank_answered r
  have hold : rankOf calls (some c) = phase.rank := by simp [rankOf, hcall, InstallCall.rank]
  generalize hnew : Function.update calls c (some (phase.answered r)) = calls'
  have hle (o o' : Option ℕ) (ho : o' = o ∨ o' = none) : rankOf calls' o' ≤ rankOf calls o := by
    rcases ho with rfl | rfl
    · exact hnew ▸ rankOf_update_le (hold ▸ hrank.le) o'
    · exact Nat.zero_le _
  have hself : rankOf calls' (some c) = (phase.answered r).rank := by
    rw [← hnew, rankOf_update_self]
  have hlt (o o' : Option ℕ) (ho : o' = o ∨ o' = none) (hc : o = some c) :
      rankOf calls' o' < rankOf calls o := by
    subst hc
    rcases ho with rfl | rfl
    · rw [hself, hold]
      exact hrank
    · rw [hold]
      exact (Nat.zero_le _).trans_lt hrank
  have hconn := hle (some conn) (some conn) (.inl rfl)
  have howner := hle s.server.lock.owner s.server.lock.owner (.inl rfl)
  change rankOf calls' (some conn) + rankOf calls' s₁.mutex +
    rankOf calls' (s₁.seeding.map Prod.fst) + (rankOf calls' s₁.server.lock.owner +
      if s₁.server.lock.owner.isSome then 1 else 0) < _
  rw [hsame, distance]
  rcases hmutex with ⟨rfl, hmutex⟩ | hmutex
  · -- The call takes the mutex, and comes to stand behind it.
    obtain rfl := hlock rfl
    have howners : s₁.seeding.map Prod.fst = s.seeding.map Prod.fst ∨
        s₁.seeding.map Prod.fst = none := by
      rcases hseeding with ⟨⟨legacy, heq⟩, -⟩ | heq | heq
      · cases heq
      · exact .inl heq
      · exact .inr (by simp [heq])
    have hseed := hle _ _ howners
    have htwenty : rankOf calls' (some c) = 26 := hself
    have hfifty : rankOf calls (some c) = 53 := hold
    rw [hmutex]
    omega
  rcases hseeding with ⟨⟨legacy, rfl⟩, hseeding⟩ | hseeding
  · -- The call locks the clock row, and comes to stand behind it.
    have hheld : s.mutex = some c :=
      (hI.holder c).2 (by simp [hcall, InstallCall.asksA, InstallPhase.locked])
    have hsix : rankOf calls' (some c) ≤ 6 := by
      rw [hself]
      cases r with
      | ok clock =>
        cases clock with
        | none => exact (by decide : 3 ≤ 6)
        | some clock =>
          change (if legacy && decide (clock ≠ ⟨0, 0⟩) then InstallPhase.oldest
            else .seed legacy).rank ≤ 6
          split <;> simp [InstallPhase.rank]
      | error e => exact (by decide : 3 ≤ 6)
    have hthirteen : rankOf calls (some c) = 13 := hold
    have hmutexLe : rankOf calls' s₁.mutex ≤ 6 := by
      rcases hmutex with heq | heq
      · rwa [heq, hheld]
      · rw [heq]
        exact Nat.zero_le _
    have hseedEq : s₁.seeding.map Prod.fst = some c := by rw [hseeding]; rfl
    rw [hseedEq, hheld]
    omega
  · have howners : s₁.seeding.map Prod.fst = s.seeding.map Prod.fst ∨
        s₁.seeding.map Prod.fst = none := by
      rcases hseeding with heq | heq
      · exact .inl heq
      · exact .inr (by simp [heq])
    have hmutexLe := hle _ _ hmutex
    have hseedLe := hle _ _ howners
    rcases hconcerns with rfl | hc | hc | hc
    · have := hlt (some c) (some c) (.inl rfl) rfl
      omega
    · have := hlt _ _ hmutex hc
      omega
    · have := hlt _ _ howners hc
      omega
    · have := hlt s.server.lock.owner s.server.lock.owner (.inl rfl) hc
      omega

/-- Whoever holds the mutex has a call under way. -/
lemma Inv.exists_locked {s : InstallServer} {calls : ℕ → Option InstallCall} (hI : s.Inv calls)
    {conn : ℕ} (hmutex : s.mutex = some conn) :
    ∃ phase, calls conn = some (.asks phase) ∧ phase.locked = true := by
  have hasks := (hI.holder conn).1 hmutex
  cases hcall : calls conn with
  | none => simp [hcall] at hasks
  | some call =>
    cases call with
    | asks phase => exact ⟨phase, rfl, by simpa [hcall, InstallCall.asksA] using hasks⟩
    | ended result => simp [hcall, InstallCall.asksA] at hasks

/-- A connection whose call does not ask anything is not waiting for it. -/
lemma Inv.not_underWay {s : InstallServer} {calls : ℕ → Option InstallCall} (hI : s.Inv calls)
    {conn : ℕ} (hcall : ∀ phase, calls conn ≠ some (.asks phase)) : s.underWay conn = false := by
  by_contra hunder
  obtain ⟨phase, heq⟩ := hI.underWay_iff.1 (by simpa using hunder)
  exact hcall phase heq

/-- A call that is answered goes on. -/
lemma Inv.goes_on {s s₁ : InstallServer} {calls : ℕ → Option InstallCall} (hI : s.Inv calls)
    {conn : ℕ} {phase : InstallPhase} (hcall : calls conn = some (.asks phase))
    {r : phase.question.Answer} (hanswer : s.answer conn phase.question = some (r, s₁)) :
    s.step (.next conn) = some (s₁.goOn conn (phase.answered r).program) ∧
      (s₁.goOn conn (phase.answered r).program).Inv
        (Function.update calls conn (some (phase.answered r))) := by
  constructor
  · obtain ⟨next, hask, hnext⟩ := phase.program_eq
    have hprogram : s.calls conn = some (.ask phase.question next) := by
      rw [hI.program conn, hcall]
      exact congrArg some hask
    simp [InstallServer.step, InstallServer.nextAnswer, hprogram, hanswer, hnext]
  · cases hlocked : phase.locked with
    | false => exact hI.next_unlocked hcall hlocked hanswer
    | true => exact hI.next_locked hcall hlocked hanswer

end InstallServer

/-- The action continues a call, or ends a transaction. -/
def InstallAction.goesOn : InstallAction → Bool
  | .next _ | .endTransaction _ _ => true
  | _ => false

namespace InstallServer

/-- Something can be done that brings the end of the connection's call closer. -/
def CanProgress (s : InstallServer) (calls : ℕ → Option InstallCall) (conn : ℕ) : Prop :=
  ∃ a s' calls', InstallAction.goesOn a = true ∧ s.step a = some s' ∧ s'.Inv calls' ∧
    s'.distance calls' conn < s.distance calls conn

/-- One of those on whom the call may have to wait goes on. -/
lemma Inv.canProgress_of_answer {s s₁ : InstallServer} {calls : ℕ → Option InstallCall}
    (hI : s.Inv calls) {conn c : ℕ} {phase : InstallPhase} (hcall : calls c = some (.asks phase))
    {r : phase.question.Answer} (hanswer : s.answer c phase.question = some (r, s₁))
    (hconcerns : s.Concerns conn c) (hlock : phase = .lock → c = conn) :
    s.CanProgress calls conn :=
  have hgoes := hI.goes_on hcall hanswer
  ⟨.next c, _, _, rfl, hgoes.1, hgoes.2, hI.distance_next hcall hanswer hconcerns hlock _⟩

/-- A writer without a call can end its transaction. -/
lemma Inv.canProgress_of_writer {s : InstallServer} {calls : ℕ → Option InstallCall}
    (hI : s.Inv calls) {conn owner : ℕ} {pending : List OplogRow} {clock : Stamp}
    (hlock : s.server.lock = .writer owner pending clock) (hidle : s.underWay owner = false) :
    s.CanProgress calls conn := by
  have hcommit : s.server.step (.commit owner) = some { s.server with
      rows := s.server.rows ++ pending, clock := clock, committed := s.server.committed ++ pending,
      lock := .free } := by
    simp [OplogServer.step, hlock]
  obtain ⟨s', hst⟩ : ∃ s', s.step (.endTransaction owner true) = some s' := by
    simp [InstallServer.step, hidle]
  refine ⟨.endTransaction owner true, s', calls, rfl, hst, hI.endTransaction hst, ?_⟩
  simp only [InstallServer.step, hidle, Bool.false_eq_true, if_false, if_true, hcommit,
    Option.getD_some, Option.some.injEq] at hst
  subst hst
  rw [distance, distance, hlock]
  have hnone : rankOf calls (ClockLock.owner .free) = 0 := rfl
  have howner : (ClockLock.writer owner pending clock).owner.isSome = true := rfl
  rw [hnone, if_pos howner]
  exact Nat.add_lt_add_left (Nat.succ_pos _) _

/-- Whoever keeps the holder of the mutex from the clock row can go on. -/
lemma Inv.canProgress_of_clock {s : InstallServer} {calls : ℕ → Option InstallCall}
    (hI : s.Inv calls) {conn c : ℕ} {phase : InstallPhase} (hcall : calls c = some (.asks phase))
    (hlocked : phase.locked = true) (hrow : s.historyRow = false)
    (hclock : s.server.lock ≠ .free ∨ ∃ k history, s.seeding = some (k, history) ∧ k ≠ c) :
    s.CanProgress calls conn := by
  rcases hclock with hheld | ⟨k, history, hseeding, hne⟩
  · cases hlock : s.server.lock with
    | free => exact absurd hlock hheld
    | pruner => exact absurd hlock (hI.sound.unseeded hrow).unpruned
    | writer owner pending clock =>
      have howner : s.server.lock.owner = some owner := by rw [hlock]; rfl
      have hholds : s.server.lock.heldBy owner = true := by simp [hlock, ClockLock.heldBy]
      cases hcall' : calls owner with
      | some call =>
        cases call with
        | asks phase' =>
          -- A writer that has called is still before the check of its transaction.
          have hunsettled : phase'.settled = false := by
            by_contra hsettled
            have hnot := (hI.settled owner phase' hcall' (by simpa using hsettled)).2
            cases hholds.symm.trans hnot
          obtain ⟨r, s₁, hanswer⟩ := answer_of_unsettled s owner hunsettled
          refine hI.canProgress_of_answer hcall' hanswer (.inr (.inr (.inr howner))) fun heq => ?_
          rw [heq] at hunsettled
          cases hunsettled
        | ended result =>
          exact hI.canProgress_of_writer hlock (hI.not_underWay fun phase' heq => by
            rw [hcall'] at heq
            cases heq)
      | none =>
        exact hI.canProgress_of_writer hlock (hI.not_underWay fun phase' heq => by
          rw [hcall'] at heq
          cases heq)
  · -- The other session has failed to roll back, and its call is about to close it.
    have hasks := (hI.seeder k history hseeding).2
    obtain ⟨phase', hcall', hholds⟩ : ∃ phase', calls k = some (.asks phase') ∧
        phase'.mayHold = true := by
      cases hcall' : calls k with
      | none => simp [hcall'] at hasks
      | some call =>
        cases call with
        | asks phase' => exact ⟨phase', rfl, by simpa [hcall', InstallCall.asksA] using hasks⟩
        | ended result => simp [hcall', InstallCall.asksA] at hasks
    have hunlocked := hI.locked_unique hcall hlocked hcall' hne
    have howner : s.seeding.map Prod.fst = some k := by rw [hseeding]; rfl
    cases phase' with
    | close result =>
      have hunsettled : (InstallPhase.close result).settled = false := rfl
      obtain ⟨r, s₁, hanswer⟩ := answer_of_unsettled s k hunsettled
      exact hI.canProgress_of_answer hcall' hanswer (.inr (.inr (.inl howner)))
        fun heq => by cases heq
    | connect | firstLook | caller | lock => cases hholds
    | _ => cases hunlocked

/-- **Nobody waits in a circle.**  As long as a call is under way something can be done that brings
its end closer. -/
lemma Inv.canProgress {s : InstallServer} {calls : ℕ → Option InstallCall} (hI : s.Inv calls)
    {conn : ℕ} (hunder : s.underWay conn = true) : s.CanProgress calls conn := by
  have hlocked (c : ℕ) (phase : InstallPhase) (hcall : calls c = some (.asks phase))
      (hphase : phase.locked = true) (hconcerns : s.Concerns conn c) :
      s.CanProgress calls conn := by
    rcases hI.answer_of_locked hcall hphase with ⟨r, s₁, hanswer⟩ | ⟨hrow, hclock⟩
    · refine hI.canProgress_of_answer hcall hanswer hconcerns fun heq => ?_
      rw [heq] at hphase
      cases hphase
    · exact hI.canProgress_of_clock hcall hphase hrow hclock
  obtain ⟨phase, hcall⟩ := hI.underWay_iff.1 hunder
  by_cases hlock : phase = .lock
  · subst hlock
    cases hmutex : s.mutex with
    | none =>
      have hanswer : s.answer conn InstallPhase.lock.question =
          some ((), { s with mutex := some conn }) := if_pos hmutex
      exact hI.canProgress_of_answer hcall hanswer (.inl rfl) fun _ => rfl
    | some c =>
      obtain ⟨phase', hcall', hphase'⟩ := hI.exists_locked hmutex
      exact hlocked c phase' hcall' hphase' (.inr (.inl hmutex))
  · cases hphase : phase.locked with
    | true => exact hlocked conn phase hcall hphase (.inl rfl)
    | false =>
      have hunsettled : phase.settled = false := by
        cases phase with
        | lock => exact absurd rfl hlock
        | connect | firstLook | caller | close result => rfl
        | _ => cases hphase
      obtain ⟨r, s₁, hanswer⟩ := answer_of_unsettled s conn hunsettled
      exact hI.canProgress_of_answer hcall hanswer (.inl rfl) fun heq => absurd heq hlock

/-- **Installing the oplog does not deadlock.**  A connection whose transaction holds the clock row
is never kept waiting by a call of its own, and from wherever the server has got to, going on with
calls that are under way and ending open transactions is enough for a call to end. -/
theorem install_ends {s₀ s : InstallServer} {as : List InstallAction} {conn : ℕ}
    (hs₀ : s₀.Initial) (hs : Steps InstallServer.step s₀ as s) (hconn : s.underWay conn = true) :
    (s.server.lock.heldBy conn = true → ∃ s', s.step (.next conn) = some s') ∧
    ∃ bs t, Run InstallServer.step (fun _ a => InstallAction.goesOn a = true) s bs t ∧
      t.underWay conn = false := by
  obtain ⟨calls, hI⟩ := hs₀.reaches hs
  constructor
  · intro hheld
    obtain ⟨phase, hcall⟩ := hI.underWay_iff.1 hconn
    have hunsettled : phase.settled = false := by
      by_contra hsettled
      have hnot := (hI.settled conn phase hcall (by simpa using hsettled)).2
      cases hheld.symm.trans hnot
    obtain ⟨r, s₁, hanswer⟩ := answer_of_unsettled s conn hunsettled
    exact ⟨_, (hI.goes_on hcall hanswer).1⟩
  · refine exists_run_within
      (P := fun (s : InstallServer) n => ∃ calls, s.Inv calls ∧ s.distance calls conn = n)
      (fun s n hs hgoal => ?_) ⟨calls, hI, rfl⟩
    obtain ⟨calls, hI, hn⟩ := hs
    obtain ⟨a, s', calls', ha, hst, hI', hlt⟩ := hI.canProgress (by simpa using hgoal)
    exact ⟨a, s', _, ha, hst, ⟨calls', hI', rfl⟩, hn ▸ hlt⟩

/-- The second call waits for the first, which waits for the transaction of a third connection. -/
theorem install_ends_contendedRun :
    ∃ s, Steps InstallServer.step olderServer contendedRun s ∧ (s.step (.next 2)).isNone = true ∧
      (s.step (.next 1)).isNone = true ∧
      ∃ bs t, Run InstallServer.step (fun _ a => InstallAction.goesOn a = true) s bs t ∧
        t.underWay 2 = false := by
  obtain ⟨s, hs, hsecond, hfirst, hunder⟩ : ∃ s,
      runActions InstallServer.step olderServer contendedRun = some s ∧
        (s.step (.next 2)).isNone = true ∧ (s.step (.next 1)).isNone = true ∧
        s.underWay 2 = true := ⟨_, rfl, rfl, rfl, rfl⟩
  exact ⟨s, steps_of_runActions hs, hsecond, hfirst,
    (install_ends olderServer_initial (steps_of_runActions hs) hunder).2⟩

end InstallServer

end Chimera
