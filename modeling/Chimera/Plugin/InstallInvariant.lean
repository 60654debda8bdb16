import Chimera.Plugin.InstallPhases

/-!
# What the calls of `install_oplog_schema` rely on

`InstallServer.Inv` says where every call stands and what it relies on: the call that holds the
mutex is the only one that defines anything, what it found out about the oplog is still so, and no
call that may wait belongs to a connection in a transaction.  Here the calls themselves keep it.
-/

namespace Chimera

open Interaction StepSystem

/-! ## What a phase relies on -/

namespace InstallPhase

/-- The call holds the mutex. -/
def locked : InstallPhase → Bool
  | .connect | .firstLook | .caller | .lock | .close _ => false
  | _ => true

/-- The caller was found to be in no transaction. -/
def settled : InstallPhase → Bool
  | .lock => true
  | phase => phase.locked

/-- The session of the call may have locked the clock row. -/
def mayHold : InstallPhase → Bool
  | .oldest | .seed _ | .commit _ | .rollback _ | .unlock _ | .close _ => true
  | _ => false

/-- What the call found out about the oplog. -/
def legacy : InstallPhase → Option Bool
  | .define legacy _ _ | .begin legacy | .lockClock legacy | .seed legacy | .commit legacy =>
    some legacy
  | .oldest => some true
  | _ => none

/-- The definitions that are left. -/
def left : InstallPhase → Option (List Sql)
  | .define _ q rest => some (q :: rest)
  | .begin _ | .lockClock _ | .oldest | .seed _ | .commit _ => some []
  | _ => none

/-- The history row was not there when the call held the mutex. -/
def unseeded : InstallPhase → Bool
  | .tables => true
  | phase => phase.legacy.isSome

/-- The call is about to end without an error. -/
def succeeded : InstallPhase → Bool
  | .unlock (.ok _) | .close (.ok _) => true
  | _ => false

/-- What the call has inserted while it holds the clock row. -/
def inserted (rows : List OplogRow) : InstallPhase → Option (Option History)
  | .oldest | .seed _ => some none
  | .commit legacy => some (some (seededHistory legacy rows))
  | _ => none

/-- The history row can be established. -/
def checked : InstallPhase → Bool
  | .seed true | .commit true => true
  | _ => false

end InstallPhase

/-- The call is about to ask a question of the kind. -/
def InstallCall.asksA (kind : InstallPhase → Bool) : InstallCall → Bool
  | .asks phase => kind phase
  | .ended _ => false

namespace InstallServer

/-- The definition has taken effect. -/
def Has (s : InstallServer) : Sql → Prop
  | .define (.createMetaTable table) => s.tables table = true
  | .define (.createProcedure procedure) => s.procedures procedure = true
  | .seedClock => s.clockRow = true
  | _ => True

/-- What the tables say about the oplog. -/
structure Sound (s : InstallServer) : Prop where
  /-- The clock row is in its table. -/
  clock : s.clockRow = true → s.tables .oplogClock = true
  /-- The history row is in its table. -/
  history : s.historyRow = true → s.tables .oplogHistory = true
  /-- Without a clock row nobody has written. -/
  unstamped : s.clockRow = false → s.historyRow = false ∧ s.server.Fresh
  /-- Without the table nobody has written. -/
  empty : s.tables .oplog = false → s.historyRow = false ∧ s.server.Fresh
  /-- Without the history row there is no pruner. -/
  unseeded : s.historyRow = false → s.server.Unseeded
  /-- With it the oplog was freshly installed once. -/
  seeded : s.historyRow = true → s.server.SeededFrom

/-- What a call relies on. -/
structure PhaseInv (s : InstallServer) (conn : ℕ) (phase : InstallPhase) : Prop where
  /-- The history row is still missing. -/
  unseeded : phase.unseeded = true → s.historyRow = false
  /-- What the call has defined is there. -/
  defined : ∀ rest, phase.left = some rest →
    ∃ before, schemaDefinitions = before ++ rest ∧ ∀ q ∈ before, s.Has q
  /-- An oplog that was not there has only been written to since. -/
  written : phase.legacy = some false → s.server.FreshlyWritten
  /-- The call holds the clock row. -/
  seeding : ∀ history, phase.inserted s.server.rows = some history →
    s.seeding = some (conn, history)
  /-- An older oplog has rows, or a clock that never ran. -/
  checked : phase.checked = true → s.server.clock = ⟨0, 0⟩ ∨ s.server.rows ≠ []
  /-- A call that succeeds leaves a history row. -/
  succeeded : phase.succeeded = true → s.historyRow = true

/-- Where every call stands. -/
structure Inv (s : InstallServer) (calls : ℕ → Option InstallCall) : Prop where
  /-- What is left of the programs. -/
  program : ∀ conn, s.calls conn = (calls conn).map InstallCall.program
  /-- A call that has returned leaves a history row. -/
  returned : ∀ conn, calls conn = some (.ended (.ok ())) → s.historyRow = true
  /-- Who holds the mutex. -/
  holder : ∀ conn, s.mutex = some conn ↔
    (calls conn).any (InstallCall.asksA InstallPhase.locked) = true
  /-- A call that may wait is the call of a connection without a transaction. -/
  settled : ∀ conn phase, calls conn = some (.asks phase) → phase.settled = true →
    s.inTransaction conn = false ∧ s.server.lock.heldBy conn = false
  /-- A connection that has called holds the clock row only in a transaction of its own. -/
  busy : ∀ conn phase, calls conn = some (.asks phase) → s.server.lock.heldBy conn = true →
    s.inTransaction conn = true
  /-- What the calls rely on. -/
  phases : ∀ conn phase, calls conn = some (.asks phase) → s.PhaseInv conn phase
  /-- Who has locked the clock row for seeding. -/
  seeder : ∀ conn history, s.seeding = some (conn, history) → s.server.lock = .free ∧
    (calls conn).any (InstallCall.asksA InstallPhase.mayHold) = true
  /-- What the tables say. -/
  sound : s.Sound

/-- A call that does not hold the mutex relies on nothing but a history row that is there. -/
lemma phaseInv_of_unlocked {s : InstallServer} {conn : ℕ} {phase : InstallPhase}
    (hphase : phase.locked = false) (hrow : phase.succeeded = true → s.historyRow = true) :
    s.PhaseInv conn phase := by
  have hnothing : phase.unseeded = false ∧ phase.left = none ∧ phase.legacy = none ∧
      phase.inserted s.server.rows = none ∧ phase.checked = false := by
    cases phase with
    | connect | firstLook | caller | lock | close result => exact ⟨rfl, rfl, rfl, rfl, rfl⟩
    | _ => cases hphase
  obtain ⟨hunseeded, hleft, hlegacy, hinserted, hchecked⟩ := hnothing
  constructor
  · simp [hunseeded]
  · simp [hleft]
  · simp [hlegacy]
  · simp [hinserted]
  · simp [hchecked]
  · exact hrow

/-- What a call relies on survives what others may do meanwhile. -/
lemma PhaseInv.mono {s s' : InstallServer} {conn : ℕ} {phase : InstallPhase}
    (h : s.PhaseInv conn phase) (hrow : s'.historyRow = s.historyRow)
    (hhas : ∀ q, s.Has q → s'.Has q)
    (hwritten : s.historyRow = false → s.server.FreshlyWritten → s'.server.FreshlyWritten)
    (hseeding : ∀ history, s.seeding = some (conn, history) →
      s'.seeding = some (conn, history) ∧ s'.server.rows = s.server.rows ∧
        s'.server.clock = s.server.clock) :
    s'.PhaseInv conn phase where
  unseeded hphase := hrow ▸ h.unseeded hphase
  defined rest hrest := by
    obtain ⟨before, heq, hbefore⟩ := h.defined rest hrest
    exact ⟨before, heq, fun q hq => hhas q (hbefore q hq)⟩
  written hphase := by
    refine hwritten (h.unseeded ?_) (h.written hphase)
    cases phase <;> first | rfl | cases hphase
  seeding history hphase := by
    cases phase with
    | oldest | seed _ => exact (hseeding _ (h.seeding _ hphase)).1
    | commit legacy =>
      obtain ⟨hheld, hrows, -⟩ := hseeding _ (h.seeding _ rfl)
      rw [← Option.some.inj hphase, hrows]
      exact hheld
    | _ => cases hphase
  checked hphase := by
    have hheld : ∃ history, s.seeding = some (conn, history) := by
      cases phase with
      | seed _ => exact ⟨_, h.seeding _ rfl⟩
      | commit _ => exact ⟨_, h.seeding _ rfl⟩
      | _ => cases hphase
    obtain ⟨history, hheld⟩ := hheld
    obtain ⟨-, hrows, hclock⟩ := hseeding _ hheld
    rw [hrows, hclock]
    exact h.checked hphase
  succeeded hphase := hrow ▸ h.succeeded hphase

/-- A call is under way when it is about to ask. -/
lemma Inv.underWay_iff {s : InstallServer} {calls : ℕ → Option InstallCall} (hI : s.Inv calls)
    {conn : ℕ} : s.underWay conn = true ↔ ∃ phase, calls conn = some (.asks phase) := by
  rw [underWay, hI.program conn]
  cases hcall : calls conn with
  | none => simp
  | some call =>
    cases call with
    | asks phase =>
      obtain ⟨next, hprogram, -⟩ := phase.program_eq
      simp [InstallCall.program, hprogram, InstallProgram.underWay]
    | ended result =>
      cases result <;> simp [InstallCall.program, Interaction.ofExcept, InstallProgram.underWay]

/-- At most one call holds the mutex. -/
lemma Inv.locked_unique {s : InstallServer} {calls : ℕ → Option InstallCall} (hI : s.Inv calls)
    {conn conn' : ℕ} {phase phase' : InstallPhase} (hcall : calls conn = some (.asks phase))
    (hlocked : phase.locked = true) (hcall' : calls conn' = some (.asks phase'))
    (hne : conn' ≠ conn) : phase'.locked = false := by
  have hmutex : s.mutex = some conn :=
    (hI.holder conn).2 (by simp [hcall, InstallCall.asksA, hlocked])
  by_contra hlocked'
  have hmutex' : s.mutex = some conn' :=
    (hI.holder conn').2 (by simpa [hcall', InstallCall.asksA] using hlocked')
  exact hne (Option.some.inj (hmutex'.symm.trans hmutex))

/-! ## A call goes on -/

/-- A call goes on after a question that may have changed what is shared. -/
lemma Inv.goOn {s s₁ : InstallServer} {calls : ℕ → Option InstallCall} (hI : s.Inv calls) {conn : ℕ}
    {call : InstallCall} (hcalls : s₁.calls = s.calls)
    (hin : s₁.inTransaction = s.inTransaction) (hlock : s₁.server.lock = s.server.lock)
    (hmutex : ∀ c, s₁.mutex = some c ↔
      if c = conn then call.asksA InstallPhase.locked = true else s.mutex = some c)
    (hsettled : call.asksA InstallPhase.settled = true → s.inTransaction conn = false)
    (hbusy : s.server.lock.heldBy conn = true → s.inTransaction conn = true)
    (hphases : ∀ c phase, c ≠ conn → calls c = some (.asks phase) → s₁.PhaseInv c phase)
    (hphase : ∀ phase, call = .asks phase → s₁.PhaseInv conn phase)
    (hreturned : call = .ended (.ok ()) → s₁.historyRow = true)
    (hrow : s.historyRow = true → s₁.historyRow = true)
    (hseeder : ∀ c history, s₁.seeding = some (c, history) → s₁.server.lock = .free ∧
      if c = conn then call.asksA InstallPhase.mayHold = true
      else ∃ history', s.seeding = some (c, history'))
    (hsound : s₁.Sound) :
    (s₁.goOn conn call.program).Inv (Function.update calls conn (some call)) where
  program c := by
    by_cases hc : c = conn
    · subst hc
      simp [InstallServer.goOn]
    · simp [InstallServer.goOn, hc, hcalls, hI.program c]
  returned c hcall := by
    by_cases hc : c = conn
    · subst hc
      exact hreturned (by simpa using hcall)
    · exact hrow (hI.returned c (by simpa [hc] using hcall))
  holder c := by
    refine (hmutex c).trans ?_
    by_cases hc : c = conn
    · subst hc
      simp
    · simpa [hc] using hI.holder c
  settled c phase hcall hsettles := by
    change s₁.inTransaction c = false ∧ s₁.server.lock.heldBy c = false
    rw [hin, hlock]
    by_cases hc : c = conn
    · subst hc
      obtain rfl : call = .asks phase := by simpa using hcall
      have htrans := hsettled hsettles
      refine ⟨htrans, ?_⟩
      cases hheld : s.server.lock.heldBy c with
      | false => rfl
      | true => rw [hbusy hheld] at htrans; cases htrans
    · exact hI.settled c phase (by simpa [hc] using hcall) hsettles
  busy c phase hcall hheld := by
    change s₁.inTransaction c = true
    rw [hin]
    replace hheld : s.server.lock.heldBy c = true := hlock ▸ hheld
    by_cases hc : c = conn
    · subst hc
      exact hbusy hheld
    · exact hI.busy c phase (by simpa [hc] using hcall) hheld
  phases c phase hcall := by
    have hgoal : s₁.PhaseInv c phase := by
      by_cases hc : c = conn
      · subst hc
        exact hphase phase (by simpa using hcall)
      · exact hphases c phase hc (by simpa [hc] using hcall)
    exact ⟨hgoal.1, hgoal.2, hgoal.3, hgoal.4, hgoal.5, hgoal.6⟩
  seeder c history hseeding := by
    obtain ⟨hfree, hholds⟩ := hseeder c history hseeding
    refine ⟨hfree, ?_⟩
    by_cases hc : c = conn
    · subst hc
      simpa using hholds
    · obtain ⟨history', hseeding'⟩ : ∃ history', s.seeding = some (c, history') := by
        simpa [hc] using hholds
      simpa [hc] using (hI.seeder c history' hseeding').2
  sound := ⟨hsound.1, hsound.2, hsound.3, hsound.4, hsound.5, hsound.6⟩

/-- A call goes on after a question that changes nothing that is shared. -/
lemma Inv.goOn_same {s : InstallServer} {calls : ℕ → Option InstallCall} (hI : s.Inv calls)
    {conn : ℕ} {phase : InstallPhase} {call : InstallCall}
    (hcall : calls conn = some (.asks phase))
    (hlocked : call.asksA InstallPhase.locked = phase.locked)
    (hholds : phase.mayHold = true → call.asksA InstallPhase.mayHold = true)
    (hsettled : call.asksA InstallPhase.settled = true →
      phase.settled = true ∨ s.inTransaction conn = false)
    (hphase : ∀ phase, call = .asks phase → s.PhaseInv conn phase)
    (hreturned : call = .ended (.ok ()) → s.historyRow = true) :
    (s.goOn conn call.program).Inv (Function.update calls conn (some call)) := by
  refine hI.goOn rfl rfl rfl (fun c => ?_) (fun h => ?_) (hI.busy conn phase hcall)
    (fun c phase _ => hI.phases c phase) hphase hreturned id (fun c history h => ?_) hI.sound
  · by_cases hc : c = conn
    · subst hc
      rw [if_pos rfl, hlocked, hI.holder, hcall]
      rfl
    · rw [if_neg hc]
  · exact (hsettled h).elim (fun hs => (hI.settled conn phase hcall hs).1) id
  · obtain ⟨hfree, hasks⟩ := hI.seeder c history h
    refine ⟨hfree, ?_⟩
    by_cases hc : c = conn
    · subst hc
      rw [if_pos rfl]
      exact hholds (by simpa [hcall, InstallCall.asksA] using hasks)
    · rw [if_neg hc]
      exact ⟨history, h⟩

/-- The next answer is an answer to the question of the phase, and the call goes on as the phase
says. -/
lemma Inv.nextAnswer {s s' : InstallServer} {calls : ℕ → Option InstallCall} (hI : s.Inv calls)
    {conn : ℕ} (hst : s.nextAnswer conn = some s') :
    ∃ phase r s₁, calls conn = some (.asks phase) ∧ s.answer conn phase.question = some (r, s₁) ∧
      s' = s₁.goOn conn (phase.answered r).program := by
  have hprogram := hI.program conn
  cases hcall : calls conn with
  | none =>
    rw [hcall] at hprogram
    simp [InstallServer.nextAnswer, hprogram] at hst
  | some call =>
    rw [hcall] at hprogram
    cases call with
    | asks phase =>
      obtain ⟨next, hask, hnext⟩ := phase.program_eq
      replace hprogram : s.calls conn = some (.ask phase.question next) :=
        hprogram.trans (congrArg some hask)
      simp only [InstallServer.nextAnswer, hprogram, Option.map_eq_some_iff, Prod.exists] at hst
      obtain ⟨r, s₁, hanswer, rfl⟩ := hst
      exact ⟨phase, r, s₁, rfl, hanswer, by rw [hnext]⟩
    | ended result =>
      cases result <;>
        simp [InstallServer.nextAnswer, hprogram, InstallCall.program, Interaction.ofExcept] at hst

/-- A look for the history row finds it exactly when it is there. -/
lemma Sound.looked {s s₁ : InstallServer} (h : s.Sound) {conn : ℕ}
    {r : Except TranslatorError Bool} (hst : s.statement conn .historyRow = some (r, s₁))
    (found missing : InstallPhase) (failed : TranslatorError → InstallPhase) :
    s₁ = s ∧ InstallPhase.looked found failed missing r =
      if s.historyRow then found else missing := by
  simp only [InstallServer.statement, reading] at hst
  split at hst
  · obtain ⟨rfl, rfl⟩ := Prod.ext_iff.1 (Option.some.inj hst)
    refine ⟨rfl, ?_⟩
    cases s.historyRow <;> rfl
  · next hmissing =>
    obtain ⟨rfl, rfl⟩ := Prod.ext_iff.1 (Option.some.inj hst)
    have hrow : s.historyRow = false := by
      by_contra hrow
      exact hmissing (h.history (by simpa using hrow))
    exact ⟨rfl, by simp [InstallPhase.looked, namespaceNotFound, hrow]⟩

/-- What a definition does to what is shared. -/
structure Defines (s s₁ : InstallServer) : Prop where
  /-- The calls and their locks are the same. -/
  calls : s₁.calls = s.calls ∧ s₁.inTransaction = s.inTransaction ∧ s₁.mutex = s.mutex ∧
    s₁.seeding = s.seeding
  /-- The history row and the rows of the oplog are the same. -/
  rows : s₁.historyRow = s.historyRow ∧ s₁.server.lock = s.server.lock ∧
    s₁.server.rows = s.server.rows
  /-- What is defined stays. -/
  has : ∀ q, s.Has q → s₁.Has q
  /-- A new oplog stays one. -/
  written : s.server.FreshlyWritten → s₁.server.FreshlyWritten

/-- Nothing is defined. -/
lemma Defines.refl (s : InstallServer) : s.Defines s :=
  ⟨⟨rfl, rfl, rfl, rfl⟩, ⟨rfl, rfl, rfl⟩, fun _ => id, id⟩

/-- A table or a procedure is defined. -/
lemma Sound.define {s : InstallServer} (h : s.Sound) (definition : Definition) :
    s.Defines (s.define definition) ∧ (s.define definition).Has (.define definition) ∧
      (s.define definition).Sound := by
  cases definition with
  | createMetaTable table =>
    have htables : ∀ table', s.tables table' = true →
        Function.update s.tables table true table' = true := by
      intro table' htable
      by_cases heq : table' = table
      · simp [heq]
      · simpa [heq] using htable
    have hmissing : ∀ table', Function.update s.tables table true table' = false →
        s.tables table' = false := by
      intro table' htable
      by_contra hthere
      rw [htables table' (by simpa using hthere)] at htable
      cases htable
    refine ⟨⟨⟨rfl, rfl, rfl, rfl⟩, ⟨rfl, rfl, rfl⟩, fun q hq => ?_, id⟩,
      by simp [Has, InstallServer.define],
      fun hrow => htables _ (h.clock hrow), fun hrow => htables _ (h.history hrow), h.unstamped,
      fun hempty => h.empty (hmissing _ hempty), h.unseeded, h.seeded⟩
    unfold Has at hq ⊢
    split
    · exact htables _ hq
    · exact hq
    · exact hq
    · trivial
  | createProcedure procedure =>
    refine ⟨⟨⟨rfl, rfl, rfl, rfl⟩, ⟨rfl, rfl, rfl⟩, fun q hq => ?_, id⟩,
      by simp [Has, InstallServer.define], h.clock, h.history, h.unstamped, h.empty, h.unseeded,
      h.seeded⟩
    unfold Has at hq ⊢
    split
    · exact hq
    · next procedure' =>
      change Function.update s.procedures procedure true procedure' = true
      by_cases heq : procedure' = procedure
      · simp [heq]
      · simpa [heq] using hq
    · exact hq
    · trivial
  | _ => exact ⟨.refl s, trivial, h⟩

/-- The clock row is seeded where it is missing. -/
lemma Sound.seedClock {s : InstallServer} (h : s.Sound) (htable : s.tables .oplogClock = true)
    (hclock : s.clockRow = false) :
    s.Defines { s with clockRow := true, server.clock := ⟨0, 0⟩ } ∧
      ({ s with clockRow := true, server.clock := ⟨0, 0⟩ } : InstallServer).Sound := by
  obtain ⟨hrow, hfresh⟩ := h.unstamped hclock
  refine ⟨⟨⟨rfl, rfl, rfl, rfl⟩, ⟨rfl, rfl, rfl⟩, fun q hq => ?_,
    fun _ => (hfresh.setClock ⟨0, 0⟩).freshlyWritten⟩,
    fun _ => htable, h.history, fun hmissing => (by cases hmissing),
    fun _ => ⟨hrow, hfresh.setClock ⟨0, 0⟩⟩, fun _ => hfresh.unseeded.setClock ⟨0, 0⟩,
    fun hseeded => ?_⟩
  · unfold Has at hq ⊢
    split
    · exact hq
    · exact hq
    · rfl
    · trivial
  · cases hrow.symm.trans hseeded

/-- One of the definitions is made, or fails. -/
lemma Sound.definition {s s₁ : InstallServer} (h : s.Sound) {conn : ℕ} {q : Sql}
    (hq : q ∈ schemaDefinitions) {r : Except TranslatorError q.Result}
    (hst : s.statement conn q = some (r, s₁)) :
    (∃ e, r = .error e ∧ s₁ = s) ∨ (∃ a, r = .ok a) ∧ s.Defines s₁ ∧ s₁.Has q ∧ s₁.Sound := by
  have hdefine (definition : Definition)
      (hok : s.statement conn (.define definition) = some (.ok (), s.define definition))
      (heq : q = .define definition) :
      (∃ a, r = .ok a) ∧ s.Defines s₁ ∧ s₁.Has q ∧ s₁.Sound := by
    subst heq
    obtain ⟨rfl, rfl⟩ := Prod.ext_iff.1 (Option.some.inj (hok.symm.trans hst))
    exact ⟨⟨(), rfl⟩, h.define definition⟩
  simp only [schemaDefinitions, List.mem_cons, List.not_mem_nil, or_false] at hq
  rcases hq with hq | hq | hq | hq | hq | hq | hq | rfl | hq | hq
  · exact .inr (hdefine _ rfl hq)
  · exact .inr (hdefine _ rfl hq)
  · exact .inr (hdefine _ rfl hq)
  · exact .inr (hdefine _ rfl hq)
  · exact .inr (hdefine _ rfl hq)
  · exact .inr (hdefine _ rfl hq)
  · exact .inr (hdefine _ rfl hq)
  · simp only [InstallServer.statement, reading] at hst
    split at hst
    · next htable =>
      split at hst
      · next hclock =>
        split at hst
        · obtain ⟨rfl, rfl⟩ := Prod.ext_iff.1 (Option.some.inj hst)
          exact .inr ⟨⟨(), rfl⟩, .refl s, hclock, h⟩
        · cases hst
      · next hclock =>
        obtain ⟨rfl, rfl⟩ := Prod.ext_iff.1 (Option.some.inj hst)
        obtain ⟨hdefines, hsound⟩ := h.seedClock htable (by simpa using hclock)
        exact .inr ⟨⟨(), rfl⟩, hdefines, rfl, hsound⟩
    · obtain ⟨rfl, rfl⟩ := Prod.ext_iff.1 (Option.some.inj hst)
      exact .inl ⟨_, rfl, rfl⟩
  · refine .inr (hdefine _ ?_ hq)
    subst hq
    simp only [InstallServer.statement] at hst ⊢
    split at hst
    · next hfree => rw [if_pos hfree]
    · cases hst
  · exact .inr (hdefine _ rfl hq)

/-- A call whose phase rules it out has not locked the clock row. -/
lemma Inv.not_seeding {s : InstallServer} {calls : ℕ → Option InstallCall} (hI : s.Inv calls)
    {conn : ℕ} {phase : InstallPhase} (hcall : calls conn = some (.asks phase))
    (hholds : phase.mayHold = false) {history : Option History} :
    s.seeding ≠ some (conn, history) := fun hseeding => by
  have hasks := (hI.seeder conn history hseeding).2
  simp [hcall, InstallCall.asksA, hholds] at hasks

/-- The call that holds the mutex goes on, and still holds it. -/
lemma Inv.goOn_locked {s s₁ : InstallServer} {calls : ℕ → Option InstallCall} (hI : s.Inv calls)
    {conn : ℕ} {phase phase' : InstallPhase} (hcall : calls conn = some (.asks phase))
    (hlocked : phase.locked = true) (hlocked' : phase'.locked = true)
    (hcalls : s₁.calls = s.calls) (hin : s₁.inTransaction = s.inTransaction)
    (hlock : s₁.server.lock = s.server.lock) (hmutex : s₁.mutex = s.mutex)
    (hrow : s.historyRow = true → s₁.historyRow = true) (hphase : s₁.PhaseInv conn phase')
    (hseeder : ∀ c history, s₁.seeding = some (c, history) →
      (∃ history', s.seeding = some (c, history')) ∨ c = conn ∧ s.server.lock = .free)
    (hholds : ∀ history, s₁.seeding = some (conn, history) → phase'.mayHold = true)
    (hsound : s₁.Sound) :
    (s₁.goOn conn (InstallCall.asks phase').program).Inv
      (Function.update calls conn (some (.asks phase'))) := by
  have hsettled : phase.settled = true := by
    cases phase <;> first | rfl | cases hlocked
  refine hI.goOn hcalls hin hlock (fun c => ?_) (fun _ => (hI.settled conn phase hcall hsettled).1)
    (hI.busy conn phase hcall) (fun c phase₂ hc hcall₂ => ?_) (fun phase₂ heq => ?_)
    (fun heq => by cases heq) hrow (fun c history hseeding => ?_) hsound
  · rw [hmutex, hI.holder]
    by_cases hc : c = conn
    · subst hc
      simp [hcall, InstallCall.asksA, hlocked, hlocked']
    · rw [if_neg hc]
  · have hunlocked := hI.locked_unique hcall hlocked hcall₂ hc
    exact phaseInv_of_unlocked hunlocked fun hs => hrow ((hI.phases c phase₂ hcall₂).succeeded hs)
  · obtain rfl := InstallCall.asks.inj heq
    exact hphase
  · have hfree : s₁.server.lock = .free := by
      rw [hlock]
      rcases hseeder c history hseeding with ⟨history', hheld⟩ | ⟨-, hfree⟩
      · exact (hI.seeder c history' hheld).1
      · exact hfree
    refine ⟨hfree, ?_⟩
    by_cases hc : c = conn
    · subst hc
      rw [if_pos rfl]
      exact hholds history hseeding
    · rw [if_neg hc]
      exact (hseeder c history hseeding).resolve_right fun h => hc h.1

/-- A phase that fails leaves an error, and relies on nothing. -/
lemma phaseInv_failed {s : InstallServer} {conn : ℕ} {e : TranslatorError} :
    s.PhaseInv conn (.rollback e) ∧ s.PhaseInv conn (.unlock (.error e)) ∧
      s.PhaseInv conn (.close (.error e)) := by
  refine ⟨⟨?_, ?_, ?_, ?_, ?_, ?_⟩, ⟨?_, ?_, ?_, ?_, ?_, ?_⟩, ⟨?_, ?_, ?_, ?_, ?_, ?_⟩⟩ <;>
    simp [InstallPhase.unseeded, InstallPhase.legacy, InstallPhase.left, InstallPhase.inserted,
      InstallPhase.checked, InstallPhase.succeeded]

/-- A phase that succeeds relies on the history row. -/
lemma phaseInv_succeeded {s : InstallServer} {conn : ℕ} (hrow : s.historyRow = true) :
    s.PhaseInv conn (.unlock (.ok ())) ∧ s.PhaseInv conn (.close (.ok ())) := by
  refine ⟨⟨?_, ?_, ?_, ?_, ?_, ?_⟩, ⟨?_, ?_, ?_, ?_, ?_, ?_⟩⟩ <;>
    simp [InstallPhase.unseeded, InstallPhase.legacy, InstallPhase.left, InstallPhase.inserted,
      InstallPhase.checked, hrow]

/-- The call that holds the mutex goes on with nothing changed. -/
lemma Inv.goOn_still {s : InstallServer} {calls : ℕ → Option InstallCall} (hI : s.Inv calls)
    {conn : ℕ} {phase phase' : InstallPhase} (hcall : calls conn = some (.asks phase))
    (hlocked : phase.locked = true) (hlocked' : phase'.locked = true)
    (hholds : phase.mayHold = true → phase'.mayHold = true) (hphase : s.PhaseInv conn phase') :
    (s.goOn conn (InstallCall.asks phase').program).Inv
      (Function.update calls conn (some (.asks phase'))) := by
  refine hI.goOn_locked hcall hlocked hlocked' rfl rfl rfl rfl id hphase
    (fun c history h => .inl ⟨history, h⟩) (fun history hseeding => hholds ?_) hI.sound
  simpa [hcall, InstallCall.asksA] using (hI.seeder conn history hseeding).2

/-- What a call relies on when it has just made a definition, or begins to. -/
lemma phaseInv_defining {s : InstallServer} {conn : ℕ} {legacy : Bool} {rest : List Sql}
    (hrow : s.historyRow = false)
    (hdefined : ∃ before, schemaDefinitions = before ++ rest ∧ ∀ q ∈ before, s.Has q)
    (hwritten : legacy = false → s.server.FreshlyWritten) :
    s.PhaseInv conn (InstallPhase.defining legacy rest) := by
  have hrest (rest' : List Sql) (heq : some rest = some rest') :
      ∃ before, schemaDefinitions = before ++ rest' ∧ ∀ q ∈ before, s.Has q := by
    obtain rfl := Option.some.inj heq
    exact hdefined
  cases rest with
  | nil =>
    refine ⟨fun _ => hrow, hrest, fun h => hwritten (Option.some.inj h), ?_, ?_, ?_⟩ <;>
      simp [InstallPhase.defining, InstallPhase.inserted, InstallPhase.checked,
        InstallPhase.succeeded]
  | cons q rest =>
    refine ⟨fun _ => hrow, hrest, fun h => hwritten (Option.some.inj h), ?_, ?_, ?_⟩ <;>
      simp [InstallPhase.defining, InstallPhase.inserted, InstallPhase.checked,
        InstallPhase.succeeded]

/-- Before it takes the mutex a call only looks. -/
lemma Inv.next_unlocked {s s' : InstallServer} {calls : ℕ → Option InstallCall} (hI : s.Inv calls)
    {conn : ℕ} {phase : InstallPhase} (hcall : calls conn = some (.asks phase))
    (hphase : phase.locked = false) {r : phase.question.Answer}
    (hanswer : s.answer conn phase.question = some (r, s')) :
    (s'.goOn conn (phase.answered r).program).Inv
      (Function.update calls conn (some (phase.answered r))) := by
  have hlook (phase' : InstallPhase) (hnone : phase'.locked = false)
      (hholds : phase.mayHold = false) (hsettled : phase'.settled = false)
      (hrow : phase'.succeeded = true → s.historyRow = true) :
      (s.goOn conn (InstallCall.asks phase').program).Inv
        (Function.update calls conn (some (.asks phase'))) := by
    refine hI.goOn_same hcall (hnone.trans hphase.symm) (fun h => ?_) (fun h => ?_)
      (fun p heq => ?_) (fun heq => by cases heq)
    · rw [hholds] at h
      cases h
    · rw [InstallCall.asksA, hsettled] at h
      cases h
    · obtain rfl := InstallCall.asks.inj heq
      exact phaseInv_of_unlocked hnone hrow
  cases phase with
  | connect =>
    obtain ⟨rfl, rfl⟩ := Prod.ext_iff.1 (Option.some.inj hanswer)
    exact hlook .firstLook rfl rfl rfl fun h => by cases h
  | firstLook =>
    have hst : s.statement conn .historyRow = some (r, s') := hanswer
    obtain ⟨rfl, heq⟩ := hI.sound.looked hst (.close (.ok ())) .caller fun e => .close (.error e)
    have hcallEq : InstallPhase.answered .firstLook r = .asks _ := congrArg InstallCall.asks heq
    rw [hcallEq]
    cases hrow : s'.historyRow with
    | true => exact hlook (.close (.ok ())) rfl rfl rfl fun _ => hrow
    | false => exact hlook .caller rfl rfl rfl fun h => by cases h
  | caller =>
    obtain ⟨hr, rfl⟩ := Prod.ext_iff.1 (Option.some.inj hanswer)
    cases r with
    | true => exact hlook (.close (.error _)) rfl rfl rfl fun h => by cases h
    | false =>
      refine hI.goOn_same hcall rfl (fun h => by cases h) (fun _ => .inr hr) (fun p heq => ?_)
        (fun heq => by cases heq)
      obtain rfl := InstallCall.asks.inj heq
      exact phaseInv_of_unlocked rfl fun h => by cases h
  | lock =>
    simp only [InstallPhase.question, InstallServer.answer] at hanswer
    split at hanswer
    · next hmutex =>
      obtain ⟨rfl, rfl⟩ := Prod.ext_iff.1 (Option.some.inj hanswer)
      refine hI.goOn rfl rfl rfl (fun c => ?_) (fun _ => (hI.settled conn .lock hcall rfl).1)
        (hI.busy conn .lock hcall) (fun c phase _ hc => ?_) (fun phase heq => ?_)
        (fun heq => by cases heq) id (fun c history hseeding => ?_) ?_
      · by_cases hc : c = conn
        · subst hc
          simp [InstallPhase.answered, InstallCall.asksA, InstallPhase.locked]
        · simp [hc, hmutex, Ne.symm hc]
      · exact (hI.phases c phase hc).mono rfl (fun _ => id) (fun _ => id) fun _ h => ⟨h, rfl, rfl⟩
      · obtain rfl := InstallCall.asks.inj heq
        refine ⟨?_, ?_, ?_, ?_, ?_, ?_⟩ <;>
          simp [InstallPhase.unseeded, InstallPhase.legacy, InstallPhase.left,
            InstallPhase.inserted, InstallPhase.checked, InstallPhase.succeeded]
      · refine ⟨(hI.seeder c history hseeding).1, ?_⟩
        by_cases hc : c = conn
        · subst hc
          exact absurd hseeding (hI.not_seeding hcall rfl)
        · rw [if_neg hc]
          exact ⟨history, hseeding⟩
      · exact ⟨hI.sound.1, hI.sound.2, hI.sound.3, hI.sound.4, hI.sound.5, hI.sound.6⟩
    · cases hanswer
  | close result =>
    obtain ⟨rfl, rfl⟩ := Prod.ext_iff.1 (Option.some.inj hanswer)
    refine hI.goOn rfl rfl rfl (fun c => ?_) (fun h => by cases h)
      (hI.busy conn (.close result) hcall) (fun c phase hne hc => ?_)
      (fun phase heq => by cases heq) (fun heq => ?_) id (fun c history hseeding => ?_) ?_
    · change s.mutex = some c ↔ _
      rw [hI.holder]
      by_cases hc : c = conn
      · subst hc
        simp [hcall, InstallCall.asksA, InstallPhase.locked, InstallPhase.answered]
      · rw [if_neg hc]
    · refine (hI.phases c phase hc).mono rfl (fun _ => id) (fun _ => id) fun history h => ?_
      refine ⟨?_, rfl, rfl⟩
      simp [release, h, hne]
    · obtain rfl := InstallCall.ended.inj heq
      exact (hI.phases conn _ hcall).succeeded rfl
    · obtain ⟨hheld, hne⟩ : s.seeding = some (c, history) ∧ c ≠ conn := by
        simpa [release, Option.filter_eq_some_iff] using hseeding
      refine ⟨(hI.seeder c history hheld).1, ?_⟩
      rw [if_neg hne]
      exact ⟨history, hheld⟩
    · exact ⟨hI.sound.1, hI.sound.2, hI.sound.3, hI.sound.4, hI.sound.5, hI.sound.6⟩
  | _ => cases hphase

/-- While it holds the mutex a call looks again, defines the schema and seeds the history row. -/
lemma Inv.next_locked {s s' : InstallServer} {calls : ℕ → Option InstallCall} (hI : s.Inv calls)
    {conn : ℕ} {phase : InstallPhase} (hcall : calls conn = some (.asks phase))
    (hphase : phase.locked = true) {r : phase.question.Answer}
    (hanswer : s.answer conn phase.question = some (r, s')) :
    (s'.goOn conn (phase.answered r).program).Inv
      (Function.update calls conn (some (phase.answered r))) := by
  have hinv := hI.phases conn phase hcall
  cases phase with
  | secondLook =>
    have hst : s.statement conn .historyRow = some (r, s') := hanswer
    obtain ⟨rfl, heq⟩ := hI.sound.looked hst (.unlock (.ok ())) .tables fun e => .unlock (.error e)
    have hcallEq : InstallPhase.answered .secondLook r = .asks _ := congrArg InstallCall.asks heq
    rw [hcallEq]
    cases hrow : s'.historyRow with
    | true => exact hI.goOn_still hcall rfl rfl (fun h => by cases h) (phaseInv_succeeded hrow).1
    | false =>
      refine hI.goOn_still hcall rfl rfl (fun h => by cases h)
          ⟨fun _ => hrow, ?_, ?_, ?_, ?_, ?_⟩ <;>
        simp [InstallPhase.legacy, InstallPhase.left, InstallPhase.inserted, InstallPhase.checked,
          InstallPhase.succeeded]
  | tables =>
    obtain ⟨rfl, rfl⟩ := Prod.ext_iff.1 (Option.some.inj hanswer)
    have hrow := hinv.unseeded rfl
    refine hI.goOn_still hcall rfl rfl (fun h => by cases h)
      (phaseInv_defining hrow ⟨[], rfl, by simp⟩ fun hlegacy => ?_)
    cases htable : s.tables .oplog with
    | false => exact (hI.sound.empty htable).2.freshlyWritten
    | true => simp [htable] at hlegacy
  | define legacy q rest =>
    obtain ⟨before, heq, hbefore⟩ := hinv.defined (q :: rest) rfl
    have hq : q ∈ schemaDefinitions := by simp [heq]
    have hst : s.statement conn q = some (r, s') := hanswer
    have hrow := hinv.unseeded rfl
    rcases hI.sound.definition hq hst with ⟨e, rfl, rfl⟩ | ⟨⟨a, rfl⟩, hdefines, hhas, hsound⟩
    · exact hI.goOn_still hcall rfl rfl (fun h => by cases h) phaseInv_failed.2.1
    · obtain ⟨hcalls, hin, hmutex, hseeding⟩ := hdefines.calls
      obtain ⟨hrows, hlock, -⟩ := hdefines.rows
      have hlocked : (InstallPhase.defining legacy rest).locked = true := by cases rest <;> rfl
      refine hI.goOn_locked hcall rfl hlocked hcalls hin hlock hmutex (hrows ▸ id)
        (phaseInv_defining (hrows.trans hrow) ⟨before ++ [q], by simp [heq], fun q' hq' => ?_⟩
          fun hlegacy => hdefines.written (hinv.written (congrArg some hlegacy)))
        (fun c history h => .inl ⟨history, hseeding ▸ h⟩) (fun history h => ?_) hsound
      · rcases List.mem_append.1 hq' with hq' | hq'
        · exact hdefines.has q' (hbefore q' hq')
        · obtain rfl := List.mem_singleton.1 hq'
          exact hhas
      · exact absurd (hseeding ▸ h) (hI.not_seeding hcall rfl)
  | begin legacy =>
    obtain ⟨rfl, rfl⟩ := Prod.ext_iff.1 (Option.some.inj hanswer)
    refine hI.goOn_still hcall rfl rfl (fun h => by cases h)
      ⟨fun _ => hinv.unseeded rfl, hinv.defined, hinv.written, ?_, ?_, ?_⟩ <;>
      simp [InstallPhase.inserted, InstallPhase.checked, InstallPhase.succeeded]
  | lockClock legacy =>
    simp only [InstallPhase.question, InstallServer.answer, InstallServer.statement, reading]
      at hanswer
    split at hanswer
    · split at hanswer
      · split at hanswer
        · next hfree =>
          obtain ⟨rfl, rfl⟩ := Prod.ext_iff.1 (Option.some.inj hanswer)
          obtain ⟨hfree, -⟩ : s.server.lock = .free ∧ _ := by simpa [clockFree] using hfree
          have hgoal (phase' : InstallPhase) (hlocked : phase'.locked = true)
              (hholds : phase'.mayHold = true)
              (hinv' : PhaseInv { s with seeding := some (conn, none) } conn phase') :
              (InstallServer.goOn { s with seeding := some (conn, none) } conn
                (InstallCall.asks phase').program).Inv
                (Function.update calls conn (some (.asks phase'))) := by
            refine hI.goOn_locked hcall rfl hlocked rfl rfl rfl rfl id hinv' (fun c history h => ?_)
              (fun _ _ => hholds)
              ⟨hI.sound.1, hI.sound.2, hI.sound.3, hI.sound.4, hI.sound.5, hI.sound.6⟩
            obtain ⟨rfl, -⟩ := Prod.ext_iff.1 (Option.some.inj h)
            exact .inr ⟨rfl, hfree⟩
          cases hneed : (legacy && decide (s.server.clock ≠ ⟨0, 0⟩)) with
          | true =>
            have hcallEq : InstallPhase.answered (.lockClock legacy) (.ok (some s.server.clock)) =
                .asks .oldest := congrArg InstallCall.asks (if_pos hneed)
            rw [hcallEq]
            refine hgoal .oldest rfl rfl ⟨fun _ => hinv.unseeded rfl, hinv.defined, ?_, ?_, ?_, ?_⟩
            · simp [InstallPhase.legacy]
            · simp [InstallPhase.inserted]
            · simp [InstallPhase.checked]
            · simp [InstallPhase.succeeded]
          | false =>
            have hcallEq : InstallPhase.answered (.lockClock legacy) (.ok (some s.server.clock)) =
                .asks (.seed legacy) :=
              congrArg InstallCall.asks (if_neg (Bool.eq_false_iff.1 hneed))
            rw [hcallEq]
            refine hgoal (.seed legacy) rfl rfl
              ⟨fun _ => hinv.unseeded rfl, hinv.defined, hinv.written, ?_, ?_, ?_⟩
            · simp [InstallPhase.inserted]
            · intro hchecked
              cases legacy with
              | false => cases hchecked
              | true => exact .inl (by simpa using hneed)
            · simp [InstallPhase.succeeded]
        · cases hanswer
      · obtain ⟨rfl, rfl⟩ := Prod.ext_iff.1 (Option.some.inj hanswer)
        exact hI.goOn_still hcall rfl rfl (fun h => by cases h) phaseInv_failed.1
    · obtain ⟨rfl, rfl⟩ := Prod.ext_iff.1 (Option.some.inj hanswer)
      exact hI.goOn_still hcall rfl rfl (fun h => by cases h) phaseInv_failed.1
  | oldest =>
    simp only [InstallPhase.question, InstallServer.answer, InstallServer.statement, reading]
      at hanswer
    split at hanswer
    · obtain ⟨rfl, rfl⟩ := Prod.ext_iff.1 (Option.some.inj hanswer)
      cases hrows : s.server.rows with
      | nil => exact hI.goOn_still hcall rfl rfl (fun _ => rfl) phaseInv_failed.1
      | cons row rows =>
        refine hI.goOn_still hcall rfl rfl (fun _ => rfl)
          ⟨fun _ => hinv.unseeded rfl, hinv.defined, ?_, hinv.seeding, fun _ => .inr ?_, ?_⟩
        · simp [InstallPhase.legacy]
        · simp [hrows]
        · simp [InstallPhase.succeeded]
    · obtain ⟨rfl, rfl⟩ := Prod.ext_iff.1 (Option.some.inj hanswer)
      exact hI.goOn_still hcall rfl rfl (fun _ => rfl) phaseInv_failed.1
  | seed legacy =>
    have hheld := hinv.seeding none rfl
    have hrow := hinv.unseeded rfl
    simp only [InstallPhase.question, InstallServer.answer, InstallServer.statement, reading]
      at hanswer
    split at hanswer
    · obtain ⟨rfl, rfl⟩ := Prod.ext_iff.1 (Option.some.inj hanswer)
      have howns : True ∧ (!s.historyRow) = true := ⟨trivial, by rw [hrow]; rfl⟩
      simp only [hheld, Option.map_some, if_pos howns]
      refine hI.goOn_locked hcall rfl rfl rfl rfl rfl rfl id
        ⟨fun _ => hrow, hinv.defined, hinv.written, ?_, fun h => hinv.checked ?_, ?_⟩
        (fun c history h => ?_)
        (fun _ _ => rfl) ⟨hI.sound.1, hI.sound.2, hI.sound.3, hI.sound.4, hI.sound.5, hI.sound.6⟩
      · intro history hinserted
        obtain rfl := Option.some.inj hinserted
        rfl
      · cases legacy <;> exact h
      · simp [InstallPhase.succeeded]
      · obtain ⟨rfl, -⟩ := Prod.ext_iff.1 (Option.some.inj h)
        exact .inl ⟨none, hheld⟩
    · obtain ⟨rfl, rfl⟩ := Prod.ext_iff.1 (Option.some.inj hanswer)
      exact hI.goOn_still hcall rfl rfl (fun _ => rfl) phaseInv_failed.1
  | commit legacy =>
    have hheld := hinv.seeding _ rfl
    obtain ⟨rfl, rfl⟩ := Prod.ext_iff.1 (Option.some.inj hanswer)
    simp only [hheld, if_true]
    refine hI.goOn_locked hcall rfl rfl rfl rfl rfl rfl (fun _ => rfl) (phaseInv_succeeded rfl).1
      (fun c history h => by cases h) (fun history h => by cases h) ?_
    obtain ⟨before, heq, hbefore⟩ := hinv.defined [] rfl
    rw [List.append_nil] at heq
    have hall : ∀ q ∈ schemaDefinitions, s.Has q := heq ▸ hbefore
    have hclock : s.clockRow = true := hall .seedClock (by simp [schemaDefinitions])
    have hoplog : s.tables .oplog = true :=
      hall (.define (.createMetaTable .oplog)) (by simp [schemaDefinitions])
    have hhistory : s.tables .oplogHistory = true :=
      hall (.define (.createMetaTable .oplogHistory)) (by simp [schemaDefinitions])
    refine ⟨hI.sound.1, fun _ => hhistory, fun h => ?_, fun h => ?_, fun h => (by cases h),
      fun _ => ?_⟩
    · cases hclock.symm.trans h
    · cases hoplog.symm.trans h
    · cases legacy with
      | false => exact (hinv.written rfl).seededFrom
      | true =>
        exact (hI.sound.unseeded (hinv.unseeded rfl)).seededFrom (hI.seeder conn _ hheld).1
          (hinv.checked rfl)
  | rollback e =>
    obtain ⟨rfl, rfl⟩ := Prod.ext_iff.1 (Option.some.inj hanswer)
    refine hI.goOn_locked hcall rfl rfl rfl rfl rfl rfl id phaseInv_failed.2.1
      (fun c history h => .inl ⟨history, ?_⟩) (fun _ _ => rfl)
      ⟨hI.sound.1, hI.sound.2, hI.sound.3, hI.sound.4, hI.sound.5, hI.sound.6⟩
    exact (Option.filter_eq_some_iff.1 h).1
  | unlock result =>
    obtain ⟨rfl, rfl⟩ := Prod.ext_iff.1 (Option.some.inj hanswer)
    have hmutex : s.mutex = some conn :=
      (hI.holder conn).2 (by simp [hcall, InstallCall.asksA, InstallPhase.locked])
    refine hI.goOn rfl rfl rfl (fun c => ?_) (fun h => by cases h)
      (hI.busy conn (.unlock result) hcall) (fun c phase _ hc => ?_) (fun phase heq => ?_)
      (fun heq => by cases heq) id (fun c history hseeding => ?_)
      ⟨hI.sound.1, hI.sound.2, hI.sound.3, hI.sound.4, hI.sound.5, hI.sound.6⟩
    · by_cases hc : c = conn
      · subst hc
        simp [InstallPhase.answered, InstallCall.asksA, InstallPhase.locked]
      · simp [hc, hmutex, Ne.symm hc]
    · exact (hI.phases c phase hc).mono rfl (fun _ => id) (fun _ => id) fun _ h => ⟨h, rfl, rfl⟩
    · obtain rfl := InstallCall.asks.inj heq
      exact phaseInv_of_unlocked rfl fun h =>
        hinv.succeeded (by cases result <;> first | rfl | cases h)
    · refine ⟨(hI.seeder c history hseeding).1, ?_⟩
      by_cases hc : c = conn
      · rw [if_pos hc]
        rfl
      · rw [if_neg hc]
        exact ⟨history, hseeding⟩
  | _ => cases hphase

/-- **An answer keeps the invariant.** -/
lemma Inv.next {s s' : InstallServer} {calls : ℕ → Option InstallCall} (hI : s.Inv calls)
    {conn : ℕ} (hst : s.nextAnswer conn = some s') : ∃ calls', s'.Inv calls' := by
  obtain ⟨phase, r, s₁, hcall, hanswer, rfl⟩ := hI.nextAnswer hst
  cases hlocked : phase.locked with
  | false => exact ⟨_, hI.next_unlocked hcall hlocked hanswer⟩
  | true => exact ⟨_, hI.next_locked hcall hlocked hanswer⟩

/-- **A failure keeps the invariant.** -/
lemma Inv.fail {s s' : InstallServer} {calls : ℕ → Option InstallCall} (hI : s.Inv calls)
    {conn : ℕ} {e : TranslatorError} (hcode : e.code ≠ 26)
    (hst : s.nextFailure conn e = some s') : ∃ calls', s'.Inv calls' := by
  have hprogram := hI.program conn
  cases hcall : calls conn with
  | none =>
    rw [hcall] at hprogram
    simp [InstallServer.nextFailure, hprogram] at hst
  | some call =>
    rw [hcall] at hprogram
    cases call with
    | ended result =>
      cases result <;>
        simp [InstallServer.nextFailure, hprogram, InstallCall.program, Interaction.ofExcept] at hst
    | asks phase =>
      obtain ⟨next, hask, hnext⟩ := phase.program_eq
      replace hprogram : s.calls conn = some (.ask phase.question next) :=
        hprogram.trans (congrArg some hask)
      have hfailed (rest : InstallProgram Unit) (phase' : InstallPhase)
          (hrest : rest = (InstallCall.asks phase').program)
          (hlocked : phase'.locked = phase.locked)
          (hholds : phase.mayHold = true → phase'.mayHold = true)
          (hsettled : phase'.settled = true → phase.settled = true)
          (hphase : s.PhaseInv conn phase') : ∃ calls', (s.goOn conn rest).Inv calls' := by
        subst hrest
        refine ⟨_, hI.goOn_same hcall hlocked hholds
          (fun h => .inl (hsettled h)) (fun p heq => ?_) (fun heq => by cases heq)⟩
        obtain rfl := InstallCall.asks.inj heq
        exact hphase
      cases phase with
      | connect =>
        simp only [InstallServer.nextFailure, hprogram, InstallPhase.question, Option.some.injEq]
          at hst
        subst hst
        have hended : next (Except.error e) = (InstallCall.ended (.error e)).program :=
          hnext (Except.error e)
        refine ⟨Function.update calls conn (some (.ended (.error e))), ?_⟩
        refine hended ▸ hI.goOn_same hcall rfl (fun h => ?_) (fun h => ?_) (fun p heq => ?_)
          (fun heq => ?_)
        · cases h
        · cases h
        · cases heq
        · cases heq
      | firstLook =>
        simp only [InstallServer.nextFailure, hprogram, InstallPhase.question, Option.some.injEq]
          at hst
        subst hst
        refine hfailed _ (.close (.error e)) ((hnext (Except.error e)).trans ?_) rfl
          (fun h => by cases h) (fun h => by cases h) phaseInv_failed.2.2
        exact congrArg InstallPhase.program (if_pos hcode)
      | secondLook =>
        simp only [InstallServer.nextFailure, hprogram, InstallPhase.question, Option.some.injEq]
          at hst
        subst hst
        refine hfailed _ (.unlock (.error e)) ((hnext (Except.error e)).trans ?_) rfl
          (fun _ => rfl) (fun _ => rfl) phaseInv_failed.2.1
        exact congrArg InstallPhase.program (if_pos hcode)
      | tables | define legacy q rest | begin legacy | rollback e' =>
        simp only [InstallServer.nextFailure, hprogram, InstallPhase.question, Option.some.injEq]
          at hst
        subst hst
        exact hfailed _ (.unlock (.error e)) (hnext (Except.error e)) rfl (fun _ => rfl)
          (fun _ => rfl) phaseInv_failed.2.1
      | lockClock legacy | oldest | seed legacy | commit legacy =>
        simp only [InstallServer.nextFailure, hprogram, InstallPhase.question, Option.some.injEq]
          at hst
        subst hst
        exact hfailed _ (.rollback e) (hnext (Except.error e)) rfl (fun _ => rfl) (fun _ => rfl)
          phaseInv_failed.1
      | caller | lock | unlock result | close result =>
        simp [InstallServer.nextFailure, hprogram, InstallPhase.question] at hst

end InstallServer

end Chimera
