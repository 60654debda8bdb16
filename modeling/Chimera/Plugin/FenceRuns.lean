import Chimera.Oplog.History
import Chimera.Plugin.WriteFence

/-!
# Runs of write commands

Write commands on any number of connections, statement by statement, between raw SQL writers and
the pruner.  A statement that changes a collection appends its rows to the oplog under the clock
lock, which its connection then holds to the end of the transaction.  What a statement answers is
left open, except that a transaction which has changed the clock row reads its own version.
-/

namespace Chimera

open Interaction StepSystem

/-! ## The clock row -/

/-- The stamp fits its columns. -/
def Stamp.Fits (ts : Stamp) : Prop := ts.t ≤ maxIntUnsigned ∧ ts.i ≤ maxIntUnsigned

/-- Whoever holds the lock as a writer has appended a row and set the clock to its stamp. -/
def ClockLock.Stamped (lock : ClockLock) : Prop :=
  ∀ owner pending clock, lock = .writer owner pending clock →
    clock.Fits ∧ ∃ row, pending.getLast? = some row ∧ row.ts = clock

/-- After a statement of a connection the lock is stamped, and every other connection has the
rows that it had, or none. -/
def ClockLock.Spares (conn : ℕ) (lock lock' : ClockLock) : Prop :=
  lock'.Stamped ∧ ∀ other, other ≠ conn →
    lock'.pendingOf other = lock.pendingOf other ∨ lock'.pendingOf other = []

/-! ## The system -/

/-- A command that a connection has begun.  The last two fields record what happened and are not
read. -/
structure CommandRun where
  /-- What the command has still to do. -/
  program : WireProgram Doc
  /-- What it has read of the clock. -/
  fence : Fence
  /-- The rows of its last `COMMIT`, which are those of its last successful element. -/
  last : Option (List OplogRow)

/-- The command is under way. -/
def CommandRun.running (c : CommandRun) : Bool :=
  match c.program with
  | .ask _ _ => true
  | _ => false

/-- The oplog server and the connections. -/
structure WriteSystem where
  /-- The server. -/
  server : OplogServer
  /-- The command each connection has begun last. -/
  commands : ℕ → Option CommandRun

/-- What can happen. -/
inductive WriteAction where
  /-- A raw SQL writer or the pruner acts. -/
  | server (a : ServerAction)
  /-- A connection begins a write command. -/
  | start (conn : ℕ) (kind : WriteKind) (ctx : Ctx)
  /-- The command's statement is answered.  The calls are those of the triggers. -/
  | answer (conn : ℕ) (reply : (q : Question) → q.Answer) (calls : List AppendCall)

/-- An action of a connection that may have no transaction to end. -/
def OplogServer.tryStep (s : OplogServer) (a : ServerAction) : OplogServer := (s.step a).getD s

/-- The calls of the triggers of one statement. -/
def OplogServer.appendAll (conn : ℕ) : List AppendCall → OplogServer → Option OplogServer
  | [], s => some s
  | call :: calls, s => (s.step (.append conn call)).bind (appendAll conn calls)

/-- What a statement with this answer does to the oplog.  A definition commits first; a `COMMIT`
does not fail. -/
def OplogServer.effect (s : OplogServer) (conn : ℕ) (calls : List AppendCall) :
    (q : Question) → q.Answer → Option OplogServer
  | .sql .connection .startTransaction, .ok _ => some (s.tryStep (.commit conn))
  | .sql .connection .commit, .ok _ => some (s.tryStep (.commit conn))
  | .sql .connection .commit, .error _ => none
  | .sql .connection .rollback, .ok _ => some (s.tryStep (.rollback conn))
  | .sql .connection (.define _), _ => some (s.tryStep (.commit conn))
  | .sql .connection (.adopt _), .ok _ => some (s.tryStep (.commit conn))
  | .sql .connection (.table q), .ok _ => if q.isRead then some s else s.appendAll conn calls
  | _, _ => some s

/-- The answer to a question: a transaction that has changed the clock row reads its own
version. -/
def OplogServer.answer (s : OplogServer) (conn : ℕ) (reply : (q : Question) → q.Answer) :
    (q : Question) → q.Answer
  | .sql .connection .clock =>
    match (reply (.sql .connection .clock) : Except TranslatorError (Option Stamp)) with
    | .ok now => .ok ((s.lock.clockOf conn).or now)
    | .error e => .error e
  | q => reply q

/-- The rows of the last `COMMIT`, after one more statement. -/
def CommandRun.lastAfter (c : CommandRun) (s : OplogServer) (conn : ℕ) :
    Question → Option (List OplogRow)
  | .sql .connection .commit => some (s.lock.pendingOf conn)
  | _ => c.last

namespace WriteSystem

/-- The connection is in the middle of a command. -/
def busy (s : WriteSystem) (conn : ℕ) : Bool := (s.commands conn).any CommandRun.running

/-- One action. -/
def step (s : WriteSystem) : WriteAction → Option WriteSystem
  | .server a =>
    if a.writer.any s.busy then none
    else (s.server.step a).map fun server => { s with server := server }
  | .start conn kind ctx =>
    if s.busy conn then none
    else some { s with
      commands := Function.update s.commands conn (some ⟨kind.program ctx, .start, none⟩) }
  | .answer conn reply calls =>
    match s.commands conn with
    | none => none
    | some c =>
      match c.program with
      | .ask q next =>
        let r := s.server.answer conn reply q
        (s.server.effect conn calls q r).map fun server =>
          { server := server
            commands := Function.update s.commands conn
              (some ⟨next r, .note q r c.fence, c.lastAfter s.server conn q⟩) }
      | _ => none

/-- No command has begun, and nobody holds the clock row. -/
def Initial (s : WriteSystem) : Prop := s.server.lock = .free ∧ ∀ conn, s.commands conn = none

end WriteSystem

/-! ## What one action does to a connection's rows -/

namespace OplogServer

variable {s s' : OplogServer} {conn : ℕ}

/-- A connection has pending rows only if it has set the clock. -/
lemma pendingOf_of_clockOf_eq_none {lock : ClockLock} (h : lock.clockOf conn = none) :
    lock.pendingOf conn = [] := by
  cases lock with
  | writer owner pending clock =>
    simp only [ClockLock.clockOf] at h
    split at h
    · cases h
    · next howner => simp [ClockLock.pendingOf, howner]
  | _ => rfl

/-- What a transaction reads of the clock row it has changed is the stamp of its last row. -/
lemma ts_of_clockOf {lock : ClockLock} (hlock : lock.Stamped) {clock : Stamp} {row : OplogRow}
    (hclock : lock.clockOf conn = some clock) (hrow : (lock.pendingOf conn).getLast? = some row) :
    row.ts = clock ∧ clock.Fits := by
  cases lock with
  | writer owner pending clock' =>
    obtain ⟨hfits, row', hlast, hts⟩ := hlock owner pending clock' rfl
    simp only [ClockLock.clockOf] at hclock
    simp only [ClockLock.pendingOf] at hrow
    split at hclock
    · next howner =>
      rw [if_pos howner, hlast] at hrow
      obtain rfl := Option.some.inj hclock
      obtain rfl := Option.some.inj hrow
      exact ⟨hts, hfits⟩
    · cases hclock
  | free => cases hclock
  | pruner => cases hclock

/-- A transaction that has changed the clock row reads its own version. -/
lemma answer_clock {reply : (q : Question) → q.Answer} {clock : Stamp} {now : Option Stamp}
    (hclock : s.lock.clockOf conn = some clock)
    (h : s.answer conn reply (.sql .connection .clock) = .ok now) : now = some clock := by
  unfold answer at h
  dsimp only at h
  split at h
  · rw [hclock] at h
    exact (Except.ok.inj h).symm
  · cases h

/-- A statement of the pruner keeps the lock, frees it, or takes it. -/
lemma pruneStatement_lock {now : ℕ} (h : s.pruneStatement now = some s') :
    s'.lock = s.lock ∨ s'.lock = .free ∨ s'.lock = .pruner := by
  cases hp : s.pruning with
  | idle => simp [pruneStatement, hp] at h
  | lockClock plan =>
    simp only [pruneStatement, hp] at h
    split at h
    · cases h; exact .inr (.inr rfl)
    · cases h
  | commit survivors removed history =>
    simp only [pruneStatement, hp] at h
    cases h
    exact .inr (.inl rfl)
  | rollback =>
    simp only [pruneStatement, hp] at h
    cases h
    dsimp only
    split
    · exact .inr (.inl rfl)
    · exact .inl rfl
  | _ =>
    simp only [pruneStatement, hp] at h
    cases h
    exact .inl rfl

/-- An append sets the clock to a stamp that fits, and stamps its row with it. -/
lemma oplogAppend_fits {clock clock' : Stamp} {autoIncrement : ℕ} {call : AppendCall}
    {row : OplogRow} (h : oplogAppend clock autoIncrement call = some (clock', row)) :
    clock'.Fits ∧ row.ts = clock' := by
  have hrow := (oplogAppend_eq_some h).2.1
  simp only [oplogAppend] at h
  split at h
  · next hfits =>
    obtain ⟨rfl, -⟩ := Prod.mk.inj (Option.some.inj h)
    exact ⟨⟨hfits.1, hfits.2.1⟩, hrow⟩
  · cases h

/-- An append adds a row to those of its connection, and gives it the lock. -/
lemma lock_append {call : AppendCall} (h : s.step (.append conn call) = some s') :
    (∀ other, other ≠ conn → s.lock.pendingOf other = []) ∧
      ∃ clock row, clock.Fits ∧ row.ts = clock ∧
        s'.lock = .writer conn (s.lock.pendingOf conn ++ [row]) clock := by
  cases hlock : s.lock with
  | free =>
    simp only [step, hlock, Option.map_eq_some_iff, Prod.exists] at h
    obtain ⟨clock, row, happend, rfl⟩ := h
    obtain ⟨hfits, hts⟩ := oplogAppend_fits happend
    exact ⟨fun _ _ => rfl, clock, row, hfits, hts, rfl⟩
  | writer owner pending clock₀ =>
    simp only [step, hlock] at h
    split at h
    · next howner =>
      simp only [Option.map_eq_some_iff, Prod.exists] at h
      obtain ⟨clock, row, happend, rfl⟩ := h
      obtain ⟨hfits, hts⟩ := oplogAppend_fits happend
      refine ⟨fun other hother => ?_, clock, row, hfits, hts, ?_⟩
      · simp only [ClockLock.pendingOf]
        rw [if_neg (fun heq => hother (heq.symm.trans howner))]
      · simp only [ClockLock.pendingOf, howner, if_true]
    · cases h
  | pruner => simp [step, hlock] at h

/-- Every other action keeps the lock or takes it from whoever had it. -/
lemma lock_of_not_append {a : ServerAction} (ha : ∀ conn call, a ≠ .append conn call)
    (h : s.step a = some s') :
    s'.lock = s.lock ∨ ∀ conn, s'.lock.pendingOf conn = [] ∧ s'.lock.clockOf conn = none := by
  have hnobody : ∀ lock : ClockLock, lock = .free ∨ lock = .pruner → ∀ conn,
      lock.pendingOf conn = [] ∧ lock.clockOf conn = none := by
    rintro lock (rfl | rfl) conn <;> exact ⟨rfl, rfl⟩
  cases a with
  | append conn call => exact absurd rfl (ha conn call)
  | commit conn =>
    obtain ⟨_, _, -, rfl⟩ := step_commit h
    exact .inr (hnobody _ (.inl rfl))
  | rollback conn =>
    obtain ⟨-, rfl⟩ := step_rollback h
    exact .inr (hnobody _ (.inl rfl))
  | pruneStart maxRows maxAge =>
    simp only [step] at h
    split at h
    · cases h; exact .inl rfl
    · cases h
  | pruneStep now =>
    obtain hsame | hnone := pruneStatement_lock h
    · exact .inl hsame
    · exact .inr (hnobody _ hnone)
  | pruneFail =>
    simp only [step] at h
    split at h
    · cases h
    · cases h; exact .inl rfl

/-- A writer's lock stays stamped. -/
lemma stamped_step {a : ServerAction} (hlock : s.lock.Stamped) (h : s.step a = some s') :
    s'.lock.Stamped := by
  by_cases ha : ∀ conn call, a ≠ .append conn call
  · obtain hsame | hnone := lock_of_not_append ha h
    · rwa [hsame]
    · intro owner pending clock hwriter
      have hclock := (hnone owner).2
      rw [hwriter] at hclock
      simp [ClockLock.clockOf] at hclock
  · push Not at ha
    obtain ⟨conn, call, rfl⟩ := ha
    obtain ⟨-, clock, row, hfits, hts, hafter⟩ := lock_append h
    rw [hafter]
    rintro _ _ _ ⟨⟩
    exact ⟨hfits, row, by simp, hts⟩

/-- An action that is not part of the connection's transaction leaves its rows alone, or the
connection has none afterwards. -/
lemma pendingOf_step {a : ServerAction} (ha : a.writer ≠ some conn) (h : s.step a = some s') :
    s'.lock.pendingOf conn = s.lock.pendingOf conn ∨ s'.lock.pendingOf conn = [] := by
  by_cases happend : ∀ other call, a ≠ .append other call
  · obtain hsame | hnone := lock_of_not_append happend h
    · exact .inl (congrArg (ClockLock.pendingOf · conn) hsame)
    · exact .inr (hnone conn).1
  · push Not at happend
    obtain ⟨other, call, rfl⟩ := happend
    obtain ⟨-, clock, row, -, -, hafter⟩ := lock_append h
    have hother : other ≠ conn := fun heq => ha (congrArg some heq)
    rw [hafter]
    exact .inr (if_neg hother)

/-- Ending a transaction keeps the lock stamped. -/
lemma stamped_tryStep (a : ServerAction) (hlock : s.lock.Stamped) :
    (s.tryStep a).lock.Stamped := by
  unfold tryStep
  cases h : s.step a with
  | none => exact hlock
  | some s' => exact stamped_step hlock h

/-- Ending another transaction leaves a connection's rows alone, or it has none afterwards. -/
lemma pendingOf_tryStep {a : ServerAction} (ha : a.writer ≠ some conn) :
    (s.tryStep a).lock.pendingOf conn = s.lock.pendingOf conn ∨
      (s.tryStep a).lock.pendingOf conn = [] := by
  unfold tryStep
  cases h : s.step a with
  | none => exact .inl rfl
  | some s' => exact pendingOf_step ha h

/-- The triggers of a statement keep the lock stamped, and leave the rows of other connections
alone. -/
lemma appendAll_lock {calls : List AppendCall} (hlock : s.lock.Stamped)
    (h : s.appendAll conn calls = some s') : s.lock.Spares conn s'.lock := by
  induction calls generalizing s with
  | nil =>
    obtain rfl := Option.some.inj h
    exact ⟨hlock, fun _ _ => .inl rfl⟩
  | cons call calls ih =>
    obtain ⟨s₁, hstep, hrest⟩ := Option.bind_eq_some_iff.1 h
    obtain ⟨hstamped, hothers⟩ := ih (stamped_step hlock hstep) hrest
    refine ⟨hstamped, fun other hother => ?_⟩
    have hne : ServerAction.writer (.append conn call) ≠ some other :=
      fun heq => hother (Option.some.inj heq).symm
    obtain hlater | hlater := hothers other hother
    · rw [hlater]
      exact pendingOf_step hne hstep
    · exact .inr hlater

/-- **What a statement does to the lock.**  It keeps it stamped, and spares the rows of the other
connections. -/
theorem effect_lock {calls : List AppendCall} {q : Question} {r : q.Answer}
    (hlock : s.lock.Stamped) (h : s.effect conn calls q r = some s') :
    s.lock.Spares conn s'.lock := by
  have hkept : s.lock.Spares conn s.lock := ⟨hlock, fun other _ => .inl rfl⟩
  have hended : ∀ a : ServerAction, a.writer = some conn →
      s.lock.Spares conn (s.tryStep a).lock := by
    intro a ha
    refine ⟨stamped_tryStep a hlock, fun other hother => pendingOf_tryStep fun h => ?_⟩
    exact hother (Option.some.inj (h.symm.trans ha))
  unfold effect at h
  split at h
  · exact Option.some.inj h ▸ hended _ rfl
  · exact Option.some.inj h ▸ hended _ rfl
  · cases h
  · exact Option.some.inj h ▸ hended _ rfl
  · exact Option.some.inj h ▸ hended _ rfl
  · exact Option.some.inj h ▸ hended _ rfl
  · split at h
    · exact Option.some.inj h ▸ hkept
    · exact appendAll_lock hlock h
  · exact Option.some.inj h ▸ hkept

end OplogServer

/-! ## The invariant -/

/-- What the clock that a command has read says about its rows. -/
structure CommandRun.Fenced (c : CommandRun) (lock : ClockLock) (conn : ℕ) : Prop where
  /-- Whatever the answers will be, the reply reports the fence. -/
  reports : Fences c.program c.fence Reports
  /-- When the clock was the last thing read, it is the stamp of the last pending row. -/
  reading : c.running = true → ∀ now row, c.fence.reading = some now →
    (lock.pendingOf conn).getLast? = some row → row.ts = now ∧ now.Fits
  /-- The rows of the last `COMMIT` are there when there was one. -/
  committed : c.last.isSome = true → c.fence.commits ≠ 0
  /-- The fence is the stamp of the last of them. -/
  fenced : ∀ rows now row, c.last = some rows → c.fence.fenced = some now →
    rows.getLast? = some row → row.ts = now ∧ now.Fits

/-- The invariant of the system. -/
structure WriteSystem.Inv (s : WriteSystem) : Prop where
  /-- The lock is stamped. -/
  stamped : s.server.lock.Stamped
  /-- Every command is fenced. -/
  commands : ∀ conn c, s.commands conn = some c → c.Fenced s.server.lock conn

/-- The handlers of all write commands report the fence. -/
lemma fences_writeKind (kind : WriteKind) (ctx : Ctx) :
    Fences (kind.program ctx) .start Reports := by
  cases kind with
  | insert => exact fences_handler .insert ctx
  | update => exact fences_handler .update ctx
  | delete => exact fences_handler .delete ctx
  | findAndModify => exact fences_cmdFindAndModify ctx

/-- A command stays fenced while its connection has the rows that it had, or none. -/
lemma CommandRun.Fenced.spared {c : CommandRun} {lock lock' : ClockLock} {conn : ℕ}
    (h : c.Fenced lock conn)
    (hrows : c.running = true →
      lock'.pendingOf conn = lock.pendingOf conn ∨ lock'.pendingOf conn = []) :
    c.Fenced lock' conn := by
  refine { h with reading := fun hrunning now row hnow hrow => ?_ }
  obtain hsame | hnone := hrows hrunning
  · exact h.reading hrunning now row hnow (hsame ▸ hrow)
  · rw [hnone] at hrow
    cases hrow

/-- A statement that neither reads the clock nor commits leaves nothing read. -/
lemma CommandRun.Fenced.quiet {c c' : CommandRun} {lock lock' : ClockLock} {conn : ℕ}
    (h : c.Fenced lock conn) (hreports : Fences c'.program c'.fence Reports)
    (hreading : c'.fence.reading = none) (hfenced : c'.fence.fenced = c.fence.fenced)
    (hcommits : c'.fence.commits = c.fence.commits) (hlast : c'.last = c.last) :
    c'.Fenced lock' conn where
  reports := hreports
  reading _ now row hnow := by
    rw [hreading] at hnow
    cases hnow
  committed := by
    rw [hlast, hcommits]
    exact h.committed
  fenced := by
    rw [hlast, hfenced]
    exact h.fenced

/-- **A statement of a command keeps it fenced.** -/
theorem CommandRun.Fenced.answered {s s' : OplogServer} {conn : ℕ} {c : CommandRun}
    {q : Question} {next : q.Answer → WireProgram Doc} {reply : (q : Question) → q.Answer}
    {calls : List AppendCall} (hlock : s.lock.Stamped) (h : c.Fenced s.lock conn)
    (hprogram : c.program = .ask q next)
    (heffect : s.effect conn calls q (s.answer conn reply q) = some s') :
    CommandRun.Fenced ⟨next (s.answer conn reply q), .note q (s.answer conn reply q) c.fence,
      c.lastAfter s conn q⟩ s'.lock conn := by
  have hrunning : c.running = true := by rw [running, hprogram]
  have hnext : ∀ r, q.mayAnswer r → Fences (next r) (.note q r c.fence) Reports := by
    have hreports := h.reports
    rw [hprogram] at hreports
    exact hreports
  generalize hr : s.answer conn reply q = r at heffect ⊢
  match q with
  | .connect | .inTransaction | .registry _ | .sql .own _ =>
    obtain rfl := Option.some.inj heffect
    exact ⟨hnext r trivial, fun _ => h.reading hrunning, h.committed, h.fenced⟩
  | .sql .connection .clock =>
    obtain rfl := Option.some.inj heffect
    match r with
    | .error e => exact h.quiet (hnext _ trivial) rfl rfl rfl rfl
    | .ok now =>
      refine ⟨hnext _ trivial, fun _ now' row hnow hrow => ?_, h.committed, h.fenced⟩
      cases hclock : s.lock.clockOf conn with
      | none =>
        rw [OplogServer.pendingOf_of_clockOf_eq_none hclock] at hrow
        cases hrow
      | some clock =>
        obtain rfl := OplogServer.answer_clock hclock hr
        obtain rfl := Option.some.inj hnow
        exact OplogServer.ts_of_clockOf hlock hclock hrow
  | .sql .connection .commit =>
    match r with
    | .error e => cases heffect
    | .ok () =>
      refine ⟨hnext _ trivial, by rintro _ _ _ ⟨⟩, fun _ => Nat.succ_ne_zero _, ?_⟩
      rintro _ now row ⟨⟩ hnow hrow
      exact h.reading hrunning now row hnow hrow
  | .sql .connection .startTransaction | .sql .connection .rollback
  | .sql .connection (.define _) | .sql .connection (.adopt _) | .sql .connection (.table _)
  | .sql .connection (.countRows _ _) | .sql .connection .lockClock
  | .sql .connection .historyRow | .sql .connection .oplogTables | .sql .connection .oldestRow
  | .sql .connection .seedClock | .sql .connection (.seedHistory _)
  | .sql .connection .oplogHead | .sql .connection (.readOplog _ _ _ _)
  | .sql .connection (.readChangestream _ _ _) | .sql .connection .historyFloor
  | .sql .connection (.beforeTime _) | .sql .connection .databases
  | .sql .connection (.tables _) | .sql .connection (.indexes _)
  | .sql .connection .startReadOnly | .sql .connection (.raw _) =>
    exact h.quiet (hnext _ trivial) rfl rfl rfl rfl

/-- The invariant holds at the start. -/
lemma WriteSystem.Initial.inv {s : WriteSystem} (h : s.Initial) : s.Inv where
  stamped owner pending clock hlock := by
    rw [h.1] at hlock
    cases hlock
  commands conn c hc := by
    rw [h.2 conn] at hc
    cases hc

/-- **The invariant is kept.** -/
theorem WriteSystem.Inv.step {s s' : WriteSystem} {a : WriteAction} (h : s.Inv)
    (hstep : s.step a = some s') : s'.Inv := by
  cases a with
  | server a =>
    simp only [WriteSystem.step] at hstep
    split at hstep
    · cases hstep
    · next hidle =>
      obtain ⟨server, hserver, rfl⟩ := Option.map_eq_some_iff.1 hstep
      refine ⟨OplogServer.stamped_step h.stamped hserver, fun conn c hc => ?_⟩
      refine (h.commands conn c hc).spared fun hrunning => ?_
      refine OplogServer.pendingOf_step (fun hwriter => hidle ?_) hserver
      rw [hwriter, Option.any_some, busy, hc, Option.any_some, hrunning]
  | start conn kind ctx =>
    simp only [WriteSystem.step] at hstep
    split at hstep
    · cases hstep
    · obtain rfl := Option.some.inj hstep
      refine ⟨h.stamped, fun conn' c hc => ?_⟩
      by_cases hconn : conn' = conn
      · subst hconn
        simp only [Function.update_self, Option.some.injEq] at hc
        subst hc
        exact ⟨fences_writeKind kind ctx, by rintro _ _ _ ⟨⟩, by rintro ⟨⟩, by rintro _ _ _ ⟨⟩⟩
      · simp only [Function.update_of_ne hconn] at hc
        exact h.commands conn' c hc
  | answer conn reply calls =>
    simp only [WriteSystem.step] at hstep
    split at hstep
    · cases hstep
    · next c hc =>
      split at hstep
      · next q next hprogram =>
        obtain ⟨server, heffect, rfl⟩ := Option.map_eq_some_iff.1 hstep
        obtain ⟨hstamped, hothers⟩ := OplogServer.effect_lock h.stamped heffect
        refine ⟨hstamped, fun conn' c' hc' => ?_⟩
        by_cases hconn : conn' = conn
        · subst hconn
          simp only [Function.update_self, Option.some.injEq] at hc'
          subst hc'
          exact (h.commands conn' c hc).answered h.stamped hprogram heffect
        · simp only [Function.update_of_ne hconn] at hc'
          exact (h.commands conn' c' hc').spared fun _ => hothers conn' hconn
      · cases hstep

/-- **The write fence.**  In every run of write commands, raw SQL writers and the pruner: when a
write command has ended with a reply and the last of its elements that succeeded committed rows to
the oplog, then the `operationTime` of the reply is the stamp of the last of these rows. -/
theorem write_fence {s₀ s : WriteSystem} {actions : List WriteAction} (hinitial : s₀.Initial)
    (hrun : Steps WriteSystem.step s₀ actions s) {conn : ℕ} {c : CommandRun} {reply : Doc}
    {rows : List OplogRow} {row : OplogRow} (hc : s.commands conn = some c)
    (hreply : c.program = .done reply) (hlast : c.last = some rows)
    (hrow : rows.getLast? = some row) :
    ∃ t i, findField reply timeName = some (.timestamp t i) ∧ t.toNat = row.ts.t ∧
      i.toNat = row.ts.i := by
  have hinv : s.Inv := hrun.invariant (fun _ _ _ h _ hstep => h.step hstep) hinitial.inv
  have hfenced := hinv.commands conn c hc
  have hreports := hfenced.reports
  rw [hreply] at hreports
  have hcommits : c.fence.commits ≠ 0 := hfenced.committed (by rw [hlast]; rfl)
  obtain ⟨now, hnow, htime⟩ := hreports reply rfl hcommits
  obtain ⟨hts, ht, hi⟩ := hfenced.fenced rows now row hlast hnow hrow
  refine ⟨_, _, htime, ?_, ?_⟩
  · rw [hts]
    exact UInt32.toNat_ofNat_of_lt' (Nat.lt_succ_of_le ht)
  · rw [hts]
    exact UInt32.toNat_ofNat_of_lt' (Nat.lt_succ_of_le hi)

/-- The insert of one document. -/
def insertOne : Ctx where
  body := [("insert".toList, .utf8 "items".toList),
    ("documents".toList, .array [("0".toList, .document [(idName, .utf8 "a".toList)])])]
  db := "app".toList
  argument := "items".toList
  L := .ofStrings
  oids _ := 0

/-- An insert reads the clock, and a neighbour writes before the reply is sent. -/
def insertBesideNeighbour : List WriteAction :=
  [.start 1 .insert insertOne, .answer 1 Question.agree [], .answer 1 Question.agree [],
    .answer 1 Question.agree [plainAppend 7], .answer 1 Question.agree [],
    .answer 1 Question.agree [], .server (.append 2 (plainAppend 9)), .server (.commit 2)]

/-- The reply of an insert carries the stamp of its own row, and not that of a neighbour. -/
theorem write_fence_insert :
    ∃ s c reply, Steps WriteSystem.step ⟨.newOplog, fun _ => none⟩ insertBesideNeighbour s ∧
      s.commands 1 = some c ∧ c.program = .done reply ∧
      ∃ t i, findField reply timeName = some (.timestamp t i) ∧ t.toNat = 7 ∧ i.toNat = 1 := by
  have hrun : ∃ s, Steps WriteSystem.step ⟨.newOplog, fun _ => none⟩ insertBesideNeighbour s ∧
      s.commands 1 = _ := ⟨_, steps_of_runActions rfl, rfl⟩
  obtain ⟨s, hsteps, hc⟩ := hrun
  refine ⟨s, _, _, hsteps, hc, rfl, ?_⟩
  exact write_fence ⟨rfl, fun _ => rfl⟩ hsteps hc rfl rfl rfl

end Chimera
