import Chimera.Plugin.SchemaInstall

/-!
# Where a call of `install_oplog_schema` stands

A call is always about to ask one of fifteen questions.  `InstallPhase.program_eq` says once what is
left of the program at each of them and how each answer is gone on with, so that the invariants of
the calls need not look into the program again.
-/

namespace Chimera

open Interaction

/-! ## Without the mutex -/

/-- A part that leaves the mutex alone is what the command runs. -/
lemma besideMutex_forget {α : Type} (x : WireProgram α) :
    (besideMutex x).substitute forgetMutex = x := by
  induction x with
  | done a => rfl
  | fail e => rfl
  | ask q next ih => exact congrArg (Interaction.ask q) (funext ih)

/-- A destructor that a command does not see leaves the scope as it is. -/
lemma atScopeEnd_forget {x last : InstallProgram Unit}
    (hlast : last.substitute forgetMutex = .done ()) :
    (atScopeEnd x last).substitute forgetMutex = x.substitute forgetMutex := by
  induction x with
  | done a => exact hlast
  | fail e =>
    change (last >>= fun _ => .fail e).substitute forgetMutex = .fail e
    rw [substitute_bind, hlast]
    rfl
  | ask q next ih => exact congrArg ((forgetMutex q).bind ·) (funext ih)

/-- **With nobody else at work the program is the one that the commands run.** -/
theorem installUnderMutex_forget :
    installUnderMutex.substitute forgetMutex = installOplogSchema := by
  have hbind {α : Type} (x : WireProgram α) (f : α → InstallProgram Unit) :
      (besideMutex x >>= f).substitute forgetMutex =
        x >>= fun a => (f a).substitute forgetMutex := by
    rw [substitute_bind, besideMutex_forget]
  refine congrArg (Interaction.ask Question.connect) (funext fun r => ?_)
  cases r with
  | error e => rfl
  | ok _ =>
    refine (atScopeEnd_forget rfl).trans ?_
    rw [hbind]
    refine congrArg (oplogReady >>= ·) (funext fun there => ?_)
    cases there with
    | true => rfl
    | false =>
      refine (hbind inTransaction _).trans
        (congrArg (inTransaction >>= ·) (funext fun within => ?_))
      cases within with
      | true => rfl
      | false => exact (atScopeEnd_forget rfl).trans (besideMutex_forget installLocked)

/-! ## Phases -/

/-- The question that a call asks next. -/
inductive InstallPhase where
  /-- Open a session. -/
  | connect
  /-- Look for the history row. -/
  | firstLook
  /-- Is the caller in a transaction? -/
  | caller
  /-- Lock the mutex. -/
  | lock
  /-- Look for the history row again. -/
  | secondLook
  /-- Is there an oplog? -/
  | tables
  /-- One of the definitions, with those that follow. -/
  | define (legacy : Bool) (q : Sql) (rest : List Sql)
  /-- `START TRANSACTION`. -/
  | begin (legacy : Bool)
  /-- Lock the clock row. -/
  | lockClock (legacy : Bool)
  /-- Look for a row of an older oplog. -/
  | oldest
  /-- Insert the history row. -/
  | seed (legacy : Bool)
  /-- `COMMIT`. -/
  | commit (legacy : Bool)
  /-- `ROLLBACK`. -/
  | rollback (e : TranslatorError)
  /-- Unlock the mutex. -/
  | unlock (result : Except TranslatorError Unit)
  /-- Close the session. -/
  | close (result : Except TranslatorError Unit)

/-- A call that is under way or has ended. -/
inductive InstallCall where
  /-- It is about to ask. -/
  | asks (phase : InstallPhase)
  /-- It has ended. -/
  | ended (result : Except TranslatorError Unit)

/-- What follows the first look. -/
def askCaller : InstallProgram Unit := do
  if ← besideMutex inTransaction then
    .fail (badValue ("oplog history initialization is required; commit or roll back " ++
      "the current SQL transaction, then retry").toList)
  question InstallQuestion.lock
  atScopeEnd (besideMutex installLocked) (question InstallQuestion.unlock)

/-- The history row is inserted and committed. -/
def insertHistory (legacy : Bool) : WireProgram Unit := do
  statement .own (.seedHistory legacy)
  statement .own .commit

/-- The transaction that seeds the history row. -/
def seedTransaction (legacy : Bool) : WireProgram Unit := do
  statement .own .startTransaction
  orRollback (seedHistory legacy)

/-- The rest of a call, up to the end of its session. -/
def closing (x : InstallProgram Unit) : InstallProgram Unit :=
  atScopeEnd x (question InstallQuestion.close)

/-- The rest of a call that holds the mutex. -/
def unlocking (x : WireProgram Unit) : InstallProgram Unit :=
  closing (atScopeEnd (besideMutex x) (question InstallQuestion.unlock))

namespace InstallPhase

/-- What is left of the program. -/
def program : InstallPhase → InstallProgram Unit
  | .connect => installUnderMutex
  | .firstLook => closing do
      if ← besideMutex oplogReady then return ()
      askCaller
  | .caller => closing askCaller
  | .lock => closing do
      question InstallQuestion.lock
      atScopeEnd (besideMutex installLocked) (question InstallQuestion.unlock)
  | .secondLook => unlocking installLocked
  | .tables => unlocking defineSchema
  | .define legacy q rest => unlocking do
      statements .own (q :: rest)
      seedTransaction legacy
  | .begin legacy => unlocking (seedTransaction legacy)
  | .lockClock legacy => unlocking (orRollback (seedHistory legacy))
  | .oldest => unlocking (orRollback do
      if !(← statement .own .oldestRow) then
        .fail (internalError
          "cannot establish history for an empty legacy oplog with a nonzero clock".toList)
      insertHistory true)
  | .seed legacy => unlocking (orRollback (insertHistory legacy))
  | .commit _ => unlocking (orRollback (statement .own .commit))
  | .rollback e => unlocking do
      statement .own .rollback
      .fail e
  | .unlock result => closing do
      question InstallQuestion.unlock
      ofExcept result
  | .close result => do
      question InstallQuestion.close
      ofExcept result

/-- The question it begins with. -/
def question : InstallPhase → InstallQuestion
  | .connect => .wire .connect
  | .firstLook | .secondLook => .wire (.sql .own .historyRow)
  | .caller => .wire .inTransaction
  | .lock => .lock
  | .tables => .wire (.sql .own .oplogTables)
  | .define _ q _ => .wire (.sql .own q)
  | .begin _ => .wire (.sql .own .startTransaction)
  | .lockClock _ => .wire (.sql .own .lockClock)
  | .oldest => .wire (.sql .own .oldestRow)
  | .seed legacy => .wire (.sql .own (.seedHistory legacy))
  | .commit _ => .wire (.sql .own .commit)
  | .rollback _ => .wire (.sql .own .rollback)
  | .unlock _ => .unlock
  | .close _ => .close

/-- The definitions that are left, and the transaction after them. -/
def defining (legacy : Bool) : List Sql → InstallPhase
  | [] => .begin legacy
  | q :: rest => .define legacy q rest

/-- What a look for the history row leads to: another error than that the table is missing ends the
call. -/
def looked (found : InstallPhase) (failed : TranslatorError → InstallPhase)
    (missing : InstallPhase) : Except TranslatorError Bool → InstallPhase
  | .ok true => found
  | .ok false => missing
  | .error e => if e.code ≠ 26 then failed e else missing

/-- What an answer leads to. -/
def answered : (phase : InstallPhase) → phase.question.Answer → InstallCall
  | .connect, .ok () => .asks .firstLook
  | .connect, .error e => .ended (.error e)
  | .firstLook, r => .asks (looked (.close (.ok ())) (fun e => .close (.error e)) .caller r)
  | .caller, true => .asks (.close (.error (badValue
      ("oplog history initialization is required; commit or roll back " ++
        "the current SQL transaction, then retry").toList)))
  | .caller, false => .asks .lock
  | .lock, () => .asks .secondLook
  | .secondLook, r => .asks (looked (.unlock (.ok ())) (fun e => .unlock (.error e)) .tables r)
  | .tables, .ok none => .asks (.unlock (.error
      (internalError "could not determine whether the oplog already exists".toList)))
  | .tables, .ok (some count) => .asks (defining (decide ((count : ℕ) ≠ 0)) schemaDefinitions)
  | .tables, .error e => .asks (.unlock (.error e))
  | .define legacy _ rest, .ok _ => .asks (defining legacy rest)
  | .define _ _ _, .error e => .asks (.unlock (.error e))
  | .begin legacy, .ok _ => .asks (.lockClock legacy)
  | .begin _, .error e => .asks (.unlock (.error e))
  | .lockClock _, .ok none =>
    .asks (.rollback (internalError "oplog clock metadata is missing".toList))
  | .lockClock legacy, .ok (some clock) =>
    .asks (if legacy && decide ((clock : Stamp) ≠ ⟨0, 0⟩) then .oldest else .seed legacy)
  | .lockClock _, .error e => .asks (.rollback e)
  | .oldest, .ok true => .asks (.seed true)
  | .oldest, .ok false => .asks (.rollback (internalError
      "cannot establish history for an empty legacy oplog with a nonzero clock".toList))
  | .oldest, .error e => .asks (.rollback e)
  | .seed legacy, .ok _ => .asks (.commit legacy)
  | .seed _, .error e => .asks (.rollback e)
  | .commit _, .ok _ => .asks (.unlock (.ok ()))
  | .commit _, .error e => .asks (.rollback e)
  | .rollback e, .ok _ => .asks (.unlock (.error e))
  | .rollback _, .error e => .asks (.unlock (.error e))
  | .unlock result, () => .asks (.close result)
  | .close result, () => .ended result

end InstallPhase

/-- What is left of the program. -/
def InstallCall.program : InstallCall → InstallProgram Unit
  | .asks phase => phase.program
  | .ended result => ofExcept result

namespace InstallPhase

/-- **A phase is its question and what the answers lead to.** -/
theorem program_eq (phase : InstallPhase) :
    ∃ next, phase.program = .ask phase.question next ∧
      ∀ r, next r = (phase.answered r).program := by
  cases phase with
  | connect | begin _ | seed _ | commit _ | rollback _ =>
    refine ⟨_, rfl, fun r => ?_⟩
    cases r with
    | ok _ => rfl
    | error e => rfl
  | firstLook =>
    refine ⟨_, rfl, fun r => ?_⟩
    cases r with
    | ok there => cases there <;> rfl
    | error e =>
      change closing (do
        if ← besideMutex (if e.code ≠ 26 then .fail e else return false) then return ()
        askCaller) = (looked _ (fun e => .close (.error e)) .caller (.error e)).program
      rw [looked]
      split <;> rfl
  | secondLook =>
    refine ⟨_, rfl, fun r => ?_⟩
    cases r with
    | ok there => cases there <;> rfl
    | error e =>
      change unlocking (do
        if ← (if e.code ≠ 26 then .fail e else return false) then return ()
        defineSchema) = (looked _ (fun e => .unlock (.error e)) .tables (.error e)).program
      rw [looked]
      split <;> rfl
  | caller =>
    refine ⟨_, rfl, fun r => ?_⟩
    cases r with
    | false => rfl
    | true => rfl
  | lock => exact ⟨_, rfl, fun _ => rfl⟩
  | tables =>
    refine ⟨_, rfl, fun r => ?_⟩
    cases r with
    | ok count =>
      cases count with
      | none => rfl
      | some count => rfl
    | error e => rfl
  | define legacy q rest =>
    refine ⟨_, rfl, fun r => ?_⟩
    cases r with
    | ok _ => cases rest <;> rfl
    | error e => rfl
  | lockClock legacy =>
    refine ⟨_, rfl, fun r => ?_⟩
    cases r with
    | ok clock =>
      cases clock with
      | none => rfl
      | some clock =>
        cases legacy with
        | false => rfl
        | true =>
          change unlocking (orRollback (do
            if decide (clock ≠ ⟨0, 0⟩) then
              if !(← statement .own .oldestRow) then
                .fail (internalError
                  "cannot establish history for an empty legacy oplog with a nonzero clock".toList)
            insertHistory true)) = (if decide (clock ≠ ⟨0, 0⟩) then oldest else seed true).program
          split <;> rfl
    | error e => rfl
  | oldest =>
    refine ⟨_, rfl, fun r => ?_⟩
    cases r with
    | ok there => cases there <;> rfl
    | error e => rfl
  | unlock result =>
    refine ⟨_, rfl, fun _ => ?_⟩
    cases result <;> rfl
  | close result =>
    refine ⟨_, rfl, fun _ => ?_⟩
    cases result <;> rfl

end InstallPhase

end Chimera
