import Chimera.Foundations.Run
import Chimera.Plugin.Collection
import Mathlib.Data.Fintype.Basic

/-!
# Interleaved write commands

Several connections, each with one write command as a transaction of its own, under InnoDB's
`REPEATABLE READ`.  A plain `SELECT` reads the snapshot of its transaction, taken at the first of
them, with the transaction's own writes on top.  A write works on the current rows: it waits for
the lock on its slot, and then overwrites whatever is there.  `COMMIT` makes the writes of a
transaction current.  A batch of updates is as many transactions, so it appears here as as many
connections.
-/

namespace Chimera

open Interaction

/-! ## Effects and locks -/

/-- What a write did to its slot. -/
inductive Effect where
  /-- The slot holds the row now. -/
  | store (row : Row)
  /-- The slot is empty now. -/
  | drop (slot : Namespace × Text)
  /-- There was no row to write to. -/
  | miss (slot : Namespace × Text)

/-- The slot of an effect. -/
def Effect.slot : Effect → Namespace × Text
  | .store row => row.slot
  | .drop slot | .miss slot => slot

/-- The write found no row. -/
def Effect.isMiss : Effect → Bool
  | .miss _ => true
  | _ => false

/-- Carry out an effect. -/
def Effect.apply (rows : List Row) : Effect → List Row
  | .store row =>
    if rows.any (Row.isAt row.slot) then replaceRow row rows else insertRow row rows
  | .drop slot => deleteRow slot rows
  | .miss _ => rows

/-- Carry out effects one after the other. -/
def applyEffects (effects : List Effect) (rows : List Row) : List Row :=
  effects.foldl Effect.apply rows

/-- Locks: two transactions may both have found a slot empty; otherwise it is locked by one. -/
def Effect.Conflicts (e e' : Effect) : Prop := e.slot = e'.slot ∧ ¬ (e.isMiss ∧ e'.isMiss)

instance (e e' : Effect) : Decidable (e.Conflicts e') :=
  inferInstanceAs (Decidable (e.slot = e'.slot ∧ ¬ (e.isMiss ∧ e'.isMiss)))

/-- The effect of a write by key on the current rows.  A `DELETE` by condition locks the ranges it
scans; the commands considered here send none. -/
def Request.effect (rows : List Row) : Request → Option Effect
  | .insert row => some (.store row)
  | .replace row =>
    some (if rows.any (Row.isAt row.slot) then .store row else .miss row.slot)
  | .delete ns key =>
    some (if rows.any (Row.isAt (ns, key)) then .drop (ns, key) else .miss (ns, key))
  | _ => none

/-! ## Transactions -/

/-- A transaction that is under way. -/
structure Session where
  /-- What the plugin has still to do. -/
  program : SqlProgram WriteOutcome
  /-- The snapshot, once a `SELECT` has taken it. -/
  snapshot : Option (List Row)
  /-- The transaction's own writes. -/
  effects : List Effect
  /-- The statements so far, with their answers. -/
  record : Record Request Request.Answer

/-- Where a connection is with its command. -/
inductive Status where
  | ready
  | active (session : Session)
  | committed (outcome : WriteOutcome)
  | failed (e : TranslatorError)

/-- The committed rows, and the connections. -/
structure Tables (ι : Type) where
  /-- The rows as they are for a transaction that begins now. -/
  committed : List Row
  /-- The connections. -/
  status : ι → Status

/-- The connections' commands, and the server that carries them out. -/
structure Clients (ι : Type) where
  /-- The server. -/
  S : SqlServer
  /-- The BSON library. -/
  L : Libbson
  /-- The command of each connection, and its collection. -/
  command : ι → Namespace × WriteCommand

/-- One step of a connection. -/
inductive ClientAction (ι : Type) where
  /-- `START TRANSACTION`. -/
  | begin (i : ι)
  /-- The next statement. -/
  | statement (i : ι)
  /-- `COMMIT`. -/
  | commit (i : ι)
  /-- `ROLLBACK`, after an error. -/
  | rollback (i : ι)
  /-- The server gives up on the transaction: a deadlock, or a lock wait that took too long. -/
  | abort (i : ι)

/-- The session of a connection that is in a transaction. -/
def Status.session : Status → Option Session
  | .active session => some session
  | _ => none

/-- The connection moves on. -/
def Tables.move {ι : Type} [DecidableEq ι] (T : Tables ι) (i : ι) (status : Status) : Tables ι :=
  { T with status := Function.update T.status i status }

/-- The rows as the transaction's next `SELECT` sees them. -/
def Session.view (session : Session) (committed : List Row) : List Row :=
  applyEffects session.effects (session.snapshot.getD committed)

/-- The current rows, as the transaction's next write sees them. -/
def Session.current (session : Session) (committed : List Row) : List Row :=
  applyEffects session.effects committed

/-- The snapshot after a statement: the first `SELECT` takes it. -/
def Session.snapshotAfter (session : Session) (committed : List Row) : Request → Option (List Row)
  | .select _ _ _ => some (session.snapshot.getD committed)
  | _ => session.snapshot

/-- The transaction has sent a statement that writes. -/
def Session.wrote (session : Session) : Bool :=
  session.record.any fun exchange => !exchange.1.isRead

/-- The statement is answered. -/
def Session.answered (session : Session) {q : Request}
    (next : q.Answer → SqlProgram WriteOutcome) (r : q.Answer) : Session :=
  { session with program := next r, record := session.record ++ [⟨q, r⟩] }

namespace Clients

variable {ι : Type} [DecidableEq ι] [Fintype ι] (C : Clients ι)

/-- The transaction of a connection's command. -/
def body (i : ι) : SqlProgram WriteOutcome := (C.command i).2.body C.L (C.command i).1

/-- Another transaction holds a lock that the effect needs. -/
def Blocked (T : Tables ι) (i : ι) (effect : Effect) : Prop :=
  ∃ j, j ≠ i ∧ ∃ session ∈ (T.status j).session, ∃ e ∈ session.effects, effect.Conflicts e

instance (T : Tables ι) (i : ι) (effect : Effect) : Decidable (Blocked T i effect) :=
  inferInstanceAs (Decidable (∃ j, j ≠ i ∧
    ∃ session ∈ (T.status j).session, ∃ e ∈ session.effects, effect.Conflicts e))

/-- A statement of a transaction.  A read is answered from the snapshot; a write waits for its
lock.  A failed statement makes the plugin roll back. -/
def statement (T : Tables ι) (i : ι) (session : Session) (q : Request)
    (next : q.Answer → SqlProgram WriteOutcome) : Option (Tables ι) :=
  if q.isRead then
    match C.S.handler q (session.view T.committed) with
    | .ok (r, _) => some <| T.move i <| .active
        { session.answered next r with snapshot := session.snapshotAfter T.committed q }
    | .error e => some (T.move i (.active { session with program := .fail e }))
  else
    match q.effect (session.current T.committed) with
    | none => none
    | some effect =>
      if Blocked T i effect then none
      else
        match C.S.handler q (session.current T.committed) with
        | .ok (r, _) => some <| T.move i <| .active
            { session.answered next r with effects := session.effects ++ [effect] }
        | .error e => some (T.move i (.active { session with program := .fail e }))

/-- One step of a connection, where it is possible. -/
def step (T : Tables ι) : ClientAction ι → Option (Tables ι)
  | .begin i =>
    match T.status i with
    | .ready => some (T.move i (.active ⟨C.body i, none, [], []⟩))
    | _ => none
  | .statement i =>
    match T.status i with
    | .active session =>
      match session.program with
      | .ask q next => C.statement T i session q next
      | _ => none
    | _ => none
  | .commit i =>
    match T.status i with
    | .active session =>
      match session.program with
      | .done outcome =>
        some { T.move i (.committed outcome) with committed := session.current T.committed }
      | _ => none
    | _ => none
  | .rollback i =>
    match T.status i with
    | .active session =>
      match session.program with
      | .fail e => some (T.move i (.failed e))
      | _ => none
    | _ => none
  | .abort i =>
    match T.status i with
    | .active session =>
      match session.program with
      | .ask q _ => some (T.move i (.failed (internalError (C.S.detail q))))
      | _ => none
    | _ => none

/-- All connections are ready, and the tables hold the given rows. -/
def start (rows : List Row) : Tables ι := ⟨rows, fun _ => .ready⟩

/-- The connection's command has reported success. -/
def Succeeded (T : Tables ι) (i : ι) : Prop :=
  ∃ outcome, T.status i = .committed outcome ∧ (C.command i).2.reports outcome = true

/-- The commands, one after the other, each alone on the server, and each successful. -/
def SerialRun : List ι → List Row → List Row → Prop
  | [], rows, rows' => rows' = rows
  | i :: order, rows, rows' => ∃ outcome mid, (C.body i).run C.S.handler rows = .ok (outcome, mid) ∧
      (C.command i).2.reports outcome = true ∧ SerialRun order mid rows'

/-- Every `SELECT` of the record would find the same rows if the transaction were run now. -/
def ReadsStand : List Row → Record Request Request.Answer → Prop
  | _, [] => True
  | rows, ⟨q, r⟩ :: record =>
    if q.isRead then C.S.handler q rows = .ok (r, rows) ∧ ReadsStand rows record
    else ∀ r' rows', C.S.handler q rows = .ok (r', rows') → ReadsStand rows' record

/-- The condition on a `COMMIT`: of a transaction that has written, every `SELECT` would still
find the same rows; and the reply of the command can be made. -/
def CommitsUnchanged (T : Tables ι) : ClientAction ι → Prop
  | .commit i => ∀ session outcome, T.status i = .active session →
      session.program = .done outcome →
        (session.wrote = true → C.ReadsStand T.committed session.record) ∧
        (C.command i).2.reports outcome = true
  | _ => True

end Clients

end Chimera
