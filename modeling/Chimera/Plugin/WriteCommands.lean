import Chimera.Plugin.Statement
import Mathlib.Algebra.GroupWithZero.Nat

/-!
# Write commands

`insert`, `update`, `delete` and `findAndModify`, from the command document to the reply.  Each
element of a batch is a transaction of its own.  An element that fails is reported in
`writeErrors` and ends an ordered batch; only what fails outside the elements fails the command.
-/

namespace Chimera

open Interaction

/-! ## Reading a command -/

/-- A number for a field of a reply. -/
def int32Field (n : ℕ) : Value := .int32 (Int32.ofNat n)

/-- The field `ok` of a success. -/
def okDouble : Binary64 := ⟨0x3FF0000000000000#64⟩

/-- `flag`: a boolean, or a number that is not zero. -/
def flag (doc : Doc) (name : Text) (fallback : Bool) : Bool :=
  match findField doc name with
  | none => fallback
  | some (.bool b) => b
  | some v => if valueIsNumeric v then !v.toDouble.numEq (Binary64.ofInt 0) else fallback

/-- `number`: the double a number converts to, as an `int64_t`. -/
def numberField (doc : Doc) (name : Text) (fallback : ℤ) : ℤ :=
  match findField doc name with
  | none => fallback
  | some v => if valueIsNumeric v then (castInt64 v.toDouble).toInt else fallback

/-- `text_field`. -/
def textField (doc : Doc) (name : Text) : Text :=
  match findField doc name with
  | some (.utf8 s) => s
  | _ => []

/-- `view_field`: the fields of a document or of an array. -/
def viewField (doc : Doc) (name : Text) : Option Doc :=
  (findField doc name).bind Value.subdocument

/-- `Ctx`: what a command handler needs. -/
structure Ctx where
  /-- The command document. -/
  body : Doc
  /-- The database. -/
  db : Text
  /-- The value of the first field, usually a collection. -/
  argument : Text
  /-- The BSON library. -/
  L : Libbson
  /-- The ObjectIds for documents without an `_id`, by element. -/
  oids : ℕ → BitVec 96

/-- `Ctx::ns`. -/
def Ctx.ns (ctx : Ctx) : Except TranslatorError Namespace := parseNamespace ctx.db ctx.argument

/-- `sub_document`: an absent field is an empty document, and so is one that cannot be viewed. -/
def Ctx.subDocument (ctx : Ctx) (name : Text) : Doc := (viewField ctx.body name).getD []

/-! ## Replies -/

/-- A C string ends at the first NUL. -/
def cString (s : Text) : Text := s.takeWhile fun c => c ≠ Char.ofNat 0

/-- `append_write_error`. -/
def writeError (index : ℕ) (e : TranslatorError) : Value :=
  .document [("index".toList, int32Field index), ("code".toList, int32Field e.code),
    ("errmsg".toList, .utf8 (cString e.message))]

/-- `append_write_errors`: the field is there only when there is an error. -/
def writeErrorsField (errors : List (ℕ × TranslatorError)) : Doc :=
  if errors.isEmpty then []
  else [("writeErrors".toList, .array (makeArray (errors.map fun (i, e) => writeError i e)))]

/-- `append_operation_time`: the stamp that was captured, or the clock as it is now. -/
def operationTimeField (stamp : Option Stamp) : WireProgram Doc := do
  let now ← match stamp with
    | some ts => pure ts
    | none => currentOperationTimeOrInitialize
  return [("operationTime".toList, .timestamp (UInt32.ofNat now.t) (UInt32.ofNat now.i))]

/-! ## Batches -/

/-- `run_atomically`: the result of the body, and the variable that holds the stamp. -/
def runAtomically {α : Type} (body : WireProgram α) (stamp : Option Stamp) :
    WireProgram (Except TranslatorError α × Option Stamp) := do
  match ← (sql .startTransaction).attempt with
  | .error e => return (.error e, stamp)
  | .ok () =>
    match ← (do return (← body, ← currentOperationTime) : WireProgram (α × Stamp)).attempt with
    | .error e =>
      match ← (sql .rollback).attempt with
      | .ok () => return (.error e, stamp)
      | .error e' => return (.error e', stamp)
    | .ok (a, now) =>
      match ← (sql .commit).attempt with
      | .ok () => return (.ok a, some now)
      | .error e => return (.error e, some now)

/-- What a batch has done. -/
structure Batch where
  /-- The elements that succeeded. -/
  outcomes : List (ℕ × WriteOutcome)
  /-- The elements that failed. -/
  errors : List (ℕ × TranslatorError)
  /-- The clock that the last successful element set. -/
  stamp : Option Stamp

/-- Nothing yet. -/
def Batch.empty : Batch := ⟨[], [], none⟩

/-- One more element failed. -/
def Batch.failed (b : Batch) (i : ℕ) (e : TranslatorError) : Batch :=
  { b with errors := b.errors ++ [(i, e)] }

/-- The elements of a batch, one after the other. -/
def runBatch (L : Libbson) (ns : Namespace) (ordered : Bool) :
    List (ℕ × Except TranslatorError WriteCommand) → Batch → WireProgram Batch
  | [], b => return b
  | (i, .error e) :: elements, b =>
    if ordered then return b.failed i e else runBatch L ns ordered elements (b.failed i e)
  | (i, .ok c) :: elements, b => do
    match ← runAtomically (onCollection (c.body L ns)) b.stamp with
    | (.ok outcome, stamp) =>
      runBatch L ns ordered elements
        { b with outcomes := b.outcomes ++ [(i, outcome)], stamp := stamp }
    | (.error e, stamp) =>
      let b' := { b.failed i e with stamp := stamp }
      if ordered then return b' else runBatch L ns ordered elements b'

/-- An element of `documents`. -/
def insertElement (oid : BitVec 96) (v : Value) : Except TranslatorError WriteCommand :=
  match v.subdocument with
  | none => .error (typeMismatch "documents[] entries must be objects".toList)
  | some document => .ok (.insert document oid)

/-- An element of `updates`. -/
def updateElement (oid : BitVec 96) (v : Value) : Except TranslatorError WriteCommand :=
  match v.subdocument with
  | none => .error (typeMismatch "updates[] entries must be objects".toList)
  | some spec =>
    match viewField spec "q".toList, viewField spec "u".toList with
    | none, _ => .error (failedToParse "update.q must be an object".toList)
    | _, none => .error (failedToParse "update.u must be an object".toList)
    | some q, some u =>
      .ok (.update q u (flag spec "multi".toList false) (flag spec "upsert".toList false) oid)

/-- An element of `deletes`. -/
def deleteElement (v : Value) : Except TranslatorError WriteCommand :=
  match v.subdocument with
  | none => .error (typeMismatch "deletes[] entries must be objects".toList)
  | some spec =>
    match viewField spec "q".toList with
    | none => .error (failedToParse "delete.q must be an object".toList)
    | some q => .ok (.delete q (decide (numberField spec "limit".toList 0 = 1)))

/-- The elements of an array, with their indices. -/
def elementsOf (f : ℕ → Value → Except TranslatorError WriteCommand) (fields : Doc) :
    List (ℕ × Except TranslatorError WriteCommand) :=
  fields.zipIdx.map fun (field, i) => (i, f i field.2)

/-! ## Commands -/

/-- The errors of a reply are in one field. -/
lemma findField_writeErrorsField {name : Text} (hname : "writeErrors".toList ≠ name)
    (errors : List (ℕ × TranslatorError)) : findField (writeErrorsField errors) name = none := by
  unfold writeErrorsField
  split
  · rfl
  · rw [findField_cons, if_neg hname]
    rfl

/-- `cmd_insert`. -/
def cmdInsert (ctx : Ctx) : WireProgram Doc :=
  match findField ctx.body "documents".toList with
  | some (.array documents) => do
    let ordered := flag ctx.body "ordered".toList true
    let ns ← ofExcept ctx.ns
    createCollection ns false
    let b ← runBatch ctx.L ns ordered (elementsOf (fun i => insertElement (ctx.oids i)) documents)
      .empty
    let time ← operationTimeField b.stamp
    return writeErrorsField b.errors ++
      [("n".toList, int32Field b.outcomes.length), ("ok".toList, .double okDouble)] ++ time
  | _ => .fail (failedToParse "insert requires a 'documents' array".toList)

/-- How many documents an element of `updates` matched. -/
def WriteOutcome.matched : WriteOutcome → ℕ
  | .updated outcome => outcome.matched
  | _ => 0

/-- How many documents an element of `updates` modified. -/
def WriteOutcome.modifiedCount : WriteOutcome → ℕ
  | .updated outcome => outcome.modified
  | _ => 0

/-- The `_id` an element of `updates` inserted. -/
def WriteOutcome.upserted : WriteOutcome → Option Value
  | .updated outcome => outcome.upsertedId
  | _ => none

/-- How many documents an element of `deletes` removed. -/
def WriteOutcome.removedCount : WriteOutcome → ℕ
  | .removed n => n
  | _ => 0

/-- The field `upserted` of a reply. -/
def upsertedField (upserted : List (ℕ × Value)) : Doc :=
  if upserted.isEmpty then []
  else [("upserted".toList, .array (makeArray (upserted.map fun (i, id) =>
    .document [("index".toList, int32Field i), (idName, id)])))]

/-- The documents that were inserted are in one field of a reply. -/
lemma findField_upsertedField {name : Text} (hname : "upserted".toList ≠ name)
    (upserted : List (ℕ × Value)) : findField (upsertedField upserted) name = none := by
  unfold upsertedField
  split
  · rfl
  · rw [findField_cons, if_neg hname]
    rfl

/-- `cmd_update`. -/
def cmdUpdate (ctx : Ctx) : WireProgram Doc :=
  match findField ctx.body "updates".toList with
  | some (.array updates) => do
    let ordered := flag ctx.body "ordered".toList true
    let ns ← ofExcept ctx.ns
    createCollection ns false
    let b ← runBatch ctx.L ns ordered (elementsOf (fun i => updateElement (ctx.oids i)) updates)
      .empty
    let matched := (b.outcomes.map fun (_, outcome) => outcome.matched).sum
    let modified := (b.outcomes.map fun (_, outcome) => outcome.modifiedCount).sum
    let upserted := b.outcomes.filterMap fun (i, outcome) => outcome.upserted.map fun id => (i, id)
    let time ← operationTimeField b.stamp
    return writeErrorsField b.errors ++
      [("n".toList, int32Field (matched + upserted.length)),
        ("nModified".toList, int32Field modified)] ++
      upsertedField upserted ++ [("ok".toList, .double okDouble)] ++ time
  | _ => .fail (failedToParse "update requires an 'updates' array".toList)

/-- `cmd_delete`: a collection that is not there has nothing to delete. -/
def cmdDelete (ctx : Ctx) : WireProgram Doc :=
  match findField ctx.body "deletes".toList with
  | some (.array deletes) => do
    let ordered := flag ctx.body "ordered".toList true
    let ns ← ofExcept ctx.ns
    let there ← onCollection (askExists ns)
    let b ← if there then
        runBatch ctx.L ns ordered (elementsOf (fun _ => deleteElement) deletes) .empty
      else pure .empty
    let removed := (b.outcomes.map fun (_, outcome) => outcome.removedCount).sum
    let time ← operationTimeField b.stamp
    return writeErrorsField b.errors ++
      [("n".toList, int32Field removed), ("ok".toList, .double okDouble)] ++ time
  | _ => .fail (failedToParse "delete requires a 'deletes' array".toList)

/-- The arguments of `cmd_find_and_modify`. -/
def Ctx.findAndModify (ctx : Ctx) : FindAndModify where
  query := ctx.subDocument "query".toList
  sort := ctx.subDocument "sort".toList
  fields := ctx.subDocument "fields".toList
  remove := flag ctx.body "remove".toList false
  returnNew := flag ctx.body "new".toList false
  upsert := flag ctx.body "upsert".toList false
  update := viewField ctx.body "update".toList
  oid := ctx.oids 0

/-- The field `lastErrorObject` of a reply. -/
def FindAndModifyOutcome.lastError (outcome : FindAndModifyOutcome) : Value :=
  .document ([("n".toList, int32Field (if outcome.upsertedId.isSome then 1 else outcome.n)),
    ("updatedExisting".toList, .bool outcome.updatedExisting)] ++
    match outcome.upsertedId with
    | some id => [("upserted".toList, id)]
    | none => [])

/-- `cmd_find_and_modify`. -/
def cmdFindAndModify (ctx : Ctx) : WireProgram Doc := do
  let c := ctx.findAndModify
  if !c.remove && c.update.isNone then
    .fail (failedToParse "findAndModify requires either 'remove' or an 'update' object".toList)
  let ns ← ofExcept ctx.ns
  if !c.remove then createCollection ns false
  -- Removing from a collection that is not there still needs a clock for its reply.
  if c.remove then
    let _ ← currentOperationTimeOrInitialize
  let (result, stamp) ← runAtomically (onCollection (findAndModify ctx.L ns c)) none
  let outcome ← ofExcept result
  let shaped ← ofExcept (c.shaped outcome)
  let value : Value := match shaped with
    | some document => .document document
    | none => .null
  let time ← operationTimeField stamp
  return [("lastErrorObject".toList, outcome.lastError), ("value".toList, value),
    ("ok".toList, .double okDouble)] ++ time

/-- The write commands. -/
inductive WriteKind where
  | insert
  | update
  | delete
  | findAndModify

/-- The handler of a write command. -/
def WriteKind.program : WriteKind → Ctx → WireProgram Doc
  | .insert => cmdInsert
  | .update => cmdUpdate
  | .delete => cmdDelete
  | .findAndModify => cmdFindAndModify

/-- `error_reply`. -/
def errorReply (e : TranslatorError) : Doc :=
  [("ok".toList, .double ⟨0#64⟩), ("errmsg".toList, .utf8 (cString e.message)),
    ("code".toList, int32Field e.code), ("codeName".toList, .utf8 e.codeName)]

end Chimera
