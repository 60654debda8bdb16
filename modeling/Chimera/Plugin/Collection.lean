import Chimera.Plugin.Sql
import Chimera.Translator.Id
import Chimera.Translator.Project
import Chimera.Translator.Sort

/-!
# Operations on a collection

The operations of `Collection` and the write commands built from them, as programs of statements.
Documents are read into memory and written back: the update operators run between the `SELECT`
that loads a document and the `UPDATE` that replaces it.
-/

namespace Chimera

open Interaction

/-! ## Statements -/

/-- `Collection::exists`. -/
def askExists (ns : Namespace) : SqlProgram Bool := question (Request.tableExists ns)

/-- A `SELECT`. -/
def askSelect (ns : Namespace) (cond : Cond) (limit : Option ℕ) : SqlProgram (List Row) :=
  question (Request.select ns cond limit)

/-- An `INSERT`. -/
def askInsert (row : Row) : SqlProgram Unit := question (Request.insert row)

/-- An `UPDATE` of one document. -/
def askReplace (row : Row) : SqlProgram Unit := question (Request.replace row)

/-- A `DELETE` of one key, and how many rows it affected. -/
def askDelete (ns : Namespace) (key : Text) : SqlProgram ℕ := question (Request.delete ns key)

/-- A `DELETE` of all rows that meet a condition, and how many they were. -/
def askDeleteWhere (ns : Namespace) (cond : Cond) : SqlProgram ℕ :=
  question (Request.deleteWhere ns cond)

/-! ## Operations -/

/-- The name of the field of the primary key. -/
def idName : Text := "_id".toList

/-- `Collection::require_exists`. -/
def requireExists (ns : Namespace) : SqlProgram Unit := do
  if ← askExists ns then return ()
  else .fail (namespaceNotFound ("ns not found: ".toList ++ ns.text))

/-- The `_id` of a document to insert, and the document with it: the client's own, or a new
ObjectId in front. -/
def withId (oid : BitVec 96) (document : Doc) : Value × Doc :=
  match findField document idName with
  | some id => (id, document)
  | none => (.oid oid, (idName, .oid oid) :: document)

/-- `Collection::insert`. -/
def insertDocument (L : Libbson) (ns : Namespace) (oid : BitVec 96) (document : Doc) :
    SqlProgram Value := do
  let stored := withId oid document
  let key ← ofExcept (encodeId stored.1)
  let json ← ofExcept (L.toExtjson stored.2)
  askInsert ⟨ns, key, json⟩
  return stored.1

/-- `Collection::load`. -/
def load (L : Libbson) (ns : Namespace) (filter : Doc) : SqlProgram (List Doc) := do
  requireExists ns
  let cond ← ofExcept (compileDocument L filter)
  let rows ← askSelect ns cond none
  ofExcept (rows.mapM fun row => L.fromExtjson row.doc)

/-- `UpdateOutcome`. -/
structure UpdateOutcome where
  /-- How many documents matched. -/
  matched : ℕ
  /-- How many of them were written. -/
  modified : ℕ
  /-- The `_id` of the upserted document, when there is one. -/
  upsertedId : Option Value

/-- The documents of `Collection::update`, one after the other. -/
def updateMatches (L : Libbson) (ns : Namespace) (u : Doc) :
    List Doc → UpdateOutcome → SqlProgram UpdateOutcome
  | [], outcome => return outcome
  | document :: documents, outcome =>
    match findField document idName with
    | none => .fail (internalError ("stored document has no _id: ".toList ++ ns.text))
    | some id => do
      let result ← ofExcept (applyUpdate document u)
      let after ← ofExcept (L.toExtjson result)
      let before ← ofExcept (L.toExtjson document)
      if after = before then
        updateMatches L ns u documents { outcome with matched := outcome.matched + 1 }
      else
        let key ← ofExcept (encodeId id)
        askReplace ⟨ns, key, after⟩
        updateMatches L ns u documents
          { outcome with matched := outcome.matched + 1, modified := outcome.modified + 1 }

/-- The equality fields of a filter, from which an upsert starts. -/
def upsertSeed (filter : Doc) : Doc :=
  filter.filter fun field => !isOperatorName field.1 && !field.2.isDocument

/-- `Collection::update`. -/
def updateDocuments (L : Libbson) (ns : Namespace) (filter u : Doc) (multi upsert : Bool)
    (oid : BitVec 96) : SqlProgram UpdateOutcome := do
  requireExists ns
  let documents ← load L ns filter
  let outcome ← updateMatches L ns u (if multi then documents else documents.take 1) ⟨0, 0, none⟩
  if outcome.matched = 0 && upsert then
    let result ← ofExcept (applyUpdate (upsertSeed filter) u)
    let id ← insertDocument L ns oid result
    return { outcome with upsertedId := some id }
  else return outcome

/-- `Collection::remove`. -/
def removeDocuments (L : Libbson) (ns : Namespace) (filter : Doc) (justOne : Bool) :
    SqlProgram ℕ := do
  requireExists ns
  let cond ← ofExcept (compileDocument L filter)
  if !justOne then askDeleteWhere ns cond
  else
    match ← askSelect ns cond (some 1) with
    | [] => return 0
    | row :: _ => askDelete ns row.key

/-! ## Commands -/

/-- The arguments of `findAndModify`. -/
structure FindAndModify where
  /-- Which document. -/
  query : Doc
  /-- The order in which the first match is taken. -/
  sort : Doc
  /-- The fields to report. -/
  fields : Doc
  /-- Remove the document. -/
  remove : Bool
  /-- Report the document as it is afterwards. -/
  returnNew : Bool
  /-- Insert a document when none matches. -/
  upsert : Bool
  /-- The update, when there is one. -/
  update : Option Doc
  /-- The ObjectId for an upsert without an `_id`. -/
  oid : BitVec 96

/-- What `findAndModify` found and did. -/
structure FindAndModifyOutcome where
  /-- The document to report. -/
  value : Option Doc
  /-- How many documents matched. -/
  n : ℕ
  /-- Whether an existing document was updated. -/
  updatedExisting : Bool
  /-- The `_id` of the upserted document, when there is one. -/
  upsertedId : Option Value

/-- The first document that has the given `_id`. -/
def loadById (L : Libbson) (ns : Namespace) (id : Value) : SqlProgram (Option Doc) := do
  let documents ← load L ns [(idName, id)]
  return documents.head?

/-- The document that `findAndModify` works on: the first match in the order asked for. -/
def findFirst (L : Libbson) (ns : Namespace) (query sort : Doc) : SqlProgram (List Doc) := do
  if ← askExists ns then
    let documents ← load L ns query
    if sort.isEmpty then return documents.take 1
    else
      let sorted ← ofExcept (sortDocuments documents sort)
      return sorted.take 1
  else return []

/-- The transaction of `cmd_find_and_modify`. -/
def findAndModify (L : Libbson) (ns : Namespace) (c : FindAndModify) :
    SqlProgram FindAndModifyOutcome := do
  let update := c.update.getD []
  match ← findFirst L ns c.query c.sort with
  | document :: _ =>
    match findField document idName with
    | none => .fail (internalError "stored document has no _id".toList)
    | some id =>
      if c.remove then
        let _ ← removeDocuments L ns [(idName, id)] true
        return ⟨some document, 1, false, none⟩
      else
        let _ ← updateDocuments L ns [(idName, id)] update false false c.oid
        let value ← if c.returnNew then loadById L ns id else pure (some document)
        return ⟨value, 1, true, none⟩
  | [] =>
    if !c.remove && c.upsert then
      let outcome ← updateDocuments L ns c.query update false true c.oid
      match c.returnNew, outcome.upsertedId with
      | true, some id =>
        let value ← loadById L ns id
        return ⟨value, 0, false, some id⟩
      | _, upsertedId => return ⟨none, 0, false, upsertedId⟩
    else return ⟨none, 0, false, none⟩

/-- A wire command that writes, as far as one transaction goes: one element of a batch, or one
`findAndModify`. -/
inductive WriteCommand where
  | insert (document : Doc) (oid : BitVec 96)
  | update (q u : Doc) (multi upsert : Bool) (oid : BitVec 96)
  | delete (q : Doc) (justOne : Bool)
  | findAndModify (c : FindAndModify)

/-- What a write command did. -/
inductive WriteOutcome where
  | inserted (id : Value)
  | updated (outcome : UpdateOutcome)
  | removed (n : ℕ)
  | modified (outcome : FindAndModifyOutcome)

/-- The transaction of a write command. -/
def WriteCommand.body (L : Libbson) (ns : Namespace) : WriteCommand → SqlProgram WriteOutcome
  | .insert document oid => return .inserted (← insertDocument L ns oid document)
  | .update q u multi upsert oid =>
    return .updated (← updateDocuments L ns q u multi upsert oid)
  | .delete q justOne => return .removed (← removeDocuments L ns q justOne)
  | .findAndModify c =>
    if !c.remove && c.update.isNone then
      .fail (failedToParse
        "findAndModify requires either 'remove' or an 'update' object".toList)
    else return .modified (← Chimera.findAndModify L ns c)

/-- The document that a `findAndModify` reports, shaped after its transaction is committed. -/
def FindAndModify.shaped (c : FindAndModify) (outcome : FindAndModifyOutcome) :
    Except TranslatorError (Option Doc) :=
  match outcome.value with
  | none => .ok none
  | some value => if c.fields.isEmpty then .ok (some value) else (project value c.fields).map some

/-- Whether the command reports success once its transaction is committed. -/
def WriteCommand.reports : WriteCommand → WriteOutcome → Bool
  | .findAndModify c, .modified outcome => (c.shaped outcome).toBool
  | _, _ => true

end Chimera
