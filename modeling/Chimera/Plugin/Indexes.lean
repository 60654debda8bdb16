import Chimera.Foundations.Faults
import Chimera.Plugin.ReadCommands

/-!
# Collections, indexes and their catalog

A collection is a table, and an index on it is an index on generated columns of that table.  What
clients see of the indexes comes from elsewhere: `chimera_meta.indexes` has a row for each of them.
The commands that create and drop change the table by one statement and the catalog by another.
-/

namespace Chimera

open Interaction

deriving instance DecidableEq for IndexSpec

/-! ## Statements -/

/-- A row of `chimera_meta.indexes`. -/
structure IndexRow where
  /-- The collection. -/
  ns : Namespace
  /-- The name of the index. -/
  name : Text
  /-- The keys, in Extended JSON. -/
  keySpec : Json
  /-- `is_unique`. -/
  unique : Bool
deriving DecidableEq

/-- The statements that only the commands on collections and indexes send. -/
inductive SchemaSql where
  /-- `DROP TABLE`. -/
  | dropTable (ns : Namespace)
  /-- `DROP DATABASE IF EXISTS`. -/
  | dropDatabase (db : Text)
  /-- `DELETE FROM chimera_meta.collections`, one collection. -/
  | forgetCollection (ns : Namespace)
  /-- `DELETE FROM chimera_meta.collections`, a database. -/
  | forgetCollections (db : Text)
  /-- `DELETE FROM chimera_meta.indexes`, one index. -/
  | forgetIndex (ns : Namespace) (name : Text)
  /-- `DELETE FROM chimera_meta.indexes`, one collection. -/
  | forgetIndexes (ns : Namespace)
  /-- `DELETE FROM chimera_meta.indexes`, a database. -/
  | forgetAllIndexes (db : Text)
  /-- `SELECT 1 FROM chimera_meta.indexes`. -/
  | indexListed (ns : Namespace) (name : Text)
  /-- `SELECT key_spec FROM chimera_meta.indexes`. -/
  | indexKeys (ns : Namespace) (name : Text)
  /-- `ALTER TABLE … ADD COLUMN …, ADD INDEX`. -/
  | addIndex (ns : Namespace) (spec : IndexSpec)
  /-- `ALTER TABLE … DROP INDEX …, DROP COLUMN …`, with so many columns. -/
  | dropIndex (ns : Namespace) (name : Text) (keyCount : ℕ)
  /-- `REPLACE INTO chimera_meta.indexes`. -/
  | registerIndex (row : IndexRow)

/-- What the plugin reads back from a statement. -/
def SchemaSql.Result : SchemaSql → Type
  | .indexListed _ _ => Bool
  | .indexKeys _ _ => Option Json
  | _ => Unit

/-- What a command on collections and indexes asks. -/
inductive SchemaQuestion where
  /-- What other commands ask too. -/
  | wire (q : Question)
  /-- A statement. -/
  | sql (q : SchemaSql)

/-- The answers. -/
def SchemaQuestion.Answer : SchemaQuestion → Type
  | .wire q => q.Answer
  | .sql q => Except TranslatorError q.Result

/-- A part of a command on collections and indexes. -/
abbrev SchemaProgram := Interaction TranslatorError SchemaQuestion SchemaQuestion.Answer

/-- A statement, whose failure is an error. -/
def schemaSql (q : SchemaSql) : SchemaProgram q.Result :=
  .ask (.sql q) fun
    | .ok result => .done result
    | .error e => .fail e

/-- What other commands do too. -/
def onWire {α : Type} (x : WireProgram α) : SchemaProgram α :=
  x.substitute fun q => question (SchemaQuestion.wire q)

/-! ## Operations -/

/-- An index that is not there. -/
def indexNotFound (message : Text) : TranslatorError := ⟨27, "IndexNotFound".toList, message⟩

/-- `Collection::drop`. -/
def dropCollection (ns : Namespace) : SchemaProgram Unit := do
  if ← onWire (onCollection (askExists ns)) then
    schemaSql (.dropTable ns)
    schemaSql (.forgetCollection ns)
    schemaSql (.forgetIndexes ns)
  else return ()

/-- `drop_database`. -/
def dropDatabase (db : Text) : SchemaProgram Unit := do
  ofExcept (validateIdentifier db "database name".toList)
  schemaSql (.dropDatabase db)
  schemaSql (.forgetCollections db)
  schemaSql (.forgetAllIndexes db)

/-- `key_spec`: the keys as a document, each with its direction. -/
def IndexSpec.keyDocument (spec : IndexSpec) : Doc :=
  spec.keys.map fun (name, direction) => (cString name, .int32 (Int32.ofInt direction))

/-- What `create_index` refuses before it looks for the index. -/
def IndexSpec.check (spec : IndexSpec) : Except TranslatorError Unit := do
  validateIdentifier spec.name "index name".toList
  if spec.keys.isEmpty then .error (failedToParse "an index needs at least one key".toList)
  else return ()

/-- The paths of the keys, one for each generated column. -/
def IndexSpec.paths (spec : IndexSpec) : Except TranslatorError (List Path) :=
  spec.keys.mapM fun key => splitPath key.1

/-- `Collection::create_index`. -/
def createIndex (L : Libbson) (ns : Namespace) (spec : IndexSpec) : SchemaProgram Unit := do
  onWire (onCollection (requireExists ns))
  onWire bootstrap
  ofExcept spec.check
  match ← schemaSql (.indexListed ns spec.name) with
  | true => return ()
  | false =>
    let _ ← ofExcept spec.paths
    schemaSql (.addIndex ns spec)
    let json ← ofExcept (L.toExtjson spec.keyDocument)
    schemaSql (.registerIndex ⟨ns, spec.name, json, spec.unique⟩)

/-- `Collection::drop_index`. -/
def dropIndex (L : Libbson) (ns : Namespace) (name : Text) : SchemaProgram Bool := do
  onWire (onCollection (requireExists ns))
  match ← schemaSql (.indexKeys ns name) with
  | none => return false
  | some json =>
    let keys ← ofExcept (L.fromExtjson json)
    schemaSql (.dropIndex ns name keys.length)
    schemaSql (.forgetIndex ns name)
    return true

/-! ## Requests -/

/-- A key of an index, as a client writes it. -/
def indexKey (member : Text × Value) : Except TranslatorError (Text × ℤ) :=
  if !valueIsNumeric member.2 then
    .error (notImplemented "only ascending and descending index keys are supported".toList)
  else .ok (member.1, if member.2.toDouble.numLt (Binary64.ofInt 0) then -1 else 1)

/-- An entry of `indexes`. -/
def parseIndex (v : Value) : Except TranslatorError IndexSpec :=
  match v.subdocument with
  | none => .error (typeMismatch "indexes[] entries must be objects".toList)
  | some entry =>
    match viewField entry "key".toList with
    | none => .error (failedToParse "an index needs a 'key'".toList)
    | some keyView => do
      let keys ← keyView.mapM indexKey
      let name := textField entry "name".toList
      if name.isEmpty then .error (failedToParse "an index needs a 'name'".toList)
      else return ⟨name, keys, flag entry "unique".toList false⟩

/-- The loop of `cmd_create_indexes`. -/
def createIndexes (L : Libbson) (ns : Namespace) : List Value → SchemaProgram Unit
  | [] => return ()
  | v :: rest => do
    let spec ← ofExcept (parseIndex v)
    createIndex L ns spec
    createIndexes L ns rest

/-- The loop of `cmd_drop_indexes` over all indexes. -/
def dropAllIndexes (L : Libbson) (ns : Namespace) : List IndexSpec → SchemaProgram Unit
  | [] => return ()
  | spec :: rest => do
    if spec.name ≠ "_id_".toList then
      let _ ← dropIndex L ns spec.name
    dropAllIndexes L ns rest

/-! ## Commands -/

namespace Catalog

/-- `cmd_create`. -/
def cmdCreate (ctx : Ctx) : SchemaProgram Doc := do
  let ns ← ofExcept ctx.ns
  onWire (createCollection ns false)
  return [("ok".toList, .double okDouble)]

/-- `cmd_drop`. -/
def cmdDrop (ctx : Ctx) : SchemaProgram Doc := do
  let ns ← ofExcept ctx.ns
  let indexes ← if ← onWire (onCollection (askExists ns)) then onWire (listIndexes ctx.L ns)
    else pure []
  dropCollection ns
  return [("nIndexesWas".toList, int32Field indexes.length), ("ns".toList, .utf8 (cString ns.text)),
    ("ok".toList, .double okDouble)]

/-- `cmd_drop_database`. -/
def cmdDropDatabase (ctx : Ctx) : SchemaProgram Doc := do
  onWire bootstrap
  dropDatabase ctx.db
  return [("dropped".toList, .utf8 (cString ctx.db)), ("ok".toList, .double okDouble)]

/-- `cmd_create_indexes`. -/
def cmdCreateIndexes (ctx : Ctx) : SchemaProgram Doc :=
  match findField ctx.body "indexes".toList with
  | some (.array entries) => do
    let ns ← ofExcept ctx.ns
    let there ← onWire (onCollection (askExists ns))
    onWire (createCollection ns false)
    let before ← onWire (listIndexes ctx.L ns)
    createIndexes ctx.L ns (entries.map Prod.snd)
    let after ← onWire (listIndexes ctx.L ns)
    return [("createdCollectionAutomatically".toList, .bool !there),
      ("numIndexesBefore".toList, int32Field before.length),
      ("numIndexesAfter".toList, int32Field after.length), ("ok".toList, .double okDouble)]
  | _ => .fail (failedToParse "createIndexes requires an 'indexes' array".toList)

/-- `cmd_drop_indexes`. -/
def cmdDropIndexes (ctx : Ctx) : SchemaProgram Doc := do
  let ns ← ofExcept ctx.ns
  let before ← onWire (listIndexes ctx.L ns)
  let named := textField ctx.body "index".toList
  if named = "*".toList then dropAllIndexes ctx.L ns before
  else if !named.isEmpty then
    if !(← dropIndex ctx.L ns named) then
      .fail (indexNotFound ("index not found with name [".toList ++ named ++ "]".toList))
  else
    .fail (notImplemented
      "dropIndexes by key document is not supported; name the index".toList)
  return [("nIndexesWas".toList, int32Field before.length), ("ok".toList, .double okDouble)]

end Catalog

end Chimera
