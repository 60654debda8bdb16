import Chimera.Plugin.Batches
import Chimera.Plugin.Indexes
import Mathlib.Data.List.Lex
import Mathlib.Logic.Function.Basic

/-!
# The server of the catalog

What the server holds of tables, of the indexes on them and of `chimera_meta.indexes`, and what
the statements of the commands make of it.  The catalog compares names by a collation, and so do
identifiers, though not by the same; a table's name is compared as it is.
-/

namespace Chimera

open Interaction

/-! ## The state -/

/-- The tables, and the rows of `chimera_meta.indexes`. -/
structure Schema where
  /-- The tables, each with the indexes that `createIndexes` put on it, in their order. -/
  tables : Namespace → Option (List IndexSpec)
  /-- The rows of `chimera_meta.indexes`. -/
  catalog : List IndexRow

/-- The database of the catalog. -/
def metaDatabase : Text := "chimera_meta".toList

/-- The tables of `chimera_meta`, as tables. -/
def MetaTable.ns : MetaTable → Namespace
  | .collections => ⟨metaDatabase, "collections".toList⟩
  | .indexes => ⟨metaDatabase, "indexes".toList⟩
  | .projections => ⟨metaDatabase, "projections".toList⟩
  | .oplogClock => ⟨metaDatabase, "oplog_clock".toList⟩
  | .oplog => ⟨metaDatabase, "oplog".toList⟩
  | .oplogHistory => ⟨metaDatabase, "oplog_history".toList⟩

namespace Schema

variable (s : Schema) (ns : Namespace)

/-- The table is there. -/
def present : Bool := (s.tables ns).isSome

/-- The table has these indexes. -/
def setTable (indexes : List IndexSpec) : Schema :=
  { s with tables := Function.update s.tables ns (some indexes) }

/-- `CREATE TABLE IF NOT EXISTS`. -/
def ensure : Schema := if s.present ns then s else s.setTable ns []

/-- Drop some of the tables. -/
def without (dropped : Namespace → Bool) : Schema where
  tables ns := if dropped ns then none else s.tables ns
  catalog := if dropped MetaTable.indexes.ns then [] else s.catalog

/-- Delete rows of the catalog. -/
def forget (dropped : IndexRow → Bool) : Schema :=
  { s with catalog := s.catalog.filter fun row => !dropped row }

end Schema

/-! ## The server -/

/-- MariaDB, as tables and catalog are concerned. -/
structure SchemaServer where
  /-- By what the catalog compares names. -/
  fold : Text → Text
  /-- By what the server compares the names of indexes. -/
  ident : Text → Text
  /-- An index that cannot be added, for reasons of the server's own: the documents break its
  uniqueness, or it is too long, or too many. -/
  refusesAdd : Namespace → List IndexSpec → IndexSpec → Bool
  /-- An index that cannot be dropped: the columns are not there. -/
  refusesDrop : Namespace → List IndexSpec → Text → ℕ → Bool
  /-- The text of the error that a statement fails with. -/
  detail : Text

namespace SchemaServer

variable (S : SchemaServer) (ns : Namespace)

/-- The row is about a collection of the database, as the catalog compares names. -/
def within (db : Text) (row : IndexRow) : Bool := decide (S.fold row.ns.db = S.fold db)

/-- The row is about the collection. -/
def about (row : IndexRow) : Bool :=
  S.within ns.db row && decide (S.fold row.ns.collection = S.fold ns.collection)

/-- The row is about the index. -/
def isEntry (name : Text) (row : IndexRow) : Bool :=
  S.about ns row && decide (S.fold row.name = S.fold name)

/-- The rows about a collection, in the order of their names. -/
def listing (catalog : List IndexRow) : List (Text × Json × Bool) :=
  ((catalog.filter (S.about ns)).mergeSort
    fun a b => !decide (S.fold b.name < S.fold a.name)).map fun row =>
      (row.name, row.keySpec, row.unique)

/-- `REPLACE INTO chimera_meta.indexes`. -/
def put (row : IndexRow) (catalog : List IndexRow) : List IndexRow :=
  (catalog.filter fun other => !S.isEntry row.ns row.name other) ++ [row]

/-- The index cannot be added to the table. -/
def blocks (indexes : List IndexSpec) (spec : IndexSpec) : Bool :=
  S.refusesAdd ns indexes spec ||
    indexes.any fun other => decide (S.ident other.name = S.ident spec.name)

/-- A statement on a table of the catalog. -/
def onMeta {α : Type} (table : MetaTable) (s : Schema) (result : α × Schema) :
    Except TranslatorError (α × Schema) :=
  if s.present table.ns then .ok result else .error (namespaceNotFound S.detail)

/-- What a statement does. -/
def perform : (q : SchemaSql) → Schema → Except TranslatorError (q.Result × Schema)
  | .dropTable ns, s =>
    if s.present ns then .ok ((), s.without fun other => decide (other = ns))
    else .error (namespaceNotFound S.detail)
  | .dropDatabase db, s => .ok ((), s.without fun other => decide (other.db = db))
  | .forgetCollection _, s | .forgetCollections _, s => S.onMeta .collections s ((), s)
  | .forgetIndex ns name, s => S.onMeta .indexes s ((), s.forget (S.isEntry ns name))
  | .forgetIndexes ns, s => S.onMeta .indexes s ((), s.forget (S.about ns))
  | .forgetAllIndexes db, s => S.onMeta .indexes s ((), s.forget (S.within db))
  | .indexListed ns name, s => S.onMeta .indexes s (s.catalog.any (S.isEntry ns name), s)
  | .indexKeys ns name, s => S.onMeta .indexes s
      ((s.catalog.find? (S.isEntry ns name)).map IndexRow.keySpec, s)
  | .addIndex ns spec, s =>
    match s.tables ns with
    | none => .error (namespaceNotFound S.detail)
    | some indexes =>
      if S.blocks ns indexes spec then .error (internalError S.detail)
      else .ok ((), s.setTable ns (indexes ++ [spec]))
  | .dropIndex ns name keyCount, s =>
    match s.tables ns with
    | none => .error (namespaceNotFound S.detail)
    | some indexes =>
      if S.refusesDrop ns indexes name keyCount ||
          !(indexes.any fun other => decide (S.ident other.name = S.ident name)) then
        .error (internalError S.detail)
      else .ok ((), s.setTable ns (indexes.filter fun other =>
        !decide (S.ident other.name = S.ident name)))
  | .registerIndex row, s => S.onMeta .indexes s ((), { s with catalog := S.put row s.catalog })

/-- What the server does about the questions of other commands.  Collections are created on the
connection's session, and the tables of the catalog on any; the rest changes neither. -/
def wire : WireServer Schema
  | .sql _ (.define (.createMetaTable table)), s => (.ok (), s.ensure table.ns)
  | .sql .connection (.define (.createTable ns)), s => (.ok (), s.ensure ns)
  | .sql _ (.table (.tableExists ns)), s => (.ok (s.present ns), s)
  | .sql _ (.indexes ns), s =>
    (if s.present MetaTable.indexes.ns then .ok (S.listing ns s.catalog)
      else .error (namespaceNotFound S.detail), s)
  | q, s => (q.agree, s)

/-- The server. -/
def server : (q : SchemaQuestion) → Schema → q.Answer × Schema
  | .wire q, s => S.wire q s
  | .sql q, s =>
    match S.perform q s with
    | .ok (result, s') => (.ok result, s')
    | .error e => (.error e, s)

end SchemaServer

/-- How a statement fails. -/
def SchemaQuestion.fail : (q : SchemaQuestion) → TranslatorError → Option q.Answer
  | .wire (.sql _ _), e => some (.error e)
  | .wire .connect, e => some (.error e)
  | .wire _, _ => none
  | .sql _, e => some (.error e)

/-- The statement completes what an `ALTER TABLE` has begun. -/
def SchemaQuestion.Completes : SchemaQuestion → Prop
  | .sql (.registerIndex _) => True
  | .sql (.forgetIndex _ _) => True
  | _ => False

/-- Whether a statement completes an index change is decided by its kind. -/
instance : DecidablePred SchemaQuestion.Completes
  | .wire _ => .isFalse id
  | .sql (.registerIndex _) | .sql (.forgetIndex _ _) => .isTrue trivial
  | .sql (.dropTable _) | .sql (.dropDatabase _) | .sql (.forgetCollection _)
  | .sql (.forgetCollections _) | .sql (.forgetIndexes _) | .sql (.forgetAllIndexes _)
  | .sql (.indexListed _ _) | .sql (.indexKeys _ _) | .sql (.addIndex _ _)
  | .sql (.dropIndex _ _ _) => .isFalse id

end Chimera
