import Chimera.Oplog.Stamp

/-!
# Oplog entries and change events

The two shapes in which an oplog row reaches a client.  Both are SQL expressions that assemble
the text of a JSON document; here they assemble its tree.
-/

namespace Chimera

/-- A string literal as a JSON string. -/
def Json.lit (s : String) : Json := .str s.toList

/-- An object, its keys as string literals. -/
def Json.object (fields : List (String × Json)) : Json :=
  .obj (fields.map fun (k, v) => (k.toList, v))

/-- `LPAD(LOWER(HEX(n)), 16, '0')`. -/
def paddedHex (n : ℕ) : Text :=
  let digits := Nat.toDigits 16 n
  (List.replicate (16 - digits.length) '0' ++ digits).take 16

/-- `JSON_EXTRACT(doc, '$._id')`. -/
def Json.extractId : Json → Option Json
  | .obj fields => (fields.find? fun f => decide (f.1 = "_id".toList)).map Prod.snd
  | _ => none

/-- The name of an operation in the oplog. -/
def OplogOp.name : OplogOp → String
  | .i => "i"
  | .u => "u"
  | .d => "d"

/-- `kEntryExpr`: a row as an oplog entry. -/
def entryExpr (r : OplogRow) : Json :=
  Json.object ([
    ("ts", Json.object [("$timestamp", Json.object [("t", .int r.ts.t), ("i", .int r.ts.i)])]),
    ("op", Json.lit r.op.name),
    ("ns", .str r.ns),
    ("o", r.o)] ++
    (match r.o2 with
      | none => []
      | some o2 => [("o2", o2)]) ++ [
    ("v", Json.object [("$numberInt", Json.lit "2")]),
    ("wall", Json.object [("$date",
      Json.object [("$numberLong", .str (decimal (r.ts.t * 1000)))])])])

/-- The `operationType` of a change event. -/
def OplogOp.operationType : OplogOp → String
  | .i => "insert"
  | .u => "replace"
  | .d => "delete"

/-- `SUBSTRING_INDEX(ns, '.', 1)`. -/
def databaseOf (ns : Text) : Text := ns.takeWhile fun c => c ≠ '.'

/-- `SUBSTRING(ns, LOCATE('.', ns) + 1)`. -/
def collectionOf (ns : Text) : Text :=
  if ns.contains '.' then (ns.dropWhile fun c => c ≠ '.').drop 1 else ns

/-- `kEventExpr`: a row as a change event. -/
def eventExpr (r : OplogRow) : Json :=
  Json.object ([
    ("_id", Json.object [("_data", .str (paddedHex r.seq))]),
    ("operationType", Json.lit r.op.operationType),
    ("clusterTime",
      Json.object [("$timestamp", Json.object [("t", .int r.ts.t), ("i", .int r.ts.i)])]),
    ("wallTime", Json.object [("$date",
      Json.object [("$numberLong", .str (decimal (r.ts.t * 1000)))])])] ++
    (match r.op with
      | .d => []
      | _ => [("fullDocument", r.o)]) ++ [
    ("ns", Json.object [("db", .str (databaseOf r.ns)), ("coll", .str (collectionOf r.ns))]),
    ("documentKey", r.o2.getD (Json.object [("_id", r.o.extractId.getD .null)]))])

end Chimera
