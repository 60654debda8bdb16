import Chimera.Translator.Codec
import Chimera.Translator.Update

/-!
# The filter compiler

`compile_filter` turns a query document into an SQL condition over the stored document, with the
user's values bound as parameters.  The condition is built here as a tree.  What the source
concatenates is the text of that tree, read back by `Cond.sql`.
-/

namespace Chimera

/-- `Param`: a value bound to a placeholder. -/
inductive Param where
  | null
  | bool (b : Bool)
  | int (n : Int64)
  | double (d : Binary64)
  | text (s : Text)
  /-- The text of a JSON tree. -/
  | json (j : Json)
deriving DecidableEq

/-- What a comparison reads out of the stored document. -/
inductive Operand where
  /-- `scalar_expr`. -/
  | scalar (path : Path)
  /-- The scalar, cast to `DOUBLE`. -/
  | double (path : Path)
  /-- A timestamp as one integer. -/
  | ordinal (path : Path)
deriving DecidableEq

/-- The comparison operators of SQL that the compiler emits. -/
inductive CompareOp where
  | eq
  | gt
  | ge
  | lt
  | le
deriving DecidableEq

/-- What joins the parts of a condition. -/
inductive Joiner where
  | and
  | or
deriving DecidableEq

/-- An SQL condition over the stored document. -/
inductive Cond where
  | one
  | zero
  | compare (operand : Operand) (op : CompareOp) (param : Param)
  | isNull (path : Path)
  | regexp (path : Path) (pattern : Text)
  | contains (path : Path) (candidate : Json)
  | jsonExists (path : Path) (negated : Bool)
  | inList (path : Path) (negated : Bool) (members : List Param)
  | junction (joiner : Joiner) (parts : List Cond)
  | not (cond : Cond)
deriving Inhabited

/-- `conjoin`: a single part stands alone. -/
def conjoin (joiner : Joiner) : List Cond → Cond
  | [part] => part
  | parts => .junction joiner parts

/-! ## Binding values -/

/-- `timestamp_ordinal`. -/
def timestampOrdinal (t i : UInt32) : Int64 := Int64.ofNat (t.toNat * 2 ^ 32 + i.toNat)

/-- One lower-case hexadecimal digit. -/
def hexDigit (n : ℕ) : Char := ("0123456789abcdef".toList)[n]?.getD '0'

/-- `bson_oid_to_string`. -/
def oidString (bytes : BitVec 96) : Text :=
  (List.range 24).map fun i => hexDigit (bytes.toNat / 16 ^ (23 - i) % 16)

/-- `bind`. -/
def bindValue : Value → Except TranslatorError Param
  | .null => .ok .null
  | .bool b => .ok (.bool b)
  | .int32 n => .ok (.int n.toInt64)
  | .int64 n => .ok (.int n)
  | .double d => .ok (.double d)
  | .dateTime ms => .ok (.int ms)
  | .timestamp t i => .ok (.int (timestampOrdinal t i))
  | .oid bytes => .ok (.text (oidString bytes))
  | .utf8 s => .ok (.text s)
  | _ => .error (notImplemented
    "filter comparison against this BSON type is not supported".toList)

/-- `comparable`: what to compare with a value. -/
def comparable (path : Path) : Value → Operand
  | .timestamp _ _ => .ordinal path
  | .dateTime _ | .int32 _ | .int64 _ | .double _ => .double path
  | _ => .scalar path

/-- `canonical_literal`: the value inside a wrapper of one member. -/
def canonicalLiteral (L : Libbson) (v : Value) : Except TranslatorError Json := do
  match ← L.toExtjson [("v".toList, v)] with
  | .obj [(_, literal)] => return literal
  | json => return json

/-! ## Leaves -/

/-- `compile_eq`. -/
def compileEq (L : Libbson) (path : Path) (v : Value) : Except TranslatorError Cond :=
  match v with
  | .null => .ok (.isNull path)
  | .regex pattern _ => .ok (.regexp path pattern)
  | .document _ | .array _ =>
    .error (notImplemented "equality against a document or array is not supported".toList)
  | v => do
    let param ← bindValue v
    let literal ← canonicalLiteral L v
    return .junction .or [.compare (comparable path v) .eq param, .contains path literal]

/-- A comparison with a bound value. -/
def compileCompare (path : Path) (op : CompareOp) (v : Value) : Except TranslatorError Cond := do
  let param ← bindValue v
  return .compare (comparable path v) op param

/-- `compile_in`: an empty list needs no test. -/
def compileIn (path : Path) (v : Value) (negated : Bool) : Except TranslatorError Cond := do
  let members ← arrayValues v
  if members.isEmpty then return if negated then .one else .zero
  let params ← members.mapM bindValue
  return .inList path negated params

/-- `$exists`: anything but `false` asks for presence. -/
def wantsPresence : Value → Bool
  | .bool b => b
  | _ => true

/-- `$regex`. -/
def compileRegex (path : Path) : Value → Except TranslatorError Cond
  | .utf8 pattern | .regex pattern _ => .ok (.regexp path pattern)
  | _ => .error (failedToParse "$regex expects a string or regex".toList)

/-- `$elemMatch`: whole-element containment. -/
def compileElemMatch (L : Libbson) (path : Path) : Value → Except TranslatorError Cond
  | .document fields =>
    if fields.any fun field => isOperatorName field.1 then
      .error (notImplemented "$elemMatch with operators is not supported yet".toList)
    else do
      let json ← L.toExtjson fields
      return .contains path json
  | _ => .error (failedToParse "$elemMatch expects a document".toList)

/-! ## Operators, fields and documents -/

mutual

/-- `compile_operator`. -/
def compileOperator (L : Libbson) (path : Path) : Text × Value → Except TranslatorError Cond
  | (op, v) =>
    if op = "$eq".toList then compileEq L path v
    else if op = "$ne".toList then return .not (← compileEq L path v)
    else if op = "$gt".toList then compileCompare path .gt v
    else if op = "$gte".toList then compileCompare path .ge v
    else if op = "$lt".toList then compileCompare path .lt v
    else if op = "$lte".toList then compileCompare path .le v
    else if op = "$in".toList then compileIn path v false
    else if op = "$nin".toList then compileIn path v true
    else if op = "$exists".toList then return .jsonExists path !wantsPresence v
    else if op = "$regex".toList then compileRegex path v
    else if op = "$not".toList then compileNot L path v
    else if op = "$elemMatch".toList then compileElemMatch L path v
    else .error (badValue ("unknown operator: ".toList ++ op))
termination_by structural field => field

/-- `$not`. -/
def compileNot (L : Libbson) (path : Path) : Value → Except TranslatorError Cond
  | .document ops => return .not (conjoin .and (← compileOperators L path ops))
  | _ => .error (failedToParse "$not expects an operator document".toList)
termination_by structural v => v

/-- The parts of `compile_operators`, one for each operator on the path. -/
def compileOperators (L : Libbson) (path : Path) : Doc → Except TranslatorError (List Cond)
  | [] => .ok []
  | op :: ops => return (← compileOperator L path op) :: (← compileOperators L path ops)
termination_by structural ops => ops

end

/-- The value is a document whose first field is an operator. -/
def operatorDocument : Value → Option Doc
  | .document ((op, v) :: ops) => if isOperatorName op then some ((op, v) :: ops) else none
  | _ => none

/-- `compile_field`, for a name that is not a logical operator. -/
def compilePath (L : Libbson) (key : Text) (v : Value) : Except TranslatorError Cond :=
  if isOperatorName key then
    .error (notImplemented ("unsupported top-level operator '".toList ++ key ++ "'".toList))
  else do
    let path ← splitPath key
    match operatorDocument v with
    | some ops => return conjoin .and (← compileOperators L path ops)
    | none => compileEq L path v

/-- The condition of a whole document: no field, no condition. -/
def conjoinFields : List Cond → Cond
  | [] => .one
  | parts => conjoin .and parts

mutual

/-- `compile_field`. -/
def compileField (L : Libbson) : Text × Value → Except TranslatorError Cond
  | (key, v) =>
    if key = "$and".toList then compileLogical L .and v
    else if key = "$or".toList then compileLogical L .or v
    else if key = "$nor".toList then return .not (← compileLogical L .or v)
    else compilePath L key v
termination_by structural field => field

/-- `compile_logical`. -/
def compileLogical (L : Libbson) (joiner : Joiner) : Value → Except TranslatorError Cond
  | .array branches =>
    if branches.isEmpty then
      .error (failedToParse "logical operator requires a non-empty array".toList)
    else return conjoin joiner (← compileBranches L branches)
  | _ => .error (typeMismatch "expected an array".toList)
termination_by structural v => v

/-- The parts of `compile_logical`, one for each branch. -/
def compileBranches (L : Libbson) : Doc → Except TranslatorError (List Cond)
  | [] => .ok []
  | branch :: branches => return (← compileBranch L branch) :: (← compileBranches L branches)
termination_by structural branches => branches

/-- One branch of a logical operator: a filter of its own. -/
def compileBranch (L : Libbson) : Text × Value → Except TranslatorError Cond
  | (_, .document filter) => return conjoinFields (← compileFields L filter)
  | _ => .error (failedToParse "logical operator branches must be documents".toList)
termination_by structural branch => branch

/-- The parts of `compile_document`, one for each field. -/
def compileFields (L : Libbson) : Doc → Except TranslatorError (List Cond)
  | [] => .ok []
  | field :: fields => return (← compileField L field) :: (← compileFields L fields)
termination_by structural fields => fields

end

/-- `compile_document`. -/
def compileDocument (L : Libbson) (filter : Doc) : Except TranslatorError Cond :=
  return conjoinFields (← compileFields L filter)

end Chimera
