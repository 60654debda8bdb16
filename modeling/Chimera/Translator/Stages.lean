import Chimera.Foundations.Representatives
import Chimera.Translator.Pipeline
import Chimera.Translator.Project
import Chimera.Translator.Sort
import Chimera.Translator.Update

/-!
# The stages of a pipeline

`run_stages` computes what a pipeline makes of documents.  The bodies of stages and of accumulators
are read with `view_of`, which takes the pointer and the length of a document out of a value without
looking at its type: on a value of another type it is undefined.  A pipeline is safe when this never
happens, and it is exactly when the stages that it reaches have the documents they are read for.
-/

namespace Chimera

/-! ## Reading a value as a document -/

/-- How a pipeline fails. -/
inductive Failure
  /-- An error is raised. -/
  | raised (e : TranslatorError)
  /-- A value that is not a document is read as one. -/
  | undefined

/-- A computation that only raises errors. -/
def raising {α : Type} : Except TranslatorError α → Except Failure α
  | .ok a => .ok a
  | .error e => .error (.raised e)

/-- `view_of`: what it is called on must be a document. -/
def viewOf : Value → Except Failure Doc
  | .document fields => .ok fields
  | _ => .error .undefined

/-! ## Grouping -/

/-- `sum_operand`. -/
def sumOperand (document : Doc) : Value → Except TranslatorError Binary64
  | .utf8 ('$' :: name) => do
    let path ← splitPath name
    match pathGet document path with
    | some value => return if valueIsNumeric value then value.toDouble else Binary64.ofInt 0
    | none => return Binary64.ofInt 0
  | .utf8 _ => .ok (Binary64.ofInt 0)
  | operand =>
    if valueIsNumeric operand then .ok operand.toDouble
    else .error (notImplemented "$sum accepts a number or a field path".toList)

/-- `group_key`. -/
def groupKey (document : Doc) : Value → Except TranslatorError Value
  | .utf8 ('$' :: name) => do
    let path ← splitPath name
    return (pathGet document path).getD .null
  | .document _ => .error
    (notImplemented "$group _id must be null, a constant, or a single field path".toList)
  | spec => .ok spec

/-- The accumulators of a `$group` stage: their names, and what they sum. -/
def accumulators : Doc → Except Failure (List (Text × Value))
  | [] => .ok []
  | (name, value) :: fields => do
    let inner ← viewOf value
    match inner with
    | [(operator, operand)] =>
      if operator = "$sum".toList then return (name, operand) :: (← accumulators fields)
      else throw (.raised (notImplemented "$group supports the $sum accumulator only".toList))
    | _ => throw (.raised (notImplemented "$group supports the $sum accumulator only".toList))

/-- A group: its key, and a total for each accumulator. -/
structure DocumentGroup where
  /-- The key. -/
  key : Value
  /-- The totals. -/
  totals : List Binary64

/-- Add to the totals of the first group that has the key, or to those of a new group. -/
def addToGroup (key : Value) (summands : List Binary64) : List DocumentGroup → List DocumentGroup
  | [] => [⟨key, summands.map (Binary64.add (Binary64.ofInt 0))⟩]
  | group :: groups =>
    if valueEqual group.key key then
      { group with totals := group.totals.zipWith Binary64.add summands } :: groups
    else group :: addToGroup key summands groups

/-- Put the documents into their groups, one after the other. -/
def groupDocuments (idSpec : Value) (sums : List (Text × Value)) (groups : List DocumentGroup) :
    List Doc → Except TranslatorError (List DocumentGroup)
  | [] => .ok groups
  | document :: documents => do
    let key ← groupKey document idSpec
    let summands ← sums.mapM fun sum => sumOperand document sum.2
    groupDocuments idSpec sums (addToGroup key summands groups) documents

/-- The documents of the groups: the key, and the totals under the names of the accumulators. -/
def groupedDocuments (sums : List (Text × Value)) (groups : List DocumentGroup) : List Doc :=
  groups.map fun group => ("_id".toList, group.key) ::
    (sums.map Prod.fst).zip (group.totals.map .double)

/-- `apply_group`. -/
def applyGroup (documents : List Doc) : Doc → Except Failure (List Doc)
  | [] => .error (.raised (failedToParse "a $group specification must include an _id".toList))
  | (name, idSpec) :: fields =>
    if name = "_id".toList then do
      let sums ← accumulators fields
      let groups ← raising (groupDocuments idSpec sums [] documents)
      return groupedDocuments sums groups
    else .error (.raised (failedToParse "a $group specification must include an _id".toList))

/-! ## Running the stages -/

/-- `positive_count`, as a `size_t`. -/
def positiveCount (value : Value) (stage : Text) : Except TranslatorError ℕ :=
  if !valueIsNumeric value then
    .error (typeMismatch (stage ++ " takes a numeric argument".toList))
  else if value.toDouble.numLt (Binary64.ofInt 0) then
    .error (badValue (stage ++ " must not be negative".toList))
  else .ok (castInt64 value.toDouble).toUInt64.toNat

/-- What `run_stages` does for an operator. -/
def runOperator (documents : List Doc) (name : Text) (body : Value) : Except Failure (List Doc) :=
  if name = "$match".toList then
    .error (.raised (notImplemented "$match is supported only at the head of a pipeline".toList))
  else if name = "$project".toList then do
    let spec ← viewOf body
    raising (documents.mapM fun document => project document spec)
  else if name = "$sort".toList then do
    let spec ← viewOf body
    raising (sortDocuments documents spec)
  else if name = "$skip".toList then
    raising ((positiveCount body "$skip".toList).map documents.drop)
  else if name = "$limit".toList then
    raising ((positiveCount body "$limit".toList).map documents.take)
  else if name = "$group".toList then do
    let spec ← viewOf body
    applyGroup documents spec
  else if name = "$count".toList then
    match body with
    | .utf8 field => .ok [[(field.takeWhile fun c => c ≠ Char.ofNat 0,
        .int64 (Int64.ofNat documents.length))]]
    | _ => .error (.raised (typeMismatch "$count takes a field name".toList))
  else .error (.raised (notImplemented ("unsupported aggregation stage: ".toList ++ name)))

/-- One stage of `run_stages`. -/
def runStage (documents : List Doc) (stage : Doc) : Except Failure (List Doc) := do
  let (name, body) ← raising (stageOperator stage)
  runOperator documents name body

/-- `run_stages`. -/
def runStages (documents : List Doc) : List Doc → Except Failure (List Doc)
  | [] => .ok documents
  | stage :: stages => do runStages (← runStage documents stage) stages

/-! ## Taking the pipeline apart -/

/-- What only raises errors is not undefined. -/
lemma raising_ne_undefined {α : Type} (x : Except TranslatorError α) :
    raising x ≠ .error .undefined := by
  cases x <;> simp [raising]

end Chimera
