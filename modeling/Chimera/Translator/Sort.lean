import Chimera.Translator.Bson
import Mathlib.Data.List.Sort

/-!
# Sorting documents

`sort_documents` orders documents by a sort specification, stably, with values of different
types in a fixed order of types.  Comparing a `Decimal128` with a number is an error.  The sort
compares later documents with earlier ones, and neighbours of the result among them.  Two documents
that cannot be compared have no third one between them, so here the sort fails when the comparison
of any document with an earlier one does.
-/

namespace Chimera

/-- `type_rank`. -/
def typeRank : Value → ℕ
  | .minKey => 0
  | .undefined | .null => 1
  | .int32 _ | .int64 _ | .double _ | .decimal128 _ => 2
  | .utf8 _ | .symbol _ => 3
  | .document _ => 4
  | .array _ => 5
  | .binary _ _ => 6
  | .oid _ => 7
  | .bool _ => 8
  | .dateTime _ => 9
  | .timestamp _ _ => 10
  | .regex _ _ => 11
  | .maxKey => 12
  | _ => 4

/-- The sign of a comparison. -/
def orderSign (less greater : Bool) : ℤ := if less then -1 else if greater then 1 else 0

/-- `compare_bytes`: by the first difference, then by length. -/
def compareBytes : Text → Text → ℤ
  | [], [] => 0
  | [], _ :: _ => -1
  | _ :: _, [] => 1
  | a :: as, b :: bs =>
    if a.toNat < b.toNat then -1 else if b.toNat < a.toNat then 1 else compareBytes as bs

mutual

/-- `compare_values`. -/
def compareValues : Value → Value → Except TranslatorError ℤ
  | .document a, right =>
    match right with
    | .document b => compareFields a b false
    | right => .ok (orderSign (4 < typeRank right) (typeRank right < 4))
  | .array a, right =>
    match right with
    | .array b => compareFields a b true
    | right => .ok (orderSign (5 < typeRank right) (typeRank right < 5))
  | left, right =>
    if typeRank left ≠ typeRank right then
      .ok (orderSign (typeRank left < typeRank right) (typeRank right < typeRank left))
    else if typeRank left = 2 then do
      let a ← valueAsDouble left
      let b ← valueAsDouble right
      return orderSign (a.numLt b) (b.numLt a)
    else
      .ok <| match left, right with
        | .utf8 a, .utf8 b | .utf8 a, .symbol b | .symbol a, .utf8 b | .symbol a, .symbol b =>
          compareBytes a b
        | .binary _ a, .binary _ b => compareBytes a b
        | .oid a, .oid b => orderSign (a.toNat < b.toNat) (b.toNat < a.toNat)
        | .bool a, .bool b => orderSign (!a && b) (a && !b)
        | .dateTime a, .dateTime b =>
          let difference := a - b
          orderSign (difference < 0) (difference > 0)
        | .timestamp t i, .timestamp u j =>
          if t ≠ u then orderSign (t < u) (u < t) else orderSign (i < j) (j < i)
        | .regex a _, .regex b _ => if compareBytes a b < 0 then -1 else 0
        | _, _ => 0
termination_by structural left => left

/-- `compare_documents`: element by element, in a document the field name before the value. -/
def compareFields : List (Text × Value) → List (Text × Value) → Bool → Except TranslatorError ℤ
  | [], [], _ => .ok 0
  | [], _ :: _, _ => .ok (-1)
  | _ :: _, [], _ => .ok 1
  | (k, v) :: as, (k', v') :: bs, asArray =>
    if !asArray && decide (k ≠ k') then .ok (compareBytes k k')
    else
      match compareValues v v' with
      | .ok 0 => compareFields as bs asArray
      | result => result
termination_by structural left => left

end

/-- One key of a sort specification. -/
structure SortKey where
  /-- The path. -/
  path : Path
  /-- Ascending or descending. -/
  ascending : Bool

/-- The keys of a sort specification. -/
def sortKeys : Doc → Except TranslatorError (List SortKey)
  | [] => .ok []
  | (name, value) :: spec => do
    let direction := if valueIsNumeric value then value.toDouble else Binary64.ofInt 0
    if !direction.numEq (Binary64.ofInt 1) && !direction.numEq (Binary64.ofInt (-1)) then
      throw (badValue ("sort direction for '".toList ++ name ++ "' must be 1 or -1".toList))
    let path ← splitPath name
    let keys ← sortKeys spec
    return ⟨path, (Binary64.ofInt 0).numLt direction⟩ :: keys

/-- The comparison of two documents: an absent field sorts as null. -/
def sortsBefore (left right : Doc) : List SortKey → Except TranslatorError Bool
  | [] => .ok false
  | key :: keys => do
    let a := (pathGet left key.path).getD .null
    let b := (pathGet right key.path).getD .null
    let difference ← compareValues a b
    if difference ≠ 0 then
      return if key.ascending then decide (difference < 0) else decide (difference > 0)
    else sortsBefore left right keys

/-- The first error in comparing a document with an earlier one. -/
def comparisonError (keys : List SortKey) : List Doc → Option TranslatorError
  | [] => none
  | earlier :: documents =>
    (documents.findSome? fun later =>
      match sortsBefore later earlier keys with
      | .error e => some e
      | .ok _ => none).or (comparisonError keys documents)

/-- `sort_documents`. -/
def sortDocuments (documents : List Doc) (spec : Doc) : Except TranslatorError (List Doc) := do
  let keys ← sortKeys spec
  match comparisonError keys documents with
  | some e => throw e
  | none =>
    return documents.mergeSort fun left right =>
      !((sortsBefore right left keys).toOption.getD false)

/-- There is no error when every document can be compared with the earlier ones. -/
lemma comparisonError_eq_none_iff {keys : List SortKey} {documents : List Doc} :
    comparisonError keys documents = none ↔
      documents.Pairwise fun earlier later => ∃ b, sortsBefore later earlier keys = .ok b := by
  induction documents with
  | nil => exact iff_of_true rfl List.Pairwise.nil
  | cons earlier documents ih =>
    rw [comparisonError, Option.or_eq_none_iff, ih, List.pairwise_cons, List.findSome?_eq_none_iff]
    refine and_congr_left fun _ => forall₂_congr fun later _ => ?_
    cases sortsBefore later earlier keys with
    | error e => simp
    | ok b => simp

/-- Sorting rearranges the documents. -/
lemma sortDocuments_perm {documents sorted : List Doc} {spec : Doc}
    (h : sortDocuments documents spec = .ok sorted) : sorted.Perm documents := by
  unfold sortDocuments at h
  cases hkeys : sortKeys spec with
  | error e => rw [hkeys] at h; exact absurd h (by simp [bind, Except.bind])
  | ok keys =>
    rw [hkeys] at h
    simp only [bind, Except.bind] at h
    split at h
    · exact absurd h (by simp [throw, throwThe, MonadExceptOf.throw])
    · obtain rfl := Except.ok.inj h
      exact List.mergeSort_perm _ _

end Chimera
