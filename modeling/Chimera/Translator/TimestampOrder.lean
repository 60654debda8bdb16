import Chimera.Translator.Equality
import Mathlib.Data.Prod.Lex

/-!
# The order of timestamps

A timestamp is a pair, ordered by its seconds and then by its increment.  The compiled comparison
packs both sides into one integer: the server makes an unsigned one of the stored pair, and the
compiler a signed one of the pair in the filter.  The two packings agree as long as the signed one
is not negative, that is for seconds below `2 ^ 31`; from there on the filter's side is below every
stored timestamp.
-/

namespace Chimera

/-- The two sides stand in the relation of an operator. -/
def CompareOp.holds {α : Type*} [LinearOrder α] : CompareOp → α → α → Prop
  | .eq, a, b => a = b
  | .gt, a, b => b < a
  | .ge, a, b => b ≤ a
  | .lt, a, b => a < b
  | .le, a, b => a ≤ b

instance {α : Type*} [LinearOrder α] (op : CompareOp) (a b : α) : Decidable (op.holds a b) := by
  cases op
  · exact inferInstanceAs (Decidable (a = b))
  · exact inferInstanceAs (Decidable (b < a))
  · exact inferInstanceAs (Decidable (b ≤ a))
  · exact inferInstanceAs (Decidable (a < b))
  · exact inferInstanceAs (Decidable (a ≤ b))

/-- The place of a timestamp in the order: seconds first, then the increment. -/
def stamped (t i : UInt32) : ℕ ×ₗ ℕ := toLex (t.toNat, i.toNat)

/-- The operators of a filter that compare by order. -/
def orderOperators : List (Text × CompareOp) :=
  [("$gt".toList, .gt), ("$gte".toList, .ge), ("$lt".toList, .lt), ("$lte".toList, .le)]

/-- The server's integers, as documented: the text of a number below `2 ^ 64` is cast to it, and an
unsigned integer compares with a signed one as the numbers do. -/
structure MariaDB.ComparesUnsigned (M : MariaDB) : Prop where
  /-- The number of a natural number's text. -/
  cast : ∀ n < 2 ^ 64, M.castUnsigned (decimal n) = n
  /-- An unsigned integer of 64 bits against a signed one. -/
  compare : ∀ m < 2 ^ 64, ∀ op (n : Int64),
    M.compare (.unsigned m) op (.int n) = true ↔ op.holds (m : ℤ) n.toInt

/-! ## The two packings -/

/-- The server's packing keeps the order. -/
lemma holds_packed_iff {op : CompareOp} {t i t' i' : UInt32} :
    op.holds ((t.toNat * 4294967296 + i.toNat : ℕ) : ℤ) (t'.toNat * 4294967296 + i'.toNat : ℕ) ↔
      op.holds (stamped t i) (stamped t' i') := by
  have hi := i.toNat_lt
  have hi' := i'.toNat_lt
  cases op with
  | eq =>
    simp only [CompareOp.holds, stamped, toLex_inj, Prod.mk.injEq]
    omega
  | gt | lt =>
    simp only [CompareOp.holds, stamped, Prod.Lex.toLex_lt_toLex]
    omega
  | ge | le =>
    simp only [CompareOp.holds, stamped, Prod.Lex.toLex_le_toLex]
    omega

/-- The compiler's packing is the server's as long as the seconds leave the sign bit clear, and
negative otherwise. -/
lemma toInt_timestampOrdinal (t i : UInt32) : (timestampOrdinal t i).toInt =
    (t.toNat * 4294967296 + i.toNat : ℕ) - if t.toNat < 2 ^ 31 then 0 else 2 ^ 64 := by
  have ht := t.toNat_lt
  have hi := i.toNat_lt
  rw [timestampOrdinal, Int64.toInt_ofNat', Int64.size]
  split
  · have hfits : ((t.toNat * 2 ^ 32 + i.toNat : ℕ) : ℤ).bmod 18446744073709551616 =
        (t.toNat * 2 ^ 32 + i.toNat : ℕ) := Int.bmod_eq_of_le (by omega) (by omega)
    rw [hfits]
    omega
  · rw [Int.bmod_def]
    omega

/-! ## The comparison -/

/-- A negative number is below every stored timestamp. -/
lemma holds_negative_iff {op : CompareOp} {m : ℕ} {n : ℤ} (hn : n < 0) :
    op.holds (m : ℤ) n ↔ op = .gt ∨ op = .ge := by
  cases op with
  | eq =>
    simp only [CompareOp.holds, reduceCtorEq, or_self, iff_false]
    omega
  | gt | ge =>
    simp only [CompareOp.holds, reduceCtorEq, true_or, or_true, iff_true]
    omega
  | lt | le =>
    simp only [CompareOp.holds, reduceCtorEq, or_self, iff_false]
    omega

/-- To hold of every smaller value, as `>` and `≥` do, or of none, is right of the values that are
smaller, and of an equal value for `≥` and `<`. -/
lemma holds_iff_upward {op : CompareOp} {α : Type*} [LinearOrder α] {a b : α} (hop : op ≠ .eq) :
    ((op = .gt ∨ op = .ge) ↔ op.holds a b) ↔ b < a ∨ b = a ∧ (op = .ge ∨ op = .lt) := by
  cases op with
  | eq => exact absurd rfl hop
  | gt => simp [CompareOp.holds]
  | ge => simp [CompareOp.holds, le_iff_lt_or_eq]
  | lt => simp [CompareOp.holds, le_iff_lt_or_eq]
  | le => simp [CompareOp.holds]

/-- What the server reads of a stored timestamp. -/
lemma read_ordinal {M : MariaDB} {S : Spelling} (hM : M.ComparesUnsigned) {json : Json}
    {path : Path} {t i : UInt32} (hjson : jsonAt json path = some (S.write (.timestamp t i))) :
    (Operand.ordinal path).read M json = some (.unsigned (t.toNat * 4294967296 + i.toNat)) := by
  rw [Operand.read, M.ordinalAt_at, hjson, Option.bind_some, ordinalAt_write hM.cast,
    Option.map_some]

/-- What a comparison of order compiles to. -/
lemma compileDocument_order {L : Libbson} {key name : Text} {path : Path} {op : CompareOp}
    {t i : UInt32} (hkey : isOperatorName key = false) (hpath : splitPath key = .ok path)
    (hop : (name, op) ∈ orderOperators) :
    compileDocument L [(key, .document [(name, .timestamp t i)])] =
      .ok (.compare (.ordinal path) op (.int (timestampOrdinal t i))) := by
  simp only [orderOperators, List.mem_cons, Prod.mk.injEq, List.not_mem_nil, or_false] at hop
  rcases hop with ⟨rfl, rfl⟩ | ⟨rfl, rfl⟩ | ⟨rfl, rfl⟩ | ⟨rfl, rfl⟩ <;>
    exact compileDocument_operator hkey hpath rfl rfl

/-- **Timestamps compare lexicographically exactly where the sign bit is clear or does not matter.**
For every stored timestamp and every timestamp in a filter, the filter `{key: {$op: …}}` with `$op`
one of `$gt`, `$gte`, `$lt`, `$lte` selects the document if and only if the two pairs are so
ordered, exactly when the filter's seconds are below `2 ^ 31`, or the stored timestamp is after the
filter's one, or is equal to it and the operator is `$gte` or `$lt`. -/
theorem timestamp_order_iff {M : MariaDB} {S : Spelling} {L : Libbson} (hM : M.ComparesUnsigned)
    (hL : L.Spells S) {d : Doc} {json : Json} {key name : Text} {path : Path} {op : CompareOp}
    {t i t' i' : UInt32} (hd : L.toExtjson d = .ok json) (hkey : isOperatorName key = false)
    (hpath : splitPath key = .ok path) (hop : (name, op) ∈ orderOperators)
    (hstored : (Value.document d).at path = some (.timestamp t i)) :
    (Selected M L [(key, .document [(name, .timestamp t' i')])] json ↔
        op.holds (stamped t i) (stamped t' i')) ↔
      t'.toNat < 2 ^ 31 ∨ stamped t' i' < stamped t i ∨
        stamped t' i' = stamped t i ∧ (op = .ge ∨ op = .lt) := by
  have hread : (Operand.ordinal path).read M json =
      some (.unsigned (t.toNat * 4294967296 + i.toNat)) := by
    refine read_ordinal (S := S) hM ?_
    rw [hL d json hd]
    exact jsonAt_write (v := .document d) hstored
  have hselected : Selected M L [(key, .document [(name, .timestamp t' i')])] json ↔
      op.holds ((t.toNat * 4294967296 + i.toNat : ℕ) : ℤ) (timestampOrdinal t' i').toInt := by
    rw [← hM.compare _ (packed_lt t i)]
    simp only [Selected, compileDocument_order hkey hpath hop, Except.ok.injEq, exists_eq_left',
      Cond.wellFormed, Param.spelled, true_and, Cond.eval, hread, comparison_eq_some]
    simp
  have hne : op ≠ .eq := by
    rintro rfl
    simp [orderOperators] at hop
  rw [hselected, toInt_timestampOrdinal]
  by_cases hclear : t'.toNat < 2 ^ 31
  · rw [if_pos hclear, sub_zero, holds_packed_iff]
    exact iff_of_true Iff.rfl (Or.inl hclear)
  · have hnegative : ((t'.toNat * 4294967296 + i'.toNat : ℕ) : ℤ) - 2 ^ 64 < 0 := by
      have hlt := packed_lt t' i'
      omega
    rw [if_neg hclear, holds_negative_iff hnegative, holds_iff_upward hne]
    exact (or_iff_right hclear).symm

/-- A server that compares unsigned integers by order. -/
def MariaDB.ofOrdinals : MariaDB :=
  { MariaDB.ofIntegers with
    compare := fun value op param =>
      match value, param with
      | .unsigned m, .int n => decide (op.holds (m : ℤ) n.toInt)
      | _, _ => comparesIntegers value op param }

/-- It does what is documented. -/
lemma MariaDB.ofOrdinals_comparesUnsigned : MariaDB.ofOrdinals.ComparesUnsigned where
  cast n _ := digitsInFront_decimal n
  compare _ _ _ _ := decide_eq_true_iff

/-- Two timestamps of one second. -/
theorem timestamp_order_iff_increment :
    Selected .ofOrdinals Spelling.plain.libbson
        [("ts".toList, .document [("$gt".toList, .timestamp 1700000000 7)])]
        (.obj (Spelling.plain.writeFields [("ts".toList, .timestamp 1700000000 8)])) ↔
      CompareOp.gt.holds (stamped 1700000000 8) (stamped 1700000000 7) :=
  (timestamp_order_iff MariaDB.ofOrdinals_comparesUnsigned Spelling.plain.libbson_spells rfl rfl rfl
    (by decide) rfl).2 (Or.inl (by decide))

/-- A stored timestamp before the largest one, which the filter for earlier ones drops. -/
theorem timestamp_order_wraps :
    let json := Json.obj (Spelling.plain.writeFields [("ts".toList, .timestamp 1700000000 1)])
    MariaDB.ofOrdinals.ComparesUnsigned ∧
      CompareOp.lt.holds (stamped 1700000000 1) (stamped 4294967295 1) ∧
      ¬ Selected .ofOrdinals Spelling.plain.libbson
        [("ts".toList, .document [("$lt".toList, .timestamp 4294967295 1)])] json := by
  refine ⟨MariaDB.ofOrdinals_comparesUnsigned, by decide, ?_⟩
  rintro ⟨cond, hcond, -, heval⟩
  obtain rfl := Except.ok.inj hcond
  exact absurd heval (by decide)

end Chimera
