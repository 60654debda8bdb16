import Chimera.Translator.Negation
import Chimera.Translator.Spelling
import Mathlib.Data.List.TakeWhile

/-!
# What an equality matches

The filter `{p: v}` compiles to a comparison of the text that the server reads at the path, or a
search for the spelling of `v`.  Neither is equality of BSON values: the text of a number is
compared after rounding, the text of a string is compared with numbers by its numeric prefix, and
an array is searched for one spelling of a number.  The filter is equality exactly where the value
at the path is told apart from `v` in spite of that.  The names of the path are plain, so that the
filter asks for the path that it names.
-/

namespace Chimera

/-! ## Equality of values -/

/-- The number a value denotes, in units of `2 ^ (-1074)`. -/
def Value.number? : Value → Option ℤ
  | .int32 n => some (n.toInt * 2 ^ 1074)
  | .int64 n => some (n.toInt * 2 ^ 1074)
  | .double d => if d.isFinite then some d.units else none
  | _ => none

/-- Numbers of all three types are equal when they are the same number, and other values when they
are the same value of one type. -/
def SameValue (x v : Value) : Prop :=
  match v.number? with
  | some u => x.number? = some u
  | none => x = v

/-- The document matches `{path: v}`: its value at the path equals `v`, or is an array that has an
element equal to `v`. -/
def MatchesValue (d : Doc) (path : Path) (v : Value) : Prop :=
  ∃ x, (Value.document d).at path = some x ∧
    (SameValue x v ∨ ∃ elements, x = .array elements ∧ ∃ e ∈ elements, SameValue e.2 v)

/-! ## What the server confuses -/

/-- The number that the server reads of a scalar where it compares numbers. -/
def MariaDB.numberOf (M : MariaDB) (S : Spelling) : Value → Option Binary64
  | .int32 n => some (Binary64.ofInt n.toInt)
  | .int64 n | .dateTime n => some (Binary64.ofInt n.toInt)
  | .double d => some (if d.isFinite then d else M.castDouble (S.double d))
  | .bool b => some (Binary64.ofInt (if b then 1 else 0))
  | .utf8 s => some (M.castDouble s)
  | .oid bytes => some (M.castDouble (oidString bytes))
  | .null => M.nullText.map M.castDouble
  | _ => none

/-- The number that a value is compared as, if it is compared as one. -/
def Value.comparedNumber : Value → Option Binary64
  | .int32 n => some (Binary64.ofInt n.toInt)
  | .int64 n | .dateTime n => some (Binary64.ofInt n.toInt)
  | .double d => some d
  | .bool b => some (Binary64.ofInt (if b then 1 else 0))
  | _ => none

/-- The text that a value is compared as, if it is compared as one. -/
def Value.comparedText : Value → Option Text
  | .utf8 s => some s
  | .oid bytes => some (oidString bytes)
  | _ => none

/-- The server takes the scalar `x` for `v`: it reads the number, or the text, of `v`. -/
def MariaDB.Confuses (M : MariaDB) (S : Spelling) (x v : Value) : Prop :=
  (∃ a b, M.numberOf S x = some a ∧ v.comparedNumber = some b ∧ a.numEq b = true) ∨
    ∃ s t, M.textOf S x = some s ∧ v.comparedText = some t ∧
      M.compare (.text s) .eq (.text t) = true

/-- What is stored passes for `v`: compared with `v` it is found equal, or it contains the spelling
of `v`. -/
def MariaDB.Passes (M : MariaDB) (S : Spelling) (stored : Json) (v : Value) : Prop :=
  ComparesAs M stored [] .eq v true ∨ (S.write v).containedIn stored = true

/-- What is stored reads as `v` without being a scalar: a text that stands in a member named like a
wrapper has the number or the text of `v`, or the members that spell `v` are there. -/
def MariaDB.Disguises (M : MariaDB) (S : Spelling) (stored : Json) (v : Value) : Prop :=
  (∃ s, M.scalarExpr stored [] = some s ∧
    ((∃ b, v.comparedNumber = some b ∧ (M.castDouble s).numEq b = true) ∨
      ∃ t, v.comparedText = some t ∧ M.compare (.text s) .eq (.text t) = true)) ∨
  (∃ t i o, v = .timestamp t i ∧ M.ordinalAt stored [] = some o ∧
    (o : ℤ) = (timestampOrdinal t i).toInt) ∨
  (S.write v).containedIn stored = true

/-- The value at a path of a stored document is told apart from `v`.

A scalar is `v` or not confused with `v`.  An array has an element that is `v` in type and value;
or it has an element equal to `v` exactly when one of the documents and arrays in it contains the
spelling of `v`.  A document, or a part of the spelling of a scalar that the path leads into, does
not read as `v`. -/
def MariaDB.TellsApart (M : MariaDB) (S : Spelling) (stored : Json) (path : Path) (v : Value) :
    Option Value → Prop
  | none => ∀ inner, jsonAt stored path = some inner → ¬ M.Disguises S inner v
  | some (.document fields) => ¬ M.Disguises S (S.write (.document fields)) v
  | some (.array elements) => (∃ e ∈ elements, e.2 = v) ∨
    ((∃ e ∈ elements, SameValue e.2 v) ↔
      ∃ e ∈ elements, e.2.isContainer = true ∧ (S.write v).containedIn (S.write e.2) = true)
  | some x => SameValue x v ∨ ¬ M.Confuses S x v

section Equality

variable {M : MariaDB} {S : Spelling} {L : Libbson}

/-! ## Numbers -/

/-- A value is the same as itself. -/
lemma sameValue_self {v : Value} : SameValue v v := by
  unfold SameValue
  cases v.number? <;> rfl

/-- The number that the server reads of a scalar is the number of the text that it reads. -/
lemma numberOf_eq (hM : M.Documented S) (x : Value) :
    M.numberOf S x = (M.textOf S x).map M.castDouble := by
  cases x with
  | double d =>
    refine congrArg some ?_
    split
    · next hfinite => exact (hM.castDouble_double d hfinite).symm
    · rfl
  | int32 n =>
    have hcast := hM.castDouble_integer n.toInt64
    rw [Int32.toInt_toInt64] at hcast
    exact congrArg some hcast.symm
  | int64 n => exact congrArg some (hM.castDouble_integer n).symm
  | dateTime n => exact congrArg some (hM.castDouble_integer n).symm
  | bool b =>
    refine congrArg some ?_
    rw [hM.boolText]
    cases b with
    | false => exact (hM.castDouble_integer 0).symm
    | true => exact (hM.castDouble_integer 1).symm
  | _ => rfl

/-- A value that denotes a number is read and compared as the double nearest to it, which is the
number itself unless it is an integer. -/
lemma number_cases {x : Value} {u : ℤ} (hx : x.number? = some u) :
    (∃ n : ℤ, n.natAbs < 2 ^ 64 ∧ n * 2 ^ 1074 = u ∧
        M.numberOf S x = some (Binary64.ofInt n) ∧ x.comparedNumber = some (Binary64.ofInt n)) ∨
      ∃ d : Binary64, d.isFinite = true ∧ d.units = u ∧ M.numberOf S x = some d ∧
        x.comparedNumber = some d := by
  cases x with
  | int32 n =>
    have hlow := n.le_toInt
    have hhigh := n.toInt_lt
    exact .inl ⟨n.toInt, by omega, Option.some.inj hx, rfl, rfl⟩
  | int64 n =>
    have hlow := n.le_toInt
    have hhigh := n.toInt_lt
    exact .inl ⟨n.toInt, by omega, Option.some.inj hx, rfl, rfl⟩
  | double d =>
    simp only [Value.number?] at hx
    split at hx
    · next hfinite =>
      exact .inr ⟨d, hfinite, Option.some.inj hx, congrArg some (if_pos hfinite), rfl⟩
    · cases hx
  | _ => cases hx

/-- Scalars that denote one number are read and compared as equal doubles. -/
lemma numEq_of_number {x v : Value} {u : ℤ} (hx : x.number? = some u) (hv : v.number? = some u) :
    ∃ a b, M.numberOf S x = some a ∧ v.comparedNumber = some b ∧ a.numEq b = true := by
  rcases number_cases (M := M) (S := S) hx with ⟨m, hm, hmu, hxm, -⟩ | ⟨d, hd, hdu, hxd, -⟩
  · rcases number_cases (M := M) (S := S) hv with ⟨n, -, hnu, -, hvn⟩ | ⟨e, he, heu, -, hve⟩
    · obtain ⟨c, hc⟩ : ∃ c, c = 1074 := ⟨_, rfl⟩
      rw [← hnu, ← hc] at hmu
      obtain rfl : m = n := mul_right_cancel₀ (pow_ne_zero c (by decide)) hmu
      exact ⟨_, _, hxm, hvn, Binary64.numEq_of_units_eq (Binary64.isNaN_ofInt m)
        (Binary64.isNaN_ofInt m) rfl⟩
    · have hunits := Binary64.units_ofInt_of_units hm (heu.trans hmu.symm)
      exact ⟨_, _, hxm, hve, Binary64.numEq_of_units_eq (Binary64.isNaN_ofInt m)
        (Binary64.isNaN_of_isFinite he) hunits⟩
  · rcases number_cases (M := M) (S := S) hv with ⟨n, hn, hnu, -, hvn⟩ | ⟨e, he, heu, -, hve⟩
    · have hunits := Binary64.units_ofInt_of_units hn (hdu.trans hnu.symm)
      exact ⟨_, _, hxd, hvn, Binary64.numEq_of_units_eq (Binary64.isNaN_of_isFinite hd)
        (Binary64.isNaN_ofInt n) hunits.symm⟩
    · exact ⟨_, _, hxd, hve, Binary64.numEq_of_units_eq (Binary64.isNaN_of_isFinite hd)
        (Binary64.isNaN_of_isFinite he) (hdu.trans heu.symm)⟩

/-! ## Scalars -/

/-- A comparison at a path is a comparison with what is at the path. -/
lemma comparesAs_at {stored : Json} {path : Path} {op : CompareOp} {v : Value} {b : Bool} :
    ComparesAs M stored path op v b ↔
      ∃ inner, jsonAt stored path = some inner ∧ ComparesAs M inner [] op v b := by
  unfold ComparesAs
  rw [read_comparable]
  constructor
  · rintro ⟨param, x, hparam, hnull, hread, hcompare⟩
    obtain ⟨inner, hinner, hread⟩ := Option.bind_eq_some_iff.1 hread
    exact ⟨inner, hinner, param, x, hparam, hnull, hread, hcompare⟩
  · rintro ⟨inner, hinner, param, x, hparam, hnull, hread, hcompare⟩
    exact ⟨param, x, hparam, hnull, Option.bind_eq_some_iff.2 ⟨inner, hinner, hread⟩, hcompare⟩

/-- How a value that is compared as a number is compared: by the number of the text, which either
the condition or the comparison takes. -/
lemma compare_number (hM : M.Documented S) {v : Value} {e : Binary64}
    (he : v.comparedNumber = some e) (hspelled : v.spelled = true) :
    ∃ param, bindValue v = .ok param ∧ param ≠ .null ∧
      ((comparable [] v = .double [] ∧
          ∀ d : Binary64, d.isFinite = true → M.compare (.double d) .eq param = d.numEq e) ∨
        comparable [] v = .scalar [] ∧
          ∀ s, M.compare (.text s) .eq param = (M.castDouble s).numEq e) := by
  cases v with
  | int32 n =>
    obtain rfl := Option.some.inj he
    refine ⟨.int n.toInt64, rfl, nofun, .inl ⟨rfl, fun d hd => ?_⟩⟩
    rw [hM.compare_int d hd, Int32.toInt_toInt64]
  | int64 n =>
    obtain rfl := Option.some.inj he
    exact ⟨.int n, rfl, nofun, .inl ⟨rfl, fun d hd => hM.compare_int d hd n⟩⟩
  | dateTime n =>
    obtain rfl := Option.some.inj he
    exact ⟨.int n, rfl, nofun, .inl ⟨rfl, fun d hd => hM.compare_int d hd n⟩⟩
  | double d =>
    obtain rfl := Option.some.inj he
    exact ⟨.double d, rfl, nofun, .inl ⟨rfl, fun c hc => hM.compare_double c d hc hspelled⟩⟩
  | bool b =>
    obtain rfl := Option.some.inj he
    exact ⟨.bool b, rfl, nofun, .inr ⟨rfl, fun s => hM.compare_bool s b⟩⟩
  | _ => cases he

/-- A value that is compared as a number is found equal to a text of the same number. -/
lemma comparesAs_number_iff (hM : M.Documented S) {stored : Json} {v : Value} {e : Binary64}
    (he : v.comparedNumber = some e) (hspelled : v.spelled = true) :
    ComparesAs M stored [] .eq v true ↔
      ∃ s, M.scalarExpr stored [] = some s ∧ (M.castDouble s).numEq e = true := by
  obtain ⟨param, hparam, hnull, hcompare⟩ := compare_number hM he hspelled
  unfold ComparesAs
  rcases hcompare with ⟨hoperand, hcompare⟩ | ⟨hoperand, hcompare⟩
  · simp [hparam, hnull, hoperand, Operand.read, hcompare, hM.castDouble_finite]
  · simp [hparam, hnull, hoperand, Operand.read, hcompare]

/-- A value that is compared as a text is found equal to a text that the server takes for it. -/
lemma comparesAs_text_iff {stored : Json} {v : Value} {t : Text} (ht : v.comparedText = some t) :
    ComparesAs M stored [] .eq v true ↔
      ∃ s, M.scalarExpr stored [] = some s ∧ M.compare (.text s) .eq (.text t) = true := by
  unfold ComparesAs
  cases v with
  | utf8 s =>
    obtain rfl := Option.some.inj ht
    simp [bindValue, comparable, Operand.read]
  | oid bytes =>
    obtain rfl := Option.some.inj ht
    simp [bindValue, comparable, Operand.read]
  | _ => cases ht

/-- A packed pair has 64 bits. -/
lemma lt_of_packedOrdinal {t i o : ℕ} (h : packedOrdinal t i = some o) : o < 2 ^ 64 := by
  unfold packedOrdinal at h
  split at h
  · next hlt =>
    obtain rfl := Option.some.inj h
    exact hlt
  · cases h

/-- An ordinal that is read has 64 bits. -/
lemma lt_of_ordinalAt {stored : Json} {path : Path} {o : ℕ}
    (h : M.ordinalAt stored path = some o) : o < 2 ^ 64 := by
  simp only [MariaDB.ordinalAt, Option.bind_eq_bind, Option.bind_eq_some_iff] at h
  obtain ⟨t, -, i, -, ho⟩ := h
  exact lt_of_packedOrdinal ho

/-- A timestamp is compared by its ordinal. -/
lemma comparesAs_timestamp (hM : M.Documented S) {stored : Json} {path : Path} {t i : UInt32}
    (b : Bool) :
    ComparesAs M stored path .eq (.timestamp t i) b ↔ ∃ o, M.ordinalAt stored path = some o ∧
      ((o : ℤ) = (timestampOrdinal t i).toInt ↔ b = true) := by
  have hread : (comparable path (.timestamp t i)).read M stored =
      (M.ordinalAt stored path).map .unsigned := rfl
  unfold ComparesAs
  rw [hread]
  constructor
  · rintro ⟨param, x, hp, -, hx, hcompare⟩
    obtain rfl := Except.ok.inj hp
    obtain ⟨o, ho, rfl⟩ := Option.map_eq_some_iff.1 hx
    refine ⟨o, ho, ?_⟩
    rw [hM.compare_unsigned o (lt_of_ordinalAt ho)] at hcompare
    rw [← hcompare, decide_eq_true_eq]
  · rintro ⟨o, ho, hiff⟩
    refine ⟨_, _, rfl, Param.noConfusion, congrArg (Option.map SqlValue.unsigned) ho, ?_⟩
    rw [hM.compare_unsigned o (lt_of_ordinalAt ho), Bool.eq_iff_iff, decide_eq_true_eq, hiff]

/-- A value that equality compares with has a spelling in SQL. -/
lemma spelled_of_matchable {v : Value} (hv : v.matchable = true) : v.spelled = true := by
  cases v with
  | double d => exact hv
  | _ => rfl

/-- What passes for a value that is not an array is a scalar's text, or a disguise. -/
lemma passes_iff_disguises (hM : M.Documented S) {stored : Json} {v : Value}
    (hv : v.matchable = true) : M.Passes S stored v ↔ M.Disguises S stored v := by
  unfold MariaDB.Passes MariaDB.Disguises
  cases v with
  | timestamp t i =>
    rw [comparesAs_timestamp hM]
    simp only [Value.comparedNumber, Value.comparedText, reduceCtorEq, false_and, exists_false,
      or_self, and_false, Value.timestamp.injEq, iff_true, false_or]
    refine or_congr_left ⟨fun ⟨o, ho, heq⟩ => ⟨t, i, o, ⟨rfl, rfl⟩, ho, heq⟩, ?_⟩
    rintro ⟨_, _, o, ⟨rfl, rfl⟩, ho, heq⟩
    exact ⟨o, ho, heq⟩
  | bool b =>
    rw [comparesAs_number_iff hM rfl (spelled_of_matchable hv)]
    simp [Value.comparedNumber, Value.comparedText]
  | int32 n =>
    rw [comparesAs_number_iff hM rfl (spelled_of_matchable hv)]
    simp [Value.comparedNumber, Value.comparedText]
  | int64 n =>
    rw [comparesAs_number_iff hM rfl (spelled_of_matchable hv)]
    simp [Value.comparedNumber, Value.comparedText]
  | dateTime n =>
    rw [comparesAs_number_iff hM rfl (spelled_of_matchable hv)]
    simp [Value.comparedNumber, Value.comparedText]
  | double d =>
    rw [comparesAs_number_iff hM rfl (spelled_of_matchable hv)]
    simp [Value.comparedNumber, Value.comparedText]
  | utf8 s =>
    rw [comparesAs_text_iff rfl]
    simp [Value.comparedNumber, Value.comparedText]
  | oid bytes =>
    rw [comparesAs_text_iff rfl]
    simp [Value.comparedNumber, Value.comparedText]
  | _ => cases hv

/-- A value that is compared as a number is found equal where the same number is read. -/
lemma comparesAs_number (hM : M.Documented S) {x v : Value} {e : Binary64}
    (hx : x.isContainer = false) (he : v.comparedNumber = some e) (hspelled : v.spelled = true) :
    ComparesAs M (S.write x) [] .eq v true ↔
      ∃ d, M.numberOf S x = some d ∧ d.numEq e = true := by
  rw [comparesAs_number_iff hM he hspelled, scalarExpr_write hx, numberOf_eq hM]
  simp

/-- A value that is compared as a text is found equal where the server takes the text that is read
for it. -/
lemma comparesAs_text {x v : Value} {t : Text} (hx : x.isContainer = false)
    (ht : v.comparedText = some t) :
    ComparesAs M (S.write x) [] .eq v true ↔
      ∃ s, M.textOf S x = some s ∧ M.compare (.text s) .eq (.text t) = true := by
  rw [comparesAs_text_iff ht, scalarExpr_write hx]

/-- The ordinal of a timestamp is told by the number that the server reads. -/
lemma eq_of_timestampOrdinal {t i t' i' : UInt32}
    (h : ((t.toNat * 4294967296 + i.toNat : ℕ) : ℤ) = (timestampOrdinal t' i').toInt) :
    t = t' ∧ i = i' := by
  have ht := t.toNat_lt
  have hi := i.toNat_lt
  have ht' := t'.toNat_lt
  have hi' := i'.toNat_lt
  rw [timestampOrdinal, Int64.toInt_ofNat', Int64.size] at h
  have hmod : ((t.toNat * 4294967296 + i.toNat : ℕ) : ℤ) % 18446744073709551616 =
      ((t'.toNat * 2 ^ 32 + i'.toNat : ℕ) : ℤ) % 18446744073709551616 := by
    rw [h]
    exact Int.bmod_emod
  exact ⟨UInt32.toNat_inj.1 (by omega), UInt32.toNat_inj.1 (by omega)⟩

/-- A timestamp is found equal to itself only. -/
lemma eq_of_comparesAs_timestamp (hM : M.Documented S) {x : Value} {t i : UInt32}
    (hx : x.isContainer = false)
    (h : ComparesAs M (S.write x) [] .eq (.timestamp t i) true) : x = .timestamp t i := by
  obtain ⟨o, ho, hiff⟩ := (comparesAs_timestamp hM true).1 h
  cases x with
  | timestamp t' i' =>
    rw [ordinalAt_write hM.castUnsigned_decimal] at ho
    obtain rfl := Option.some.inj ho
    obtain ⟨rfl, rfl⟩ := eq_of_timestampOrdinal (hiff.2 rfl)
    rfl
  | document fields => cases hx
  | array fields => cases hx
  | _ => cases ho

/-- A scalar that is the same as a value passes for it, by its number or by its spelling. -/
lemma confuses_or_eq {x v : Value} (h : SameValue x v) : M.Confuses S x v ∨ x = v := by
  unfold SameValue at h
  cases hnumber : v.number? with
  | some u =>
    rw [hnumber] at h
    exact .inl (.inl (numEq_of_number h hnumber))
  | none =>
    rw [hnumber] at h
    exact .inr h

/-- **What passes for a value.**  A scalar passes for `v` when it is `v` or the server confuses the
two. -/
theorem passes_scalar_iff (hM : M.Documented S) {x v : Value} (hx : x.isContainer = false)
    (hv : v.matchable = true) : M.Passes S (S.write x) v ↔ M.Confuses S x v ∨ x = v := by
  unfold MariaDB.Passes MariaDB.Confuses
  rw [containedIn_write_iff hM hv hx]
  cases hnumber : v.comparedNumber with
  | some e =>
    have htext : v.comparedText = none := by
      cases v <;> first | rfl | cases hnumber
    rw [comparesAs_number hM hx hnumber (spelled_of_matchable hv)]
    simp [htext]
  | none =>
    cases htext : v.comparedText with
    | some t =>
      rw [comparesAs_text hx htext]
      simp
    | none =>
      cases v with
      | timestamp t i =>
        simp only [reduceCtorEq, false_and, and_false, exists_false, or_self, false_or]
        exact ⟨fun h => h.elim (eq_of_comparesAs_timestamp hM hx) id, .inr⟩
      | bool _ | int32 _ | int64 _ | dateTime _ | double _ => cases hnumber
      | oid _ | utf8 _ => cases htext
      | _ => cases hv

/-- An array passes for a value when it contains the spelling of the value. -/
lemma passes_arr {v : Value} (hv : v.matchable = true) (xs : List Json) :
    M.Passes S (.arr xs) v ↔ ∃ x ∈ xs, (S.write v).containedIn x = true := by
  unfold MariaDB.Passes
  rw [containedIn_arr hv, List.any_eq_true]
  refine or_iff_right ?_
  rintro ⟨param, y, -, -, hread, -⟩
  have hscalar := scalarExpr_arr (M := M) xs
  cases v with
  | timestamp t i => cases hread
  | _ => simp [comparable, Operand.read, hscalar] at hread

/-- A container is the same value as none that equality compares with. -/
lemma not_sameValue_of_isContainer {x v : Value} (hv : v.matchable = true)
    (hx : x.isContainer = true) : ¬ SameValue x v := by
  intro h
  unfold SameValue at h
  split at h
  · cases x with
    | document fields => cases h
    | array fields => cases h
    | _ => cases hx
  · subst h
    cases x with
    | document fields => cases hv
    | array fields => cases hv
    | _ => cases hx

/-! ## The filter -/

/-- Equality with the value is a comparison or a search. -/
def Value.isSought : Value → Bool
  | .null | .regex _ _ | .document _ | .array _ => false
  | _ => true

/-- What equality compares with is sought. -/
lemma isSought_of_matchable {v : Value} (hv : v.matchable = true) : v.isSought = true := by
  cases v <;> first | rfl | cases hv

/-- The filter `{key: v}` is a comparison or a search. -/
lemma compileDocument_sought {key : Text} {v : Value} (hkey : isOperatorName key = false)
    (hv : v.isSought = true) : compileDocument L [(key, v)] = (do
      let path ← splitPath key
      let param ← bindValue v
      let literal ← canonicalLiteral L v
      return .junction .or [.compare (comparable path v) .eq param, .contains path literal]) := by
  have hoperator : operatorDocument v = none := by
    cases v with
    | document fields => cases hv
    | _ => rfl
  have hequals : ∀ path, compileEq L path v = (do
      let param ← bindValue v
      let literal ← canonicalLiteral L v
      return .junction .or [.compare (comparable path v) .eq param, .contains path literal]) := by
    intro path
    cases v with
    | null | regex _ _ | document _ | array _ => cases hv
    | _ => rfl
  rw [compileDocument_singleton, compileField_of_path hkey, compilePath, if_neg (by simp [hkey]),
    hoperator]
  simp only [hequals]

/-- The name in a filter `{key: v}` that is accepted is no operator. -/
lemma isOperatorName_of_accepted {key : Text} {v : Value} (hv : v.isSought = true)
    (h : Accepted L [(key, v)]) : isOperatorName key = false := by
  obtain ⟨cond, h⟩ := h
  by_contra hname
  rw [Bool.not_eq_false] at hname
  rw [compileDocument_singleton] at h
  unfold compileField at h
  split_ifs at h
  all_goals
    cases v with
    | document _ | array _ => cases hv
    | _ => first | cases h | (rw [compilePath, if_pos hname] at h; cases h)

/-- What the filter `{key: v}` compiles to. -/
lemma compileDocument_equals {key : Text} {v : Value} {cond : Cond} (hv : v.isSought = true)
    (h : compileDocument L [(key, v)] = .ok cond) :
    ∃ param literal, bindValue v = .ok param ∧ canonicalLiteral L v = .ok literal ∧
      cond = .junction .or [.compare (comparable (splitDots key) v) .eq param,
        .contains (splitDots key) literal] := by
  have hkey := isOperatorName_of_accepted hv ⟨cond, h⟩
  simp only [compileDocument_sought hkey hv, except_bind_eq_ok, except_pure_eq_ok] at h
  obtain ⟨path, hpath, param, hparam, literal, hliteral, rfl⟩ := h
  obtain rfl := splitPath_eq_ok hpath
  exact ⟨param, literal, hparam, hliteral, rfl⟩

/-- The filter `{key: v}` of a plain name selects by its text what it selects by its tree. -/
lemma selects_equals_iff {stored : Json} {key : Text} {v : Value}
    (hname : PlainPath (splitDots key)) (hv : v.isSought = true) (h : Accepted L [(key, v)]) :
    Selects M L [(key, v)] stored ↔ Selected M L [(key, v)] stored := by
  obtain ⟨cond, hcond⟩ := h
  obtain ⟨param, literal, -, -, rfl⟩ := compileDocument_equals hv hcond
  refine selects_iff_selected_of_clean hcond ?_
  simp only [Cond.paths, Cond.pathsAll, comparable_path, List.cons_append, List.nil_append,
    List.forall_mem_cons]
  exact ⟨hname.clean, hname.clean, fun path hpath => absurd hpath List.not_mem_nil⟩

/-- A value that equality compares with can be bound. -/
lemma bindValue_matchable {v : Value} (hv : v.matchable = true) :
    ∃ param, bindValue v = .ok param := by
  cases v with
  | bool _ | int32 _ | int64 _ | dateTime _ | timestamp _ _ | oid _ | utf8 _ | double _ =>
    exact ⟨_, rfl⟩
  | _ => cases hv

/-- A value that can be written has a literal. -/
lemma exists_canonicalLiteral {v : Value} {json : Json}
    (h : L.toExtjson [("v".toList, v)] = .ok json) :
    ∃ literal, canonicalLiteral L v = .ok literal := by
  unfold canonicalLiteral
  rw [h]
  match json with
  | .obj [(_, literal)] => exact ⟨literal, rfl⟩
  | .obj [] => exact ⟨_, rfl⟩
  | .obj (_ :: _ :: _) => exact ⟨_, rfl⟩
  | .null | .bool _ | .int _ | .str _ | .arr _ => exact ⟨_, rfl⟩

/-- The literal that an array is searched for is the spelling of the value. -/
lemma eq_write_of_canonicalLiteral (hL : L.Spells S) {v : Value} {literal : Json}
    (h : canonicalLiteral L v = .ok literal) : literal = S.write v := by
  simp only [canonicalLiteral, except_bind_eq_ok] at h
  obtain ⟨json, hjson, h⟩ := h
  obtain rfl := hL _ _ hjson
  exact (Except.ok.inj h).symm

/-- **What the filter selects.**  The filter selects a stored document when what is stored at the
path passes for the value. -/
theorem selected_equals_iff (hM : M.Documented S) (hL : L.Spells S) {stored : Json} {key : Text}
    {v : Value} (hv : v.matchable = true) (h : Accepted L [(key, v)]) :
    Selected M L [(key, v)] stored ↔
      ∃ inner, jsonAt stored (splitDots key) = some inner ∧ M.Passes S inner v := by
  obtain ⟨cond, hcond⟩ := h
  obtain ⟨param, literal, hparam, hliteral, rfl⟩ :=
    compileDocument_equals (isSought_of_matchable hv) hcond
  obtain rfl := eq_write_of_canonicalLiteral hL hliteral
  have hnull : v ≠ .null := by
    rintro rfl
    cases hv
  have hspelled : param.spelled = true := by
    rw [bindValue_spelled hparam]
    exact spelled_of_matchable hv
  have heval := (@compileEq_scalar_agrees M L stored (splitDots key) _ _ _ hparam hliteral
    hnull).value true
  rw [Query.forced_test, equals_forced hparam hnull, if_pos rfl] at heval
  have hcontains : ContainsAs M stored (splitDots key) (canonicalLiteral L v) true ↔
      ∃ inner, jsonAt stored (splitDots key) = some inner ∧
        (S.write v).containedIn inner = true := by
    simp [ContainsAs, hliteral, hM.contains]
  have hselected : Selected M L [(key, v)] stored ↔
      ComparesAs M stored (splitDots key) .eq v true ∨
        ContainsAs M stored (splitDots key) (canonicalLiteral L v) true := by
    rw [← heval]
    simp [Selected, hcond, Cond.wellFormed, hspelled]
  rw [hselected, comparesAs_at, hcontains, ← exists_or]
  simp only [MariaDB.Passes, and_or_left]

/-- An array contains the spelling of a value when it has the value as an element, or a container
that contains the spelling. -/
lemma passes_array_iff (hM : M.Documented S) {elements : Doc} {v : Value}
    (hv : v.matchable = true) :
    M.Passes S (S.write (.array elements)) v ↔ (∃ e ∈ elements, e.2 = v) ∨
      ∃ e ∈ elements, e.2.isContainer = true ∧ (S.write v).containedIn (S.write e.2) = true := by
  have hscalar : v.isContainer = false := by
    cases v with
    | document fields => cases hv
    | array fields => cases hv
    | _ => rfl
  have hlist : M.Passes S (S.write (.array elements)) v ↔
      ∃ e ∈ elements, (S.write v).containedIn (S.write e.2) = true := by
    rw [Spelling.write, writeElements_eq_map, passes_arr hv]
    simp only [List.mem_map, exists_exists_and_eq_and]
  rw [hlist, ← exists_or]
  refine exists_congr fun e => ?_
  rw [← and_or_left]
  refine and_congr_right fun _ => ?_
  cases hcontainer : e.2.isContainer with
  | true =>
    refine ⟨fun h => .inr ⟨rfl, h⟩, fun h => h.elim (fun heq => ?_) And.right⟩
    rw [heq, hscalar] at hcontainer
    cases hcontainer
  | false => simpa using containedIn_write_iff hM hv hcontainer

/-- A document matches with the value at the path. -/
lemma matchesValue_iff {d : Doc} {path : Path} {v x : Value}
    (hx : (Value.document d).at path = some x) :
    MatchesValue d path v ↔
      SameValue x v ∨ ∃ elements, x = .array elements ∧ ∃ e ∈ elements, SameValue e.2 v := by
  simp [MatchesValue, hx]

/-- When what passes as one of two is what is the same: for a scalar. -/
lemma told_scalar {confused self same : Prop} (hself : self → same)
    (hsame : same → confused ∨ self) :
    (confused ∨ self ↔ same) ↔ same ∨ ¬ confused := by
  tauto

/-- When what passes as one of two is what is the same: for an array. -/
lemma told_array {self inside same : Prop} (hself : self → same) :
    (self ∨ inside ↔ same) ↔ self ∨ (same ↔ inside) := by
  tauto

/-- **Equality matches by value, where the value at the path is told apart.**  An accepted filter
`{key: v}` of a plain name selects a stored document exactly when the document matches `v` by value
at the path, if and only if what is stored at the path is told apart from `v`. -/
theorem equality_iff (hM : M.Documented S) (hL : L.Spells S) {d : Doc} {stored : Json} {key : Text}
    {v : Value} (hd : L.toExtjson d = .ok stored) (hv : v.matchable = true)
    (hname : PlainPath (splitDots key)) (h : Accepted L [(key, v)]) :
    (Selects M L [(key, v)] stored ↔ MatchesValue d (splitDots key) v) ↔
      M.TellsApart S stored (splitDots key) v ((Value.document d).at (splitDots key)) := by
  obtain rfl := hL d stored hd
  rw [selects_equals_iff hname (isSought_of_matchable hv) h, selected_equals_iff hM hL hv h]
  cases hat : (Value.document d).at (splitDots key) with
  | none =>
    have hmatches : ¬ MatchesValue d (splitDots key) v := by
      rintro ⟨x, hx, -⟩
      rw [hat] at hx
      cases hx
    simp [MariaDB.TellsApart, hmatches, passes_iff_disguises hM hv]
  | some x =>
    have hstored : jsonAt (.obj (S.writeFields d)) (splitDots key) = some (S.write x) :=
      jsonAt_write (v := .document d) hat
    have hpasses : (∃ inner, jsonAt (.obj (S.writeFields d)) (splitDots key) = some inner ∧
        M.Passes S inner v) ↔ M.Passes S (S.write x) v := by
      simp [hstored]
    rw [hpasses, matchesValue_iff hat]
    cases hcontainer : x.isContainer with
    | true =>
      have hsame := not_sameValue_of_isContainer hv hcontainer
      cases x with
      | document fields => simp [MariaDB.TellsApart, hsame, passes_iff_disguises hM hv]
      | array elements =>
        have hself : (∃ e ∈ elements, e.2 = v) → ∃ e ∈ elements, SameValue e.2 v := by
          rintro ⟨e, he, rfl⟩
          exact ⟨e, he, sameValue_self⟩
        have hmatches : (SameValue (.array elements) v ∨
            ∃ fields, Value.array elements = .array fields ∧
            ∃ e ∈ fields, SameValue e.2 v) ↔ ∃ e ∈ elements, SameValue e.2 v := by
          rw [or_iff_right hsame]
          exact ⟨fun ⟨_, heq, hmem⟩ => Value.array.inj heq ▸ hmem, fun hmem => ⟨_, rfl, hmem⟩⟩
        rw [passes_array_iff hM hv, hmatches]
        exact told_array hself
      | _ => cases hcontainer
    | false =>
      have harray : ∀ elements, x ≠ .array elements := by
        rintro elements rfl
        cases hcontainer
      have hself : x = v → SameValue x v := by
        rintro rfl
        exact sameValue_self
      have hconfuses : SameValue x v → M.Confuses S x v ∨ x = v := confuses_or_eq
      have hcondition : M.TellsApart S (.obj (S.writeFields d)) (splitDots key) v (some x) ↔
          SameValue x v ∨ ¬ M.Confuses S x v := by
        cases x with
        | document fields => cases hcontainer
        | array elements => cases hcontainer
        | _ => rfl
      have hmatches :
          (SameValue x v ∨ ∃ fields, x = .array fields ∧ ∃ e ∈ fields, SameValue e.2 v) ↔
          SameValue x v := or_iff_left fun ⟨fields, heq, _⟩ => harray fields heq
      rw [hcondition, passes_scalar_iff hM hcontainer hv, hmatches]
      exact told_scalar hself hconfuses

end Equality

/-! ## A server that reads integers -/

/-- A spelling that keeps the bits of a double. -/
def Spelling.plain : Spelling where
  double d := 'x' :: decimal d.bits.toNat
  decimal128 _ := []
  base64 data := data
  subtype _ := []

/-- The number of the digits in front. -/
def digitsInFront (s : Text) : ℕ := Nat.ofDigitChars 10 (s.takeWhile Char.isDigit) 0

/-- The number that such a spelling, or an integer in front of a text, spells. -/
def readNumber (s : Text) : Binary64 :=
  if s.head? = some 'x' then ⟨BitVec.ofNat 64 (digitsInFront s.tail)⟩
  else if s.head? = some '-' then Binary64.ofInt (-digitsInFront s.tail)
  else Binary64.ofInt (digitsInFront s)

/-- The number of a text, zero for one that has no bounds. -/
def readFinite (s : Text) : Binary64 :=
  if (readNumber s).isFinite then readNumber s else Binary64.ofInt 0

/-- Equality of what is read with a bound value. -/
def comparesIntegers : SqlValue → CompareOp → Param → Bool
  | .text s, .eq, .text t => decide (s = t)
  | .text s, .eq, .bool b => (readFinite s).numEq (Binary64.ofInt (if b then 1 else 0))
  | .text s, .eq, .int n => (readFinite s).numEq (Binary64.ofInt n.toInt)
  | .text s, .eq, .double d => (readFinite s).numEq d
  | .double d, .eq, .int n => d.numEq (Binary64.ofInt n.toInt)
  | .double d, .eq, .double e => d.numEq e
  | .unsigned m, .eq, .int n => decide ((m : ℤ) = n.toInt)
  | _, _, _ => false

/-- A server that takes the numeric prefix of a text for an integer. -/
def MariaDB.ofIntegers : MariaDB where
  boolText b := integerText (if b then 1 else 0)
  nullText := none
  castDouble := readFinite
  castUnsigned := digitsInFront
  compare := comparesIntegers
  regexp _ _ := none
  contains target candidate := candidate.containedIn target

/-- Writing documents in canonical Extended JSON. -/
def Spelling.libbson (S : Spelling) : Libbson where
  toExtjson doc := .ok (.obj (S.writeFields doc))
  fromExtjson _ := .error (failedToParse "not a document".toList)

/-- The digits in front of a number are the number. -/
lemma digitsInFront_decimal (n : ℕ) : digitsInFront (decimal n) = n := by
  have hdigits : (decimal n).takeWhile Char.isDigit = decimal n :=
    List.takeWhile_eq_self_iff.2 fun _ => isDigit_of_mem_decimal
  rw [digitsInFront, hdigits]
  exact Nat.ofDigitChars_ten_toDigits

/-- A digit is in front of a number. -/
lemma isDigit_of_head?_decimal {n : ℕ} {c : Char} (h : (decimal n).head? = some c) :
    c.isDigit = true :=
  isDigit_of_mem_decimal (List.mem_of_mem_head? h)

/-- A number has no sign in front. -/
lemma readNumber_decimal (n : ℕ) : readNumber (decimal n) = Binary64.ofInt n := by
  have hplain : (decimal n).head? ≠ some 'x' := fun h =>
    absurd (isDigit_of_head?_decimal h) (by decide)
  have hsign : (decimal n).head? ≠ some '-' := fun h =>
    absurd (isDigit_of_head?_decimal h) (by decide)
  rw [readNumber, if_neg hplain, if_neg hsign, digitsInFront_decimal]

/-- The number of an integer's text. -/
lemma readNumber_integerText (n : ℤ) : readNumber (integerText n) = Binary64.ofInt n := by
  by_cases hn : n < 0
  · have hnegative : (-n.natAbs : ℤ) = n := by omega
    have htext : integerText n = '-' :: decimal n.natAbs := if_pos hn
    have hplain : ('-' :: decimal n.natAbs).head? ≠ some 'x' := by simp
    have hsign : ('-' :: decimal n.natAbs).head? = some '-' := rfl
    rw [htext, readNumber, if_neg hplain, if_pos hsign, List.tail_cons, digitsInFront_decimal,
      hnegative]
  · have hnonnegative : (n.natAbs : ℤ) = n := by omega
    have htext : integerText n = decimal n.natAbs := if_neg hn
    rw [htext, readNumber_decimal, hnonnegative]

/-- The text of a double is read back. -/
lemma readNumber_double (d : Binary64) : readNumber (Spelling.plain.double d) = d := by
  have hplain : (Spelling.plain.double d).head? = some 'x' := rfl
  have htail : (Spelling.plain.double d).tail = decimal d.bits.toNat := rfl
  rw [readNumber, if_pos hplain, htail, digitsInFront_decimal, BitVec.ofNat_toNat,
    BitVec.setWidth_eq]

/-- The number of a 64-bit integer has bounds. -/
lemma isFinite_ofInt64 (n : Int64) : (Binary64.ofInt n.toInt).isFinite = true := by
  have hlow := n.le_toInt
  have hhigh := n.toInt_lt
  have hbound : n.toInt.natAbs < 2 ^ 64 := by omega
  exact (Binary64.units_ofInt_nearest hbound).2

/-- A number that has bounds is the number of its text. -/
lemma readFinite_of_isFinite {s : Text} (h : (readNumber s).isFinite = true) :
    readFinite s = readNumber s := if_pos h

/-- The number of a text has bounds. -/
lemma isFinite_readFinite (s : Text) : (readFinite s).isFinite = true := by
  by_cases h : (readNumber s).isFinite = true
  · rwa [readFinite_of_isFinite h]
  · rw [readFinite, if_neg h]
    exact isFinite_ofInt64 0

/-- What the server takes a text for. -/
lemma MariaDB.ofIntegers_castDouble (s : Text) : MariaDB.ofIntegers.castDouble s = readFinite s :=
  rfl

/-- How the server compares. -/
lemma MariaDB.ofIntegers_compare : MariaDB.ofIntegers.compare = comparesIntegers := rfl

/-- The server does what is documented. -/
lemma MariaDB.ofIntegers_documented : MariaDB.ofIntegers.Documented .plain where
  boolText _ := rfl
  castDouble_integer n := by
    have hread := readNumber_integerText n.toInt
    rw [MariaDB.ofIntegers_castDouble, readFinite_of_isFinite (hread ▸ isFinite_ofInt64 n), hread]
  castDouble_double d hd := by
    have hread := readNumber_double d
    rw [MariaDB.ofIntegers_castDouble, readFinite_of_isFinite (hread.symm ▸ hd), hread]
  castDouble_finite := isFinite_readFinite
  double_inj d e _ h := by
    have hbits := decimal_inj (List.cons.inj h).2
    cases d
    cases e
    exact congrArg Binary64.mk (BitVec.eq_of_toNat_eq hbits)
  castUnsigned_decimal n _ := digitsInFront_decimal n
  compare_bool s b := by
    rw [MariaDB.ofIntegers_castDouble, MariaDB.ofIntegers_compare, comparesIntegers]
  compare_int d _ n := by rw [MariaDB.ofIntegers_compare, comparesIntegers]
  compare_double d e _ _ := by rw [MariaDB.ofIntegers_compare, comparesIntegers]
  compare_unsigned m _ n := by rw [MariaDB.ofIntegers_compare, comparesIntegers]
  contains _ _ := rfl

/-- The writer writes canonical Extended JSON. -/
lemma Spelling.libbson_spells (S : Spelling) : S.libbson.Spells S := by
  intro doc json h
  exact (Except.ok.inj h).symm

/-- An integer of one type in an array of two, sought as an integer of that type. -/
theorem equality_iff_element :
    let d := [("tags".toList, Value.array (makeArray [.utf8 "a".toList, .int32 3]))]
    Selects .ofIntegers Spelling.plain.libbson [("tags".toList, .int32 3)]
        (.obj (Spelling.plain.writeFields d)) ↔
      MatchesValue d ["tags".toList] (.int32 3) := by
  intro d
  have haccepted : Accepted Spelling.plain.libbson [("tags".toList, .int32 3)] := ⟨_, rfl⟩
  have hiff := equality_iff MariaDB.ofIntegers_documented Spelling.plain.libbson_spells
    (d := d) (v := .int32 3) rfl rfl (by decide) haccepted
  exact hiff.2 (.inl ⟨("1".toList, .int32 3), by decide, rfl⟩)

/-- An integer in an array, sought as an integer of the other type: the document matches, and the
filter does not select it. -/
theorem equality_misses_element :
    let d := [("tags".toList, Value.array (makeArray [.int32 3]))]
    MariaDB.ofIntegers.Documented .plain ∧ Spelling.plain.libbson.Spells .plain ∧
      (Value.int64 3).matchable = true ∧
      Accepted Spelling.plain.libbson [("tags".toList, .int64 3)] ∧
      MatchesValue d ["tags".toList] (.int64 3) ∧
      ¬ Selects .ofIntegers Spelling.plain.libbson [("tags".toList, .int64 3)]
        (.obj (Spelling.plain.writeFields d)) := by
  intro d
  refine ⟨MariaDB.ofIntegers_documented, Spelling.plain.libbson_spells, rfl, ⟨_, rfl⟩, ?_, ?_⟩
  · exact ⟨_, rfl, .inr ⟨_, rfl, _, List.mem_cons_self, rfl⟩⟩
  · rw [selects_iff_selected (by decide)]
    rintro ⟨cond, hcond, -, heval⟩
    obtain rfl := Except.ok.inj hcond
    exact absurd heval (by decide)

end Chimera
