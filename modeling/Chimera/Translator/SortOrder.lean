import Chimera.Foundations.Comparison
import Chimera.Translator.SetUpdates
import Chimera.Translator.Sort
import Mathlib.Data.List.Lex
import Mathlib.Data.Prod.Lex

/-!
# The order of values

`compare_values` is a total preorder of the values built of certain scalars exactly when the scalars
are harmless: none of them is a `Decimal128`, which is not compared at all, or of a type that is
read as a document without being one; regular expressions, of which only one may be less than
another, have one pattern; beside a NaN, which ties with every number, all numbers are one; and no
dates lie so far apart that their difference overflows and they order in a circle.  Then the
comparator of `sort_documents` is a strict weak order, and descending is the reverse of ascending.
-/

namespace Chimera

open Comparison

/-! ## Values built of scalars -/

/-- The value is built of scalars of one class with arrays that have keys of another. -/
inductive Value.Over (P : Value → Prop) (K : List Text → Prop) : Value → Prop
  | scalar {v : Value} (h : v.subdocument = none) (hv : P v) : Value.Over P K v
  | document {fields : Doc} (h : ∀ field ∈ fields, Value.Over P K field.2) :
    Value.Over P K (.document fields)
  | array {fields : Doc} (hkeys : K (fields.map Prod.fst))
    (h : ∀ field ∈ fields, Value.Over P K field.2) : Value.Over P K (.array fields)

namespace Value.Over

variable {P : Value → Prop} {K : List Text → Prop} {v : Value} {fields : Doc}

/-- A scalar that values are built of belongs to the class. -/
lemma of_scalar (h : v.Over P K) (hv : v.subdocument = none) : P v := by
  cases h with
  | scalar _ h => exact h
  | document _ | array _ _ => cases hv

/-- The members of what is built of scalars are built of them. -/
lemma of_subdocument (h : v.Over P K) (hv : v.subdocument = some fields) :
    ∀ field ∈ fields, field.2.Over P K := by
  cases h with
  | scalar hnone _ =>
    rw [hnone] at hv
    cases hv
  | document h | array _ h =>
    obtain rfl := Option.some.inj hv
    exact h

/-- What is built of scalars of a class is built of scalars of a larger one. -/
lemma mono {Q : Value → Prop} (h : v.Over P K) (hPQ : ∀ v, P v → Q v) : v.Over Q K := by
  induction h with
  | scalar h hv => exact .scalar h (hPQ _ hv)
  | document _ ih => exact .document ih
  | array hkeys _ ih => exact .array hkeys ih

end Value.Over

/-! ## Bytes -/

/-- The bytes of a text, as numbers. -/
def byteNumbers (s : Text) : List ℕ := s.map Char.toNat

/-- Texts have different bytes. -/
lemma byteNumbers_inj {s t : Text} : byteNumbers s = byteNumbers t ↔ s = t := by
  constructor
  · intro h
    exact List.map_injective_iff.2 (fun _ _ h => Char.toNat_inj.1 h) h
  · exact congrArg byteNumbers

/-- Texts are compared by their bytes. -/
lemma compareBytes_cases (s t : Text) :
    (compareBytes s t = -1 ∧ byteNumbers s < byteNumbers t) ∨ (compareBytes s t = 0 ∧ s = t) ∨
      (compareBytes s t = 1 ∧ byteNumbers t < byteNumbers s) := by
  induction s generalizing t with
  | nil =>
    cases t with
    | nil => exact .inr (.inl ⟨rfl, rfl⟩)
    | cons b bs => exact .inl ⟨rfl, List.nil_lt_cons _ _⟩
  | cons a as ih =>
    cases t with
    | nil => exact .inr (.inr ⟨rfl, List.nil_lt_cons _ _⟩)
    | cons b bs =>
      simp only [compareBytes, byteNumbers, List.map_cons, List.cons_lt_cons_iff]
      rcases lt_trichotomy a.toNat b.toNat with hlt | heq | hgt
      · exact .inl ⟨if_pos hlt, .inl hlt⟩
      · rw [heq, if_neg (lt_irrefl _), if_neg (lt_irrefl _)]
        rcases ih bs with ⟨hn, h⟩ | ⟨hn, h⟩ | ⟨hn, h⟩
        · exact .inl ⟨hn, .inr ⟨rfl, h⟩⟩
        · exact .inr (.inl ⟨hn, by rw [Char.toNat_inj.1 heq, h]⟩)
        · exact .inr (.inr ⟨hn, .inr ⟨rfl, h⟩⟩)
      · exact .inr (.inr ⟨by rw [if_neg hgt.not_gt, if_pos hgt], .inl hgt⟩)

/-- Texts tie when they are the same. -/
lemma compareBytes_eq_zero_iff {s t : Text} : compareBytes s t = 0 ↔ s = t := by
  rcases compareBytes_cases s t with ⟨hn, h⟩ | ⟨hn, h⟩ | ⟨hn, h⟩
  · refine iff_of_false (by omega) ?_
    rintro rfl
    exact lt_irrefl _ h
  · exact iff_of_true hn h
  · refine iff_of_false (by omega) ?_
    rintro rfl
    exact lt_irrefl _ h

/-- The comparison of texts is that of their bytes. -/
lemma byKey_byteNumbers (s t : Text) :
    (byKey byteNumbers s t : Except TranslatorError ℤ) = .ok (compareBytes s t) := by
  unfold byKey
  rcases compareBytes_cases s t with ⟨hn, h⟩ | ⟨hn, rfl⟩ | ⟨hn, h⟩
  · rw [hn, if_pos h]
  · rw [hn, if_neg (lt_irrefl _), if_neg (lt_irrefl _)]
  · rw [hn, if_neg h.not_gt, if_pos h]

/-! ## Ranks -/

/-- The sign of a comparison that is given by two relations. -/
lemma orderSign_decide (p q : Prop) [Decidable p] [Decidable q] :
    orderSign (decide p) (decide q) = if p then -1 else if q then 1 else 0 := by
  simp [orderSign]

/-- Values of different ranks are compared by their ranks. -/
lemma compareValues_of_rank_ne {a b : Value} (h : typeRank a ≠ typeRank b) :
    compareValues a b = byKey typeRank a b := by
  cases a with
  | document fields =>
    cases b with
    | document _ => exact absurd rfl h
    | _ => rfl
  | array fields =>
    cases b with
    | array _ => exact absurd rfl h
    | _ => rfl
  | _ =>
    unfold compareValues
    rw [if_pos h, byKey, orderSign_decide]

/-- Values are compared by their ranks first. -/
lemma compareValues_eq_andThen :
    compareValues = andThen (byKey typeRank) compareValues := by
  funext a b
  by_cases h : typeRank a = typeRank b
  · exact (andThen_of_tie (by simp [byKey, h])).symm
  · rw [compareValues_of_rank_ne h]
    obtain ⟨n, hn, hkey⟩ : ∃ n : ℤ, n ≠ 0 ∧
        (byKey typeRank a b : Except TranslatorError ℤ) = .ok n := by
      rcases lt_or_gt_of_ne h with hlt | hgt
      · exact ⟨-1, by decide, congrArg Except.ok (if_pos hlt)⟩
      · exact ⟨1, by decide, congrArg Except.ok ((if_neg hgt.not_gt).trans (if_pos hgt))⟩
    rw [hkey, andThen_of_ne hkey hn]

/-- What ties by rank has the same rank. -/
lemma byKey_tie_iff {a b : Value} :
    (byKey typeRank a b : Except TranslatorError ℤ) = .ok 0 ↔ typeRank b = typeRank a := by
  unfold byKey
  rcases lt_trichotomy (typeRank a) (typeRank b) with h | h | h
  · simp [h, h.ne']
  · simp [h]
  · simp [h, h.not_gt, h.ne]

/-! ## Harmless scalars -/

/-- The value is a number, and not one of `Decimal128`, that is not a number. -/
def Value.comparesAsNaN (v : Value) : Bool := valueIsNumeric v && v.toDouble.isNaN

/-- The scalars of a class are compared consistently. -/
structure Harmless (P : Value → Prop) : Prop where
  /-- There is no `Decimal128`, which has no double. -/
  decimal : ∀ bits, ¬ P (.decimal128 bits)
  /-- There is no value that is ranked with the documents without being one. -/
  ranked : ∀ v, P v → typeRank v = 4 → v.subdocument.isSome
  /-- All regular expressions have one pattern. -/
  regex : ∀ p o q o', P (.regex p o) → P (.regex q o') → p = q
  /-- Beside a NaN all numbers are one. -/
  nan : ∀ a b c, P a → P b → P c → a.comparesAsNaN = true → valueIsNumeric b = true →
    valueIsNumeric c = true → b.comparesAsNaN = false →
    c.comparesAsNaN = false → b.toDouble.units = c.toDouble.units
  /-- No two dates are half a circle apart. -/
  antipodes : ∀ a b : Int64, P (.dateTime a) → P (.dateTime b) → b.toInt - a.toInt ≠ 2 ^ 63
  /-- No three dates go round the circle. -/
  circle : ∀ a b c : Int64, P (.dateTime a) → P (.dateTime b) → P (.dateTime c) →
    a.toInt < b.toInt → b.toInt < c.toInt → b.toInt - a.toInt < 2 ^ 63 →
    c.toInt - b.toInt < 2 ^ 63 → c.toInt - a.toInt < 2 ^ 63

section Ranks

variable {P : Value → Prop} {K : List Text → Prop}

/-- The values of one rank that are built of the scalars of a class. -/
def Ranked (P : Value → Prop) (K : List Text → Prop) (n rank : ℕ) (v : Value) : Prop :=
  (v.Over P K ∧ sizeOf v < n) ∧ typeRank v = rank

/-- Text, as strings and symbols have it. -/
def Value.textOf : Value → Text
  | .utf8 s | .symbol s => s
  | _ => []

/-- The bytes of binary data. -/
def Value.bytesOf : Value → Text
  | .binary _ data => data
  | _ => []

/-- The order of scalars that are not numbers, texts or dates, by a number. -/
def Value.ordinal : Value → ℕ
  | .oid bytes => bytes.toNat
  | .bool b => b.toNat
  | .timestamp t i => t.toNat * 2 ^ 32 + i.toNat
  | _ => 0

/-- A comparison of numbers is that of their doubles. -/
lemma compareValues_number {a b : Value} (ha : valueIsNumeric a = true)
    (hb : valueIsNumeric b = true) : compareValues a b =
      .ok (orderSign (a.toDouble.numLt b.toDouble) (b.toDouble.numLt a.toDouble)) := by
  cases a with
  | int32 _ | int64 _ | double _ =>
    cases b with
    | int32 _ | int64 _ | double _ =>
      unfold compareValues
      rw [toDouble_of_ok rfl, toDouble_of_ok rfl]
      rfl
    | _ => cases hb
  | _ => cases ha

/-- Texts are compared by their bytes. -/
lemma compareValues_text {a b : Value} (ha : typeRank a = 3) (hb : typeRank b = 3) :
    compareValues a b = byKey (fun v => byteNumbers v.textOf) a b := by
  cases a with
  | utf8 s | symbol s =>
    cases b with
    | utf8 t | symbol t => exact (byKey_byteNumbers s t).symm
    | _ => cases hb
  | _ => cases ha

/-- Binary data are compared by their bytes. -/
lemma compareValues_binary {a b : Value} (ha : typeRank a = 6) (hb : typeRank b = 6) :
    compareValues a b = byKey (fun v => byteNumbers v.bytesOf) a b := by
  cases a with
  | binary s x =>
    cases b with
    | binary t y => exact (byKey_byteNumbers x y).symm
    | _ => cases hb
  | _ => cases ha

/-- Timestamps are compared by their seconds, and then by their increments. -/
lemma compareValues_timestamp (t i u j : UInt32) :
    compareValues (.timestamp t i) (.timestamp u j) =
      byKey Value.ordinal (.timestamp t i) (.timestamp u j) := by
  have hi := i.toNat_lt
  have hj := j.toNat_lt
  change Except.ok (if t ≠ u then orderSign (decide (t < u)) (decide (u < t))
    else orderSign (decide (i < j)) (decide (j < i))) = _
  simp only [byKey, Value.ordinal, orderSign_decide, UInt32.lt_iff_toNat_lt, ne_eq,
    ← UInt32.toNat_inj]
  congr 1
  split_ifs <;> omega

/-- Ids, booleans and timestamps, and what has only one value, are compared by an ordinal. -/
lemma compareValues_ordinal {a b : Value} (h : typeRank a = typeRank b)
    (hrank : typeRank a ∈ [0, 1, 7, 8, 10, 12]) : compareValues a b = byKey Value.ordinal a b := by
  cases a with
  | minKey | maxKey | null | undefined =>
    cases b with
    | minKey | maxKey | null | undefined => first | rfl | cases h
    | _ => cases h
  | oid x =>
    cases b with
    | oid y => exact congrArg Except.ok (orderSign_decide _ _)
    | _ => cases h
  | bool x =>
    cases b with
    | bool y => cases x <;> cases y <;> rfl
    | _ => cases h
  | timestamp t i =>
    cases b with
    | timestamp u j => exact compareValues_timestamp t i u j
    | _ => cases h
  | _ =>
    simp only [List.mem_cons, List.not_mem_nil, or_false] at hrank
    rcases hrank with h | h | h | h | h | h <;> cases h

/-- Regular expressions of one pattern tie. -/
lemma compareValues_regex (hP : Harmless P) {a b : Value} (ha : P a) (hb : P b)
    (hra : typeRank a = 11) (hrb : typeRank b = 11) :
    compareValues a b = byKey Value.ordinal a b := by
  cases a with
  | regex p o =>
    cases b with
    | regex q o' =>
      have heq := hP.regex p o q o' ha hb
      change Except.ok (if compareBytes p q < 0 then -1 else 0) = _
      rw [compareBytes_eq_zero_iff.2 heq, if_neg (lt_irrefl 0)]
      rfl
    | _ => cases hrb
  | _ => cases hra

/-- The order of numbers: by their doubles, or all alike where one is NaN. -/
lemma compareValues_numbers (hP : Harmless P) : ∃ key : Value → ℤ, ∀ a b, P a → P b →
    typeRank a = 2 → typeRank b = 2 → compareValues a b = byKey key a b := by
  have hnumeric (v : Value) (hv : P v) (hrank : typeRank v = 2) : valueIsNumeric v = true := by
    cases v with
    | int32 _ | int64 _ | double _ => rfl
    | decimal128 bits => exact absurd hv (hP.decimal bits)
    | _ => cases hrank
  by_cases hnan : ∃ v, P v ∧ v.comparesAsNaN = true
  · obtain ⟨v, hv, hvnan⟩ := hnan
    refine ⟨fun _ => 0, fun a b ha hb hra hrb => ?_⟩
    have hna := hnumeric a ha hra
    have hnb := hnumeric b hb hrb
    rw [compareValues_number hna hnb]
    have hless (a b : Value) (ha : P a) (hb : P b) (hna : valueIsNumeric a = true)
        (hnb : valueIsNumeric b = true) : a.toDouble.numLt b.toDouble = false := by
      cases haNaN : a.comparesAsNaN with
      | true =>
        have h : a.toDouble.isNaN = true := by simpa [Value.comparesAsNaN, hna] using haNaN
        simp [Binary64.numLt, h]
      | false =>
        cases hbNaN : b.comparesAsNaN with
        | true =>
          have h : b.toDouble.isNaN = true := by simpa [Value.comparesAsNaN, hnb] using hbNaN
          simp [Binary64.numLt, h]
        | false =>
          simp [Binary64.numLt, hP.nan v a b hv ha hb hvnan hna hnb haNaN hbNaN]
    rw [hless a b ha hb hna hnb, hless b a hb ha hnb hna]
    rfl
  · refine ⟨fun v => v.toDouble.units, fun a b ha hb hra hrb => ?_⟩
    have hna := hnumeric a ha hra
    have hnb := hnumeric b hb hrb
    have hnumber (v : Value) (hv : P v) (hn : valueIsNumeric v = true) :
        v.toDouble.isNaN = false := by
      rw [← Bool.not_eq_true]
      exact fun h => hnan ⟨v, hv, by rw [Value.comparesAsNaN, hn, h]; rfl⟩
    rw [compareValues_number hna hnb]
    simp only [Binary64.numLt, hnumber a ha hna, hnumber b hb hnb, Bool.not_false, Bool.true_and,
      orderSign_decide]
    rfl

/-- The sign of a difference of dates, which is taken modulo 2^64. -/
def circleSign (x : ℤ) : ℤ :=
  if x < -2 ^ 63 then 1 else if x < 0 then -1 else if x = 0 then 0 else if x < 2 ^ 63 then 1 else -1

/-- A date is not above another when it is at most half a circle before it. -/
lemma circleSign_nonpos_iff {x : ℤ} :
    circleSign x ≤ 0 ↔ (-2 ^ 63 ≤ x ∧ x ≤ 0) ∨ 2 ^ 63 ≤ x := by
  unfold circleSign
  split_ifs <;> omega

/-- Dates are compared by their difference. -/
lemma compareValues_date (a b : Int64) :
    compareValues (.dateTime a) (.dateTime b) = .ok (circleSign (a.toInt - b.toInt)) := by
  have hla := a.le_toInt
  have hha := a.toInt_lt
  have hlb := b.le_toInt
  have hhb := b.toInt_lt
  have hsub := Int64.toInt_sub a b
  rw [Int.bmod_def] at hsub
  change Except.ok (orderSign (decide (a - b < 0)) (decide (0 < a - b))) = _
  simp only [orderSign_decide, Int64.lt_iff_toInt_lt, Int64.toInt_zero, circleSign]
  congr 1
  split_ifs at hsub ⊢ <;> omega

/-- Harmless dates are ordered. -/
lemma orders_date (hP : Harmless P) :
    Orders compareValues fun v => P v ∧ typeRank v = 9 := by
  have hdate (v : Value) (h : P v ∧ typeRank v = 9) : ∃ a : Int64, v = .dateTime a ∧
      P (.dateTime a) ∧ -2 ^ 63 ≤ a.toInt ∧ a.toInt < 2 ^ 63 := by
    obtain ⟨hv, hrank⟩ := h
    cases v with
    | dateTime a => exact ⟨a, rfl, hv, a.le_toInt, a.toInt_lt⟩
    | _ => cases hrank
  refine ⟨fun v w hv hw => ?_, fun v hv => ?_, fun v w m n hv hw hm hn => ?_,
    fun u v w l m n hu hv hw hl hm hn hl₀ hm₀ => ?_⟩
  · obtain ⟨a, rfl, -⟩ := hdate v hv
    obtain ⟨b, rfl, -⟩ := hdate w hw
    exact ⟨_, compareValues_date a b⟩
  · obtain ⟨a, rfl, -⟩ := hdate v hv
    rw [compareValues_date, sub_self]
    rfl
  · obtain ⟨a, rfl, ha, hla, hha⟩ := hdate v hv
    obtain ⟨b, rfl, hb, hlb, hhb⟩ := hdate w hw
    have hab := hP.antipodes a b ha hb
    have hba := hP.antipodes b a hb ha
    rw [compareValues_date, circleSign] at hm hn
    obtain rfl := Except.ok.inj hm
    obtain rfl := Except.ok.inj hn
    split_ifs <;> first | rfl | omega
  · obtain ⟨a, rfl, ha, hla, hha⟩ := hdate u hu
    obtain ⟨b, rfl, hb, hlb, hhb⟩ := hdate v hv
    obtain ⟨c, rfl, hc, hlc, hhc⟩ := hdate w hw
    rw [compareValues_date] at hl hm hn
    obtain rfl := Except.ok.inj hl
    obtain rfl := Except.ok.inj hm
    obtain rfl := Except.ok.inj hn
    have habc := hP.circle a b c ha hb hc
    have hbca := hP.circle b c a hb hc ha
    have hcab := hP.circle c a b hc ha hb
    have hab := hP.antipodes a b ha hb
    have hbc := hP.antipodes b c hb hc
    have hac := hP.antipodes a c ha hc
    rw [circleSign_nonpos_iff] at hl₀ hm₀ ⊢
    omega

/-- The comparison of two fields: in a document the names first. -/
def compareField : Bool → Text × Value → Text × Value → Except TranslatorError ℤ
  | true => fun f g => compareValues f.2 g.2
  | false => andThen (byKey fun f => byteNumbers f.1) fun f g => compareValues f.2 g.2

/-- Documents and arrays are compared field by field. -/
lemma compareFields_eq_lex (asArray : Bool) (as bs : Doc) :
    compareFields as bs asArray = lex (compareField asArray) as bs := by
  induction as generalizing bs with
  | nil => cases bs <;> rfl
  | cons f as ih =>
    obtain ⟨k, v⟩ := f
    cases bs with
    | nil => rfl
    | cons g bs =>
      obtain ⟨k', v'⟩ := g
      have hkey : (byKey (fun f : Text × Value => byteNumbers f.1) (k, v) (k', v') :
          Except TranslatorError ℤ) = .ok (compareBytes k k') := byKey_byteNumbers k k'
      rw [compareFields]
      split
      · next hne =>
        simp only [Bool.and_eq_true, Bool.not_eq_true', decide_eq_true_eq] at hne
        obtain ⟨rfl, hne⟩ := hne
        have hsign : compareBytes k k' ≠ 0 := fun h => hne (compareBytes_eq_zero_iff.1 h)
        exact (lex_of_ne (andThen_of_ne hkey hsign) hsign).symm
      · next heq =>
        have hfield : compareField asArray (k, v) (k', v') = compareValues v v' := by
          cases asArray with
          | true => rfl
          | false =>
            obtain rfl : k = k' := by simpa using heq
            rw [compareBytes_eq_zero_iff.2 rfl] at hkey
            exact (andThen_of_tie hkey :
              andThen _ (fun f g : Text × Value => compareValues f.2 g.2) (k, v) (k, v') = _)
        rw [lex, hfield, ih bs]
        cases compareValues v v' with
        | error e => rfl
        | ok n => rcases n with (_ | n) | n <;> rfl

/-- Where values are ordered, so are the documents and the arrays of them. -/
lemma orders_fields {S : Value → Prop} (h : Orders compareValues S) (asArray : Bool) :
    Orders (fun as bs => compareFields as bs asArray) fun as : Doc => ∀ f ∈ as, S f.2 := by
  have hvalue : Orders (fun f g : Text × Value => compareValues f.2 g.2) fun f => S f.2 :=
    h.comap Prod.snd
  have hfield : Orders (compareField asArray) fun f : Text × Value => S f.2 := by
    cases asArray with
    | true => exact hvalue
    | false =>
      exact (orders_byKey (fun f : Text × Value => byteNumbers f.1) _).andThen
        fun a _ => hvalue.mono fun b hb => hb.1
  exact hfield.lex.congr fun as bs _ _ => compareFields_eq_lex asArray as bs

/-- A member is smaller than what it is a member of. -/
lemma sizeOf_lt_of_subdocument {v : Value} {fields : Doc} (hv : v.subdocument = some fields)
    {field : Text × Value} (hfield : field ∈ fields) : sizeOf field.2 < sizeOf v := by
  have hlist := List.sizeOf_lt_of_mem hfield
  obtain ⟨k, w⟩ := field
  have hpair : sizeOf (k, w) = 1 + sizeOf k + sizeOf w := rfl
  cases v with
  | document fs | array fs =>
    obtain rfl := Option.some.inj hv
    simp only [Value.document.sizeOf_spec, Value.array.sizeOf_spec]
    omega
  | _ => cases hv

/-- Documents, or arrays, are ordered where smaller values are. -/
lemma orders_nested {n : ℕ}
    (ih : Orders compareValues fun v => v.Over P K ∧ sizeOf v < n) {m : Doc → Value}
    (asArray : Bool) (hm : ∀ fields, (m fields).subdocument = some fields)
    (hcompare : ∀ as bs, compareValues (m as) (m bs) = compareFields as bs asArray)
    {S : Value → Prop}
    (hS : ∀ v, S v → (v.Over P K ∧ sizeOf v < n + 1) ∧ ∃ fields, v = m fields) :
    Orders compareValues S := by
  have hfields := (orders_fields ih asArray).comap fun v : Value => Value.fieldsOf (some v)
  have hof (fields : Doc) : Value.fieldsOf (some (m fields)) = fields := by
    rw [Value.fieldsOf, Option.bind_some, hm, Option.getD_some]
  refine (hfields.mono fun v hv f hf => ?_).congr fun v w hv hw => ?_
  · obtain ⟨⟨hover, hsize⟩, fields, rfl⟩ := hS v hv
    rw [hof] at hf
    have hlt := sizeOf_lt_of_subdocument (hm fields) hf
    exact ⟨hover.of_subdocument (hm fields) f hf, by omega⟩
  · obtain ⟨-, as, rfl⟩ := hS v hv
    obtain ⟨-, bs, rfl⟩ := hS w hw
    rw [hof, hof, hcompare]

/-- The values of one rank are ordered where smaller values are. -/
lemma orders_ranked (hP : Harmless P) {n : ℕ}
    (ih : Orders compareValues fun v => v.Over P K ∧ sizeOf v < n) (rank : ℕ) :
    Orders compareValues (Ranked P K (n + 1) rank) := by
  have hscalar (v : Value) (hv : Ranked P K (n + 1) rank v) (h₄ : rank ≠ 4) (h₅ : rank ≠ 5) :
      P v := by
    obtain ⟨⟨hover, -⟩, hrank⟩ := hv
    refine hover.of_scalar ?_
    cases v with
    | document _ => exact absurd hrank.symm h₄
    | array _ => exact absurd hrank.symm h₅
    | _ => rfl
  by_cases h₄ : rank = 4
  · refine orders_nested ih (m := .document) false (fun _ => rfl) (fun _ _ => rfl)
      fun v hv => ⟨hv.1, ?_⟩
    obtain ⟨⟨hover, -⟩, hrank⟩ := hv
    cases hover with
    | document h => exact ⟨_, rfl⟩
    | array _ h =>
      rw [h₄] at hrank
      cases hrank
    | scalar hnone hp =>
      have hsome := hP.ranked v hp (hrank.trans h₄)
      rw [hnone] at hsome
      cases hsome
  by_cases h₅ : rank = 5
  · refine orders_nested ih (m := .array) true (fun _ => rfl) (fun _ _ => rfl)
      fun v hv => ⟨hv.1, ?_⟩
    obtain ⟨-, hrank⟩ := hv
    rw [h₅] at hrank
    cases v with
    | array fields => exact ⟨fields, rfl⟩
    | _ => cases hrank
  have hkey {β : Type} [LinearOrder β] (key : Value → β)
      (h : ∀ a b, P a → P b → typeRank a = rank → typeRank b = rank →
        compareValues a b = byKey key a b) : Orders compareValues (Ranked P K (n + 1) rank) :=
    (orders_byKey key _).congr fun a b ha hb =>
      h a b (hscalar a ha h₄ h₅) (hscalar b hb h₄ h₅) ha.2 hb.2
  by_cases h₂ : rank = 2
  · obtain ⟨key, hnumbers⟩ := compareValues_numbers hP
    exact hkey key fun a b ha hb hra hrb => hnumbers a b ha hb (hra.trans h₂) (hrb.trans h₂)
  by_cases h₃ : rank = 3
  · exact hkey _ fun a b _ _ hra hrb => compareValues_text (hra.trans h₃) (hrb.trans h₃)
  by_cases h₆ : rank = 6
  · exact hkey _ fun a b _ _ hra hrb => compareValues_binary (hra.trans h₆) (hrb.trans h₆)
  by_cases h₉ : rank = 9
  · exact (orders_date hP).mono fun v hv => ⟨hscalar v hv h₄ h₅, hv.2.trans h₉⟩
  by_cases h₁₁ : rank = 11
  · exact hkey _ fun a b ha hb hra hrb =>
      compareValues_regex hP ha hb (hra.trans h₁₁) (hrb.trans h₁₁)
  refine hkey _ fun a b _ _ hra hrb => compareValues_ordinal (hra.trans hrb.symm) ?_
  have hle : typeRank a ≤ 12 := by cases a <;> exact Nat.le_of_ble_eq_true rfl
  simp only [List.mem_cons, List.not_mem_nil, or_false]
  omega

/-- **Values built of harmless scalars are ordered.** -/
theorem orders_over (hP : Harmless P) : Orders compareValues (Value.Over P K) := by
  have hlevel (n : ℕ) : Orders compareValues fun v => v.Over P K ∧ sizeOf v < n := by
    induction n with
    | zero =>
      have hnone (v : Value) : ¬ (v.Over P K ∧ sizeOf v < 0) := fun hv => Nat.not_lt_zero _ hv.2
      exact ⟨fun a b ha => absurd ha (hnone a), fun a ha => absurd ha (hnone a),
        fun a b m n ha => absurd ha (hnone a), fun a b c l m n ha => absurd ha (hnone a)⟩
    | succ n ih =>
      rw [compareValues_eq_andThen]
      refine (orders_byKey typeRank _).andThen fun a ha => ?_
      exact (orders_ranked hP ih (typeRank a)).mono fun b hb => ⟨hb.1, byKey_tie_iff.1 hb.2⟩
  refine (Orders.of_levels ?_ hlevel).mono fun v hv => ⟨sizeOf v + 1, hv, Nat.lt_succ_self _⟩
  exact fun m n v hmn hv => ⟨hv.1, hv.2.trans_le hmn⟩

end Ranks

/-! ## Sorting documents -/

/-- What a document is sorted by: an absent field sorts as null. -/
def sortValue (d : Doc) (path : Path) : Value := (pathGet d path).getD .null

/-- The comparison of documents by the keys of a specification. -/
def compareKeys : List SortKey → Doc → Doc → Except TranslatorError ℤ
  | [] => fun _ _ => .ok 0
  | key :: keys => andThen (if key.ascending then
      fun d e => compareValues (sortValue d key.path) (sortValue e key.path)
    else turned fun d e => compareValues (sortValue d key.path) (sortValue e key.path))
    (compareKeys keys)

/-- A document sorts before another when it compares below it. -/
lemma sortsBefore_eq (keys : List SortKey) :
    (fun d e => sortsBefore d e keys) = before (compareKeys keys) := by
  funext d e
  induction keys with
  | nil => rfl
  | cons key keys ih =>
    obtain ⟨path, ascending⟩ := key
    rw [sortsBefore, ih, before, before, compareKeys, andThen]
    change (compareValues (sortValue d path) (sortValue e path) >>= _) = _
    cases hcmp : compareValues (sortValue d path) (sortValue e path) with
    | error e =>
      cases ascending <;> simp [turned, hcmp, Except.map, bind, Except.bind]
    | ok n =>
      by_cases hn : n = 0
      · obtain rfl := hn
        cases ascending <;> simp [turned, hcmp, Except.map, bind, Except.bind]
      · have hneg : -n ≠ 0 := by omega
        cases ascending with
        | true =>
          simp only [if_true, hcmp]
          split
          · next h => exact absurd (Except.ok.inj h) hn
          · simp [bind, Except.bind, hn, Except.map, pure, Except.pure]
        | false =>
          have hturned : turned (fun d e => compareValues (sortValue d path) (sortValue e path)) d e
              = .ok (-n) := turned_eq_ok.2 (by rw [Int.neg_neg, hcmp])
          simp only [Bool.false_eq_true, if_false, hturned]
          split
          · next h => exact absurd (Except.ok.inj h) hneg
          · simp [bind, Except.bind, hn, Except.map, pure, Except.pure]

variable {P : Value → Prop} {K : List Text → Prop}

/-- Documents whose fields are built of the scalars of a class. -/
def DocOver (P : Value → Prop) (K : List Text → Prop) (d : Doc) : Prop :=
  ∀ field ∈ d, field.2.Over P K

/-- What is read in a document built of scalars is built of them. -/
lemma over_of_pathGet {d : Doc} {p : Path} {v : Value} (hd : DocOver P K d)
    (hv : pathGet d p = some v) : v.Over P K := by
  induction p generalizing d with
  | nil => cases hv
  | cons name rest ih =>
    rw [pathGet_cons] at hv
    obtain ⟨x, hx, hv⟩ := Option.bind_eq_some_iff.1 hv
    have hover := hd _ (mem_of_findField hx)
    cases rest with
    | nil => exact Option.some.inj hv ▸ hover
    | cons k rest =>
      obtain ⟨fields, hfields, hv⟩ := Option.bind_eq_some_iff.1 hv
      exact ih (hover.of_subdocument hfields) hv

/-- Scalars stay harmless with null. -/
lemma Harmless.orNull {P : Value → Prop} (hP : Harmless P) : Harmless fun v => P v ∨ v = .null := by
  refine ⟨fun bits h => ?_, fun v h hrank => ?_, fun p o q o' h h' => ?_,
    fun a b c ha hb hc hnan hnb hnc => ?_, fun a b h h' => ?_, fun a b c h h' h'' => ?_⟩
  · exact hP.decimal bits (h.resolve_right nofun)
  · rcases h with h | rfl
    · exact hP.ranked v h hrank
    · cases hrank
  · exact hP.regex p o q o' (h.resolve_right nofun) (h'.resolve_right nofun)
  · have hnumeric {v : Value} (h : P v ∨ v = .null) (hv : valueIsNumeric v = true) : P v := by
      refine h.resolve_right ?_
      rintro rfl
      cases hv
    have hna : valueIsNumeric a = true := (Bool.and_eq_true_iff.1 hnan).1
    exact hP.nan a b c (hnumeric ha hna) (hnumeric hb hnb) (hnumeric hc hnc) hnan hnb hnc
  · exact hP.antipodes a b (h.resolve_right nofun) (h'.resolve_right nofun)
  · exact hP.circle a b c (h.resolve_right nofun) (h'.resolve_right nofun)
      (h''.resolve_right nofun)

/-- Documents built of harmless scalars are ordered by what they are sorted by. -/
lemma orders_sortValue (hP : Harmless P) (path : Path) :
    Orders (fun d e => compareValues (sortValue d path) (sortValue e path)) (DocOver P K) := by
  have hvalues := (orders_over (K := K) hP.orNull).comap fun d : Doc => sortValue d path
  refine hvalues.mono fun d hd => ?_
  unfold sortValue
  cases hv : pathGet d path with
  | none => exact .scalar rfl (.inr rfl)
  | some v => exact (over_of_pathGet hd hv).mono fun v hv => .inl hv

/-- Documents built of harmless scalars are ordered by every specification. -/
lemma orders_compareKeys (hP : Harmless P) (keys : List SortKey) :
    Orders (compareKeys keys) (DocOver P K) := by
  induction keys with
  | nil =>
    exact ⟨fun _ _ _ _ => ⟨0, rfl⟩, fun _ _ => rfl,
      fun a b m n _ _ hm hn => by
        rw [← Except.ok.inj hm, ← Except.ok.inj hn]
        rfl,
      fun a b c l m n _ _ _ _ _ hn _ _ => (Except.ok.inj hn).ge⟩
  | cons key keys ih =>
    refine Orders.andThen ?_ fun d _ => ih.mono fun e he => he.1
    split
    · exact orders_sortValue hP key.path
    · exact (orders_sortValue hP key.path).turned

/-- Sorting by a specification that orders the documents succeeds. -/
lemma sortDocuments_of_orders {documents : List Doc} {spec : Doc}
    {keys : List SortKey} (hspec : sortKeys spec = .ok keys)
    (h : Orders (compareKeys keys) (DocOver P K)) (hdocuments : ∀ d ∈ documents, DocOver P K d) :
    sortDocuments documents spec = .ok (documents.mergeSort (notAfter (compareKeys keys))) := by
  have hbefore (d e : Doc) : sortsBefore d e keys = before (compareKeys keys) d e :=
    congrFun (congrFun (sortsBefore_eq keys) d) e
  have hnone : comparisonError keys documents = none := by
    refine comparisonError_eq_none_iff.2 (List.pairwise_of_forall_mem_list fun d hd e he => ?_)
    rw [hbefore]
    exact h.strictWeak.settles e d (hdocuments e he) (hdocuments d hd)
  unfold sortDocuments
  rw [hspec]
  simp only [bind, Except.bind, hnone, hbefore]
  rfl

/-- The sort order is sound on the values built of the scalars of a class. -/
structure SortOrder (P : Value → Prop) (K : List Text → Prop) : Prop where
  /-- Comparing them never fails and is a total preorder. -/
  orders : Orders compareValues (Value.Over P K)
  /-- By every sort specification documents of them are in a strict weak order. -/
  strictWeak : ∀ spec keys, sortKeys spec = .ok keys →
    StrictWeak (fun d e => sortsBefore d e keys) (DocOver P K)
  /-- Where no two documents have equal keys, sorting down is the reverse of sorting up. -/
  reversed : ∀ (documents : List Doc) (name : Text) (path : Path), splitPath name = .ok path →
    (∀ d ∈ documents, DocOver P K d) →
    (documents.Pairwise fun d e => compareValues (sortValue d path) (sortValue e path) ≠ .ok 0) →
    ∃ sorted, sortDocuments documents [(name, .int32 1)] = .ok sorted ∧
      sortDocuments documents [(name, .int32 (-1))] = .ok sorted.reverse

/-- The keys of a specification of one field. -/
lemma sortKeys_single {name : Text} {path : Path} (h : splitPath name = .ok path) :
    sortKeys [(name, .int32 1)] = .ok [⟨path, true⟩] ∧
      sortKeys [(name, .int32 (-1))] = .ok [⟨path, false⟩] := by
  have hone : (Binary64.ofInt 0).numLt (Binary64.ofInt 1) = true := by decide +kernel
  have hminus : (Binary64.ofInt 0).numLt (Binary64.ofInt (-1)) = false := by decide +kernel
  have heq : (Binary64.ofInt 1).numEq (Binary64.ofInt 1) = true := by decide +kernel
  have heq' : (Binary64.ofInt (-1)).numEq (Binary64.ofInt (-1)) = true := by decide +kernel
  have hup : (Value.int32 1).toDouble = Binary64.ofInt 1 := by decide +kernel
  have hdown : (Value.int32 (-1)).toDouble = Binary64.ofInt (-1) := by decide +kernel
  constructor
  · simp [sortKeys, h, valueIsNumeric, hup, heq, hone, bind, Except.bind, pure, Except.pure]
  · simp [sortKeys, h, valueIsNumeric, hdown, heq', hminus, bind, Except.bind, pure, Except.pure]

/-- Comparing by one key. -/
lemma compareKeys_single (path : Path) :
    compareKeys [⟨path, true⟩] =
      (fun d e => compareValues (sortValue d path) (sortValue e path)) ∧
    compareKeys [⟨path, false⟩] =
      turned fun d e => compareValues (sortValue d path) (sortValue e path) := by
  have hlast (cmp : Doc → Doc → Except TranslatorError ℤ) :
      andThen cmp (compareKeys []) = cmp := by
    funext d e
    unfold andThen
    split
    · next h => exact h.symm
    · rfl
  exact ⟨hlast _, hlast _⟩

/-- Harmless scalars are sorted soundly. -/
lemma Harmless.sortOrder (hP : Harmless P) : SortOrder P K where
  orders := orders_over hP
  strictWeak _ keys _ := sortsBefore_eq keys ▸ (orders_compareKeys hP keys).strictWeak
  reversed documents name path hpath hdocuments hapart := by
    obtain ⟨hup, hdown⟩ := sortKeys_single hpath
    obtain ⟨hcmp, hcmp'⟩ := compareKeys_single path
    have horders := orders_sortValue (K := K) hP path
    refine ⟨documents.mergeSort (notAfter (compareKeys [⟨path, true⟩])),
      sortDocuments_of_orders hup (orders_compareKeys hP _) hdocuments, ?_⟩
    rw [sortDocuments_of_orders hdown (orders_compareKeys hP _) hdocuments, hcmp, hcmp',
      horders.mergeSort_turned hdocuments hapart]

/-! ## What breaks the order -/

/-- Where values are ordered, nothing is ranked with the documents without being one. -/
lemma ranked_of_orders (h : Orders compareValues (Value.Over P K)) {v : Value} (hv : P v)
    (hrank : typeRank v = 4) : v.subdocument.isSome := by
  by_contra hnone
  rw [Option.not_isSome_iff_eq_none] at hnone
  have hempty : (Value.document []).Over P K := .document nofun
  have hfull : (Value.document [([], .document [])]).Over P K := by
    refine .document fun field hfield => ?_
    rw [List.mem_singleton.1 hfield]
    exact hempty
  -- it ties with the empty document and with one that is not
  have hleft : compareValues (.document [([], .document [])]) v = .ok 0 := by
    cases v with
    | document _ => cases hnone
    | code _ | codeWScope _ _ | dbPointer _ _ => rfl
    | _ => cases hrank
  have hright : compareValues v (.document []) = .ok 0 := by
    cases v with
    | document _ => cases hnone
    | code _ | codeWScope _ _ | dbPointer _ _ => rfl
    | _ => cases hrank
  have habove := h.trans _ v _ 0 0 1 hfull (.scalar hnone hv) hempty hleft hright rfl le_rfl le_rfl
  omega

/-- Where values are ordered, regular expressions have one pattern. -/
lemma regex_of_orders (h : Orders compareValues (Value.Over P K)) {p o q o' : Text}
    (hp : P (.regex p o)) (hq : P (.regex q o')) : p = q := by
  have hcmp (p o q o' : Text) : compareValues (.regex p o) (.regex q o') =
      .ok (if compareBytes p q < 0 then -1 else 0) := rfl
  have hswap := h.swap _ _ _ _ (.scalar rfl hp) (.scalar rfl hq) (hcmp p o q o') (hcmp q o' p o)
  rcases compareBytes_cases p q with ⟨hn, hlt⟩ | ⟨-, heq⟩ | ⟨hn, hlt⟩
  · rcases compareBytes_cases q p with ⟨-, hlt'⟩ | ⟨-, rfl⟩ | ⟨hn', -⟩
    · exact absurd hlt hlt'.not_gt
    · rfl
    · simp [hn, hn'] at hswap
  · exact heq
  · rcases compareBytes_cases q p with ⟨hn', -⟩ | ⟨-, rfl⟩ | ⟨-, hlt'⟩
    · simp [hn, hn'] at hswap
    · rfl
    · exact absurd hlt hlt'.not_gt

/-- Where values are ordered, beside a NaN one number is not above another. -/
lemma nan_of_orders (h : Orders compareValues (Value.Over P K)) {a b c : Value} (ha : P a)
    (hb : P b) (hc : P c) (hnan : a.comparesAsNaN = true) (hnb : valueIsNumeric b = true)
    (hnc : valueIsNumeric c = true) (hb' : b.comparesAsNaN = false)
    (hc' : c.comparesAsNaN = false) : ¬ b.toDouble.units < c.toDouble.units := by
  intro hlt
  obtain ⟨hna, hanan⟩ := Bool.and_eq_true_iff.1 hnan
  have hscalar {v : Value} (hv : valueIsNumeric v = true) : v.subdocument = none := by
    cases v with
    | document _ | array _ => cases hv
    | _ => rfl
  have hbnan : b.toDouble.isNaN = false := by simpa [Value.comparesAsNaN, hnb] using hb'
  have hcnan : c.toDouble.isNaN = false := by simpa [Value.comparesAsNaN, hnc] using hc'
  -- both numbers tie with NaN
  have hca : compareValues c a = .ok 0 := by
    rw [compareValues_number hnc hna]
    simp [Binary64.numLt, hanan, orderSign]
  have hab : compareValues a b = .ok 0 := by
    rw [compareValues_number hna hnb]
    simp [Binary64.numLt, hanan, orderSign]
  have hcb : compareValues c b = .ok 1 := by
    rw [compareValues_number hnc hnb]
    simp [Binary64.numLt, hbnan, hcnan, orderSign, hlt, hlt.not_gt]
  have habove := h.trans c a b 0 0 1 (.scalar (hscalar hnc) hc) (.scalar (hscalar hna) ha)
    (.scalar (hscalar hnb) hb) hca hab hcb le_rfl le_rfl
  omega

/-- Where values are ordered, the scalars are harmless. -/
lemma harmless_of_orders (h : Orders compareValues (Value.Over P K)) : Harmless P where
  decimal bits hbits := by
    obtain ⟨n, hn⟩ := h.settles _ _ (.scalar rfl hbits) (.scalar rfl hbits)
    cases hn
  ranked v hv hrank := ranked_of_orders h hv hrank
  regex p o q o' hp hq := regex_of_orders h hp hq
  nan a b c ha hb hc hnan hnb hnc hb' hc' := by
    refine le_antisymm (not_lt.1 ?_) (not_lt.1 ?_)
    · exact nan_of_orders h ha hc hb hnan hnc hnb hc' hb'
    · exact nan_of_orders h ha hb hc hnan hnb hnc hb' hc'
  antipodes a b ha hb hfar := by
    have hswap := h.swap _ _ _ _ (.scalar rfl ha) (.scalar rfl hb) (compareValues_date a b)
      (compareValues_date b a)
    rw [hfar, show a.toInt - b.toInt = -2 ^ 63 by omega] at hswap
    revert hswap
    decide
  circle a b c ha hb hc hab hbc hnear hnear' := by
    have hle := h.trans _ _ _ _ _ _ (.scalar rfl ha) (.scalar rfl hb) (.scalar rfl hc)
      (compareValues_date a b) (compareValues_date b c) (compareValues_date a c)
      (circleSign_nonpos_iff.2 (by omega)) (circleSign_nonpos_iff.2 (by omega))
    have hswap := h.swap _ _ _ _ (.scalar rfl ha) (.scalar rfl hc) (compareValues_date a c)
      (compareValues_date c a)
    rw [circleSign_nonpos_iff] at hle
    by_contra hfar
    have hapart : a.toInt - c.toInt = -2 ^ 63 := by omega
    rw [hapart, show c.toInt - a.toInt = 2 ^ 63 by omega] at hswap
    revert hswap
    decide

/-- **The sort order.**  The sort order is sound on the values built of certain scalars exactly when
these are harmless. -/
theorem sortOrder_iff (P : Value → Prop) (K : List Text → Prop) : SortOrder P K ↔ Harmless P :=
  ⟨fun h => harmless_of_orders h.orders, fun h => h.sortOrder⟩

/-- A `Decimal128` is not compared even with itself, only one of two regular expressions compares
with the other, and between 2 and 1, which differ, stands NaN, which ties with both. -/
theorem compareValues_not_a_preorder :
    compareValues (.decimal128 0) (.decimal128 0) =
      .error (typeMismatch "expected a numeric value".toList) ∧
    compareValues (.regex "a".toList []) (.regex "b".toList []) = .ok (-1) ∧
    compareValues (.regex "b".toList []) (.regex "a".toList []) = .ok 0 ∧
    compareValues (.int32 2) (.double ⟨0x7FF8000000000000⟩) = .ok 0 ∧
    compareValues (.double ⟨0x7FF8000000000000⟩) (.int32 1) = .ok 0 ∧
    compareValues (.int32 2) (.int32 1) = .ok 1 := by
  refine ⟨rfl, rfl, rfl, ?_, ?_, ?_⟩
  · rw [compareValues_number rfl rfl, toDouble_of_ok rfl, toDouble_of_ok rfl]
    decide +kernel
  · rw [compareValues_number rfl rfl, toDouble_of_ok rfl, toDouble_of_ok rfl]
    decide +kernel
  · rw [compareValues_number rfl rfl, toDouble_of_ok rfl, toDouble_of_ok rfl]
    decide +kernel

end Chimera
