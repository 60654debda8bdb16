import Chimera.Foundations.Representatives
import Chimera.Translator.IdKeys
import Chimera.Translator.Increment

/-!
# Arrays as sets

`$addToSet` and `$pull` compare values with `value_equal`.  It takes two integers for one when they
convert to one double, it does not look at the subtype of binary data, and types it has no case for
are not even equal to themselves.  What the two operators do to an array is what they should do
exactly when none of this comes to bear.  The modifiers of `$push` and `$addToSet` are checked only
where there is no `$each`.
-/

namespace Chimera

open Representatives

/-! ## What `value_equal` compares -/

/-- What `value_equal` looks at in a value that is not a number: of binary data the bytes, and
nothing of a value that it never finds equal to anything. -/
def Value.comparedWhole : Value → Option Value
  | .binary _ data => some (.binary 0 data)
  | .decimal128 _ | .regex _ _ | .code _ | .codeWScope _ _ | .dbPointer _ _ | .symbol _ => none
  | v => some v

/-- What `value_equal` looks at: of numbers the double, if it is one. -/
def Value.compared (v : Value) : Option (ℤ ⊕ Value) :=
  if valueIsNumeric v then
    if v.toDouble.isNaN then none else some (.inl v.toDouble.units)
  else v.comparedWhole.map .inr

/-- Numbers are equal when they are numbers and have one value. -/
lemma numEq_iff {d e : Binary64} :
    d.numEq e = true ↔ d.isNaN = false ∧ e.isNaN = false ∧ d.units = e.units := by
  simp only [Binary64.numEq, Bool.and_eq_true, Bool.not_eq_true', decide_eq_true_eq, and_assoc]

/-- What `value_equal` looks at in a number. -/
lemma compared_of_isNumeric {v : Value} (h : valueIsNumeric v = true) :
    v.compared = if v.toDouble.isNaN then none else some (.inl v.toDouble.units) :=
  if_pos h

/-- What `value_equal` looks at in anything else. -/
lemma compared_of_not_isNumeric {v : Value} (h : valueIsNumeric v = false) :
    v.compared = v.comparedWhole.map .inr := by
  rw [Value.compared, h]
  rfl

/-- Of what is not a number it never looks at a number. -/
lemma compared_ne_of_isNumeric {a b : Value} (ha : valueIsNumeric a = true)
    (hb : valueIsNumeric b = false) (h : a.compared.isSome = true) : a.compared ≠ b.compared := by
  rw [compared_of_isNumeric ha] at h ⊢
  rw [compared_of_not_isNumeric hb]
  split at h
  · cases h
  · next hnan =>
    rw [if_neg hnan]
    cases b.comparedWhole with
    | none => simp
    | some w => simp

/-- **Equality as `value_equal` decides it.**  Two values are equal when something is looked at in
them and it is the same. -/
theorem valueEqual_iff {a b : Value} :
    valueEqual a b = true ↔ a.compared.isSome = true ∧ a.compared = b.compared := by
  unfold valueEqual
  cases ha : valueIsNumeric a with
  | true =>
    cases hb : valueIsNumeric b with
    | true =>
      rw [Bool.and_self, if_pos rfl, numEq_iff, compared_of_isNumeric ha, compared_of_isNumeric hb]
      cases a.toDouble.isNaN <;> cases b.toDouble.isNaN <;> simp
    | false =>
      rw [Bool.and_false, if_neg Bool.false_ne_true]
      refine iff_of_false ?_ fun h => compared_ne_of_isNumeric ha hb h.1 h.2
      cases a with
      | int32 _ | int64 _ | double _ => cases b <;> simp
      | _ => cases ha
  | false =>
    rw [Bool.false_and, if_neg Bool.false_ne_true]
    cases hb : valueIsNumeric b with
    | true =>
      refine iff_of_false ?_ fun h => compared_ne_of_isNumeric hb ha (h.2 ▸ h.1) h.2.symm
      cases b with
      | int32 _ | int64 _ | double _ => cases a <;> simp
      | _ => cases hb
    | false =>
      rw [compared_of_not_isNumeric ha, compared_of_not_isNumeric hb]
      cases a with
      | int32 _ | int64 _ | double _ => cases ha
      | document fields | array fields =>
        cases b with
        | int32 _ | int64 _ | double _ => cases hb
        | _ => simp [Value.comparedWhole, Value.beqFields_iff]
      | _ =>
        cases b with
        | int32 _ | int64 _ | double _ => cases hb
        | _ => simp [Value.comparedWhole]

/-- Numbers are compared as doubles. -/
lemma valueEqual_of_isNumeric {a b : Value} (ha : valueIsNumeric a = true)
    (hb : valueIsNumeric b = true) : valueEqual a b = a.toDouble.numEq b.toDouble := by
  unfold valueEqual
  rw [ha, hb, Bool.and_self, if_pos rfl]

/-- What is found equal to something is equal to itself. -/
lemma valueEqual_self {a b : Value} (h : valueEqual a b = true) : valueEqual b b = true := by
  obtain ⟨hsome, heq⟩ := valueEqual_iff.1 h
  exact valueEqual_iff.2 ⟨heq ▸ hsome, rfl⟩

/-- `value_equal` is symmetric. -/
lemma valueEqual_symm {a b : Value} (h : valueEqual a b = true) : valueEqual b a = true := by
  obtain ⟨hsome, heq⟩ := valueEqual_iff.1 h
  exact valueEqual_iff.2 ⟨heq ▸ hsome, heq.symm⟩

/-- `value_equal` is transitive. -/
lemma valueEqual_trans {a b c : Value} (h : valueEqual a b = true) (h' : valueEqual b c = true) :
    valueEqual a c = true := by
  obtain ⟨hsome, heq⟩ := valueEqual_iff.1 h
  exact valueEqual_iff.2 ⟨hsome, heq.trans (valueEqual_iff.1 h').2⟩

/-! ## One value -/

/-- Patterns of one value are numbers alike. -/
lemma isNaN_eq_of_units_eq {d e : Binary64} (h : d.units = e.units) : d.isNaN = e.isNaN := by
  by_cases hzero : d.units = 0
  · have hnot (d : Binary64) (hd : d.units = 0) : d.isNaN = false := by
      rw [← Bool.not_eq_true]
      intro hnan
      have hexponent : d.exponentField = 2047 := by
        simp only [Binary64.isNaN, Bool.and_eq_true, decide_eq_true_eq] at hnan
        exact hnan.1
      have hmagnitude : d.magnitude = 0 := by
        unfold Binary64.units at hd
        split at hd <;> omega
      obtain ⟨k, hk⟩ : ∃ k, k = d.exponentField - 1 := ⟨_, rfl⟩
      rw [Binary64.magnitude, if_neg (by omega), ← hk] at hmagnitude
      rcases Nat.mul_eq_zero.1 hmagnitude with hfraction | hpow
      · omega
      · exact absurd hpow (Nat.two_pow_pos k).ne'
    rw [hnot d hzero, hnot e (h ▸ hzero)]
  · rw [Binary64.eq_of_units_eq hzero h]

/-- What denotes a number is a double or an integer. -/
lemma idNumber_cases {v : Value} {u : ℤ} (h : v.idNumber = some u) :
    (∃ d, v = .double d ∧ d.units = u) ∨ ∃ n, v.integer? = some n ∧ n * 2 ^ 1074 = u := by
  cases v with
  | int32 n | int64 n => exact .inr ⟨_, rfl, Option.some.inj h⟩
  | double d => exact .inl ⟨d, rfl, Option.some.inj h⟩
  | _ => cases h

/-- What denotes a number is numeric. -/
lemma isNumeric_of_idNumber {v : Value} {u : ℤ} (h : v.idNumber = some u) :
    valueIsNumeric v = true := by
  cases v with
  | int32 _ | int64 _ | double _ => rfl
  | _ => cases h

/-- An integer that a double denotes converts to that double. -/
lemma units_toDouble_of_double {v : Value} {d : Binary64} (h : v.idNumber = some d.units) :
    v.toDouble.units = d.units := by
  rcases idNumber_cases h with ⟨e, rfl, he⟩ | ⟨n, hn, hu⟩
  · rw [toDouble_of_ok rfl, he]
  · obtain ⟨hlow, hhigh⟩ := fitsInt64_of_integer hn
    rw [toDouble_of_integer hn]
    exact Binary64.units_ofInt_of_units (by omega) hu.symm

/-- Values of one number convert to one double. -/
lemma units_toDouble_eq {a b : Value} {u : ℤ} (ha : a.idNumber = some u)
    (hb : b.idNumber = some u) : a.toDouble.units = b.toDouble.units := by
  rcases idNumber_cases ha with ⟨d, rfl, rfl⟩ | ⟨m, hm, hmu⟩
  · rw [toDouble_of_ok rfl, units_toDouble_of_double hb]
  rcases idNumber_cases hb with ⟨e, rfl, rfl⟩ | ⟨n, hn, hnu⟩
  · rw [units_toDouble_of_double ha, toDouble_of_ok rfl]
  · have hpos : (2 ^ 1074 : ℤ) ≠ 0 := pow_ne_zero _ two_ne_zero
    rw [toDouble_of_integer hm, toDouble_of_integer hn,
      mul_right_cancel₀ hpos (hmu.trans hnu.symm)]

/-- What is one value is looked at as one. -/
lemma compared_eq_of_sameId {a b : Value} (h : SameId a b) : a.compared = b.compared := by
  unfold SameId at h
  split at h
  · next u ha =>
    have hunits := units_toDouble_eq ha h
    rw [compared_of_isNumeric (isNumeric_of_idNumber ha),
      compared_of_isNumeric (isNumeric_of_idNumber h), isNaN_eq_of_units_eq hunits, hunits]
  · rw [h]

instance (a b : Value) : Decidable (SameId a b) :=
  match h : a.idNumber with
  | some u => decidable_of_iff (b.idNumber = some u) (by rw [SameId, h])
  | none => decidable_of_iff (a = b) (by rw [SameId, h])

/-- Every value is one with itself. -/
lemma SameId.refl (a : Value) : SameId a a := by
  unfold SameId
  split
  · assumption
  · rfl

/-- Being one value is symmetric. -/
lemma SameId.symm {a b : Value} (h : SameId a b) : SameId b a := by
  unfold SameId at h
  split at h
  · next u ha =>
    unfold SameId
    rw [h]
    exact ha
  · rw [h]
    exact .refl b

/-- Being one value is transitive. -/
lemma SameId.trans {a b c : Value} (h : SameId a b) (h' : SameId b c) : SameId a c := by
  unfold SameId at h
  split at h
  · next u ha =>
    unfold SameId at h' ⊢
    rw [h] at h'
    rw [ha]
    exact h'
  · rw [h]
    exact h'

/-- Numbers are one value when they denote one number. -/
lemma sameId_iff_of_isNumeric {a b : Value} (ha : valueIsNumeric a = true) :
    SameId a b ↔ a.idNumber = b.idNumber := by
  obtain ⟨u, hu⟩ : ∃ u, a.idNumber = some u := by
    cases a with
    | int32 _ | int64 _ | double _ => exact ⟨_, rfl⟩
    | _ => cases ha
  rw [SameId, hu]
  exact eq_comm

/-- Two values are binary data of the same bytes with different subtypes. -/
def differInSubtype : Value → Value → Prop
  | .binary s a, .binary t b => a = b ∧ s ≠ t
  | _, _ => False

/-- The test takes one value for the other: two numbers convert to one double, or binary data
differ in their subtype only. -/
def Mistaken (a b : Value) : Prop :=
  (valueIsNumeric a = true ∧ valueIsNumeric b = true ∧ a.toDouble.numEq b.toDouble = true ∧
    a.idNumber ≠ b.idNumber) ∨ differInSubtype a b

/-- What is neither a number nor binary data is looked at whole. -/
lemma eq_of_compared_eq {a b : Value} (ha : valueIsNumeric a = false) (hsome : a.compared.isSome)
    (h : a.compared = b.compared) (hsub : ¬ differInSubtype a b) : a = b := by
  have hb : valueIsNumeric b = false := by
    rw [← Bool.not_eq_true]
    exact fun hb => compared_ne_of_isNumeric hb ha (h ▸ hsome) h.symm
  rw [compared_of_not_isNumeric ha] at hsome h
  rw [compared_of_not_isNumeric hb] at h
  cases a with
  | int32 _ | int64 _ | double _ => cases ha
  | binary s x =>
    cases b with
    | int32 _ | int64 _ | double _ => cases hb
    | binary t y =>
      obtain rfl : x = y := by simpa [Value.comparedWhole] using h
      obtain rfl : s = t := by_contra fun hne => hsub ⟨rfl, hne⟩
      rfl
    | _ => simp [Value.comparedWhole] at h
  | _ =>
    cases b with
    | int32 _ | int64 _ | double _ => cases hb
    | _ => simp_all [Value.comparedWhole]

/-- These are the values that `value_equal` finds equal and that are not one. -/
lemma mistaken_iff {a b : Value} : Mistaken a b ↔ valueEqual a b = true ∧ ¬ SameId a b := by
  constructor
  · rintro (⟨ha, hb, heq, hne⟩ | hsub)
    · rw [valueEqual_of_isNumeric ha hb, sameId_iff_of_isNumeric ha]
      exact ⟨heq, hne⟩
    · unfold differInSubtype at hsub
      split at hsub
      · obtain ⟨rfl, hne⟩ := hsub
        refine ⟨valueEqual_iff.2 ⟨rfl, rfl⟩, fun h => hne ?_⟩
        exact (Value.binary.inj (show Value.binary _ _ = Value.binary _ _ from h)).1
      · exact hsub.elim
  · rintro ⟨heq, hne⟩
    obtain ⟨hsome, hcompared⟩ := valueEqual_iff.1 heq
    cases ha : valueIsNumeric a with
    | true =>
      have hb : valueIsNumeric b = true := by
        rw [← Bool.not_eq_false]
        exact fun hb => compared_ne_of_isNumeric ha hb hsome hcompared
      rw [valueEqual_of_isNumeric ha hb] at heq
      exact .inl ⟨ha, hb, heq, fun hid => hne ((sameId_iff_of_isNumeric ha).2 hid)⟩
    | false =>
      refine .inr (by_contra fun hsub => hne ?_)
      rw [eq_of_compared_eq ha hsome hcompared hsub]
      exact .refl b

/-! ## Inserting and removing -/

/-- The elements of an array that was made of elements. -/
lemma map_snd_makeArray (elements : List Value) : (makeArray elements).map Prod.snd = elements := by
  rw [makeArray, List.map_map]
  exact List.zipIdx_map_fst 0 elements

/-- Arrays made of different elements are different. -/
lemma makeArray_inj {xs ys : List Value} : makeArray xs = makeArray ys ↔ xs = ys := by
  constructor
  · intro h
    rw [← map_snd_makeArray xs, h, map_snd_makeArray]
  · exact congrArg makeArray

/-- `$addToSet` collects with `value_equal`. -/
lemma addToSet_eq (old candidates : List Value) :
    addToSet old candidates = collect valueEqual old candidates :=
  foldl_eq_collect old candidates

section Sets

variable {d : Doc} {name : Text} {path : Path} {arg : Value} {old candidates : List Value}

/-- What `$addToSet` does. -/
lemma applyUpdate_addToSet (hpath : splitPath name = .ok path) (hplain : "$".toList ∉ path)
    (hold : arrayElements (pathGet d path) = some old) (hcs : eachValues arg = .ok candidates) :
    applyUpdate d (singleUpdate "$addToSet".toList name arg) =
      .ok (pathSet d path (.array (makeArray (collect valueEqual old candidates)))) := by
  refine (applyUpdate_single (by decide) hpath).2 ⟨hplain, .set _, ?_, rfl⟩
  unfold operatorEffect
  rw [if_neg (by decide), if_neg (by decide), if_neg (by decide), if_neg (by decide), if_pos rfl,
    hold, hcs, ← addToSet_eq]
  rfl

/-- What `$pull` does. -/
lemma applyUpdate_pull (hpath : splitPath name = .ok path) (hplain : "$".toList ∉ path)
    (hold : arrayElements (pathGet d path) = some old) (harg : ∀ fields, arg ≠ .document fields) :
    applyUpdate d (singleUpdate "$pull".toList name arg) =
      .ok (pathSet d path (.array (makeArray (old.filter fun e => !valueEqual e arg)))) := by
  refine (applyUpdate_single (by decide) hpath).2 ⟨hplain, .set _, ?_, rfl⟩
  unfold operatorEffect
  rw [if_neg (by decide), if_neg (by decide), if_neg (by decide), if_neg (by decide),
    if_neg (by decide), if_pos rfl]
  split
  · exact absurd rfl (harg _)
  · rw [hold]
    rfl

/-- `$addToSet` inserts into a set.  The array afterwards is the old one with new elements behind
it, every candidate is one value with some element, no new element is one value with another
element, and a second time nothing changes. -/
def AddsAsSet (d : Doc) (name : Text) (path : Path) (arg : Value) (old candidates : List Value) :
    Prop :=
  ∃ d' new, applyUpdate d (singleUpdate "$addToSet".toList name arg) = .ok d' ∧
    pathGet d' path = some (.array (makeArray (old ++ new))) ∧
    (∀ c ∈ candidates, ∃ x ∈ old ++ new, SameId x c) ∧
    (∀ x ∈ old, ∀ y ∈ new, ¬ SameId x y) ∧ (new.Pairwise fun x y => ¬ SameId x y) ∧
    applyUpdate d' (singleUpdate "$addToSet".toList name arg) = .ok d'

/-- `$pull` removes the elements that are one value with its argument, and no others. -/
def PullsExactly (d : Doc) (name : Text) (path : Path) (arg : Value) (old : List Value) : Prop :=
  ∃ d', applyUpdate d (singleUpdate "$pull".toList name arg) = .ok d' ∧
    pathGet d' path = some (.array (makeArray (old.filter fun e => !decide (SameId e arg))))

/-- What is one value with something that is equal to itself is found equal to it. -/
lemma valueEqual_of_sameId {a b : Value} (hb : valueEqual b b = true) (h : SameId a b) :
    valueEqual a b = true :=
  valueEqual_iff.2 ⟨compared_eq_of_sameId h ▸ (valueEqual_iff.1 hb).1, compared_eq_of_sameId h⟩

/-- A second `$addToSet` changes nothing exactly when all candidates are equal to themselves. -/
lemma addToSet_again_iff (hpath : splitPath name = .ok path) (hplain : "$".toList ∉ path)
    (hcs : eachValues arg = .ok candidates) :
    applyUpdate (pathSet d path (.array (makeArray (collect valueEqual old candidates))))
        (singleUpdate "$addToSet".toList name arg) =
      .ok (pathSet d path (.array (makeArray (collect valueEqual old candidates)))) ↔
    ∀ c ∈ candidates, valueEqual c c = true := by
  have hpos : path ≠ [] := by
    rw [splitPath_eq_ok hpath]
    exact splitDots_ne_nil name
  have hget := pathGet_pathSet d hpos (.array (makeArray (collect valueEqual old candidates)))
  have helements : arrayElements (pathGet (pathSet d path
      (.array (makeArray (collect valueEqual old candidates)))) path) =
        some (collect valueEqual old candidates) := by
    rw [hget, arrayElements, map_snd_makeArray]
  rw [applyUpdate_addToSet hpath hplain helements hcs, pathSet_pathSet,
    ← added_collect_eq_nil_iff (r := valueEqual) (fun _ _ => valueEqual_self) old candidates]
  constructor
  · intro h
    have hsame := congrArg (fun e => pathGet e path) (Except.ok.inj h)
    simp only [pathGet_pathSet d hpos, Option.some.injEq, Value.array.injEq, makeArray_inj] at hsame
    exact List.append_right_eq_self.1 hsame
  · intro h
    rw [collect, h, List.append_nil]

/-- No value is mistaken for another exactly when it is one with it where it is found equal. -/
lemma not_mistaken_iff {a b : Value} :
    ¬ Mistaken a b ↔ (valueEqual a b = true → SameId a b) := by
  rw [mistaken_iff, not_and, not_not]

/-- When `$addToSet` inserts into a set. -/
lemma addsAsSet_iff (hpath : splitPath name = .ok path) (hplain : "$".toList ∉ path)
    (hold : arrayElements (pathGet d path) = some old) (hcs : eachValues arg = .ok candidates) :
    AddsAsSet d name path arg old candidates ↔
      (∀ c ∈ candidates, valueEqual c c = true) ∧
      ∀ pre c post, candidates = pre ++ c :: post →
        (∃ x ∈ old, SameId x c) ∨ ∀ x ∈ old ++ pre, ¬ Mistaken x c := by
  have hpos : path ≠ [] := by
    rw [splitPath_eq_ok hpath]
    exact splitDots_ne_nil name
  have hrepresented (hself : ∀ c ∈ candidates, valueEqual c c = true) :
      (∀ c ∈ candidates, ∃ x ∈ collect valueEqual old candidates, SameId x c) ↔
        ∀ pre c post, candidates = pre ++ c :: post →
          (∃ x ∈ old, SameId x c) ∨ ∀ x ∈ old ++ pre, valueEqual x c = true → SameId x c :=
    represented_iff SameId.refl (fun _ _ => SameId.symm) (fun _ _ _ => SameId.trans)
      (fun _ _ => valueEqual_symm) (fun _ _ _ => valueEqual_trans)
      fun x c hc => valueEqual_of_sameId (hself c hc)
  simp only [not_mistaken_iff]
  constructor
  · rintro ⟨d', new, hupdate, hget, hrep, -, -, hagain⟩
    rw [applyUpdate_addToSet hpath hplain hold hcs] at hupdate
    obtain rfl := Except.ok.inj hupdate
    have hself := (addToSet_again_iff hpath hplain hcs).1 hagain
    rw [pathGet_pathSet d hpos, Option.some.injEq, Value.array.injEq, makeArray_inj] at hget
    rw [← hget] at hrep
    exact ⟨hself, (hrepresented hself).1 hrep⟩
  · rintro ⟨hself, hfound⟩
    have hadded (y : Value) (hy : y ∈ added valueEqual old candidates) : valueEqual y y = true :=
      hself y ((added_sublist old candidates).subset hy)
    obtain ⟨hseen, hapart⟩ := added_apart (r := valueEqual) old candidates
    refine ⟨_, added valueEqual old candidates, applyUpdate_addToSet hpath hplain hold hcs,
      pathGet_pathSet d hpos _, (hrepresented hself).2 hfound, ?_, ?_,
      (addToSet_again_iff hpath hplain hcs).2 hself⟩
    · intro x hx y hy hsame
      exact hseen x hx y hy (valueEqual_of_sameId (hadded y hy) hsame)
    · refine hapart.imp_of_mem fun {x y} _ hy hne hsame => ?_
      exact hne (valueEqual_of_sameId (hadded y hy) hsame)

/-- When `$pull` removes what it should. -/
lemma pullsExactly_iff (hpath : splitPath name = .ok path) (hplain : "$".toList ∉ path)
    (hold : arrayElements (pathGet d path) = some old) (harg : ∀ fields, arg ≠ .document fields) :
    PullsExactly d name path arg old ↔
      ∀ x ∈ old, ¬ Mistaken x arg ∧ (SameId x arg → valueEqual arg arg = true) := by
  have hpos : path ≠ [] := by
    rw [splitPath_eq_ok hpath]
    exact splitDots_ne_nil name
  have hpoint (x : Value) : (¬ Mistaken x arg ∧ (SameId x arg → valueEqual arg arg = true)) ↔
      (valueEqual x arg = true ↔ SameId x arg) := by
    rw [not_mistaken_iff]
    constructor
    · rintro ⟨hsound, hcomplete⟩
      exact ⟨hsound, fun h => valueEqual_of_sameId (hcomplete h) h⟩
    · intro hiff
      exact ⟨hiff.1, fun hsame => valueEqual_self (hiff.2 hsame)⟩
  simp only [PullsExactly, applyUpdate_pull hpath hplain hold harg, Except.ok.injEq,
    exists_eq_left', pathGet_pathSet d hpos, Option.some.injEq, Value.array.injEq, makeArray_inj,
    hpoint]
  constructor
  · intro h x hx
    have hmem : x ∈ old.filter (fun e => !valueEqual e arg) ↔
        x ∈ old.filter fun e => !decide (SameId e arg) := by rw [h]
    simp only [List.mem_filter, hx, true_and, Bool.not_eq_true', decide_eq_false_iff_not] at hmem
    rw [← Bool.not_eq_false, hmem, not_not]
  · intro h
    refine List.filter_congr fun x hx => ?_
    rw [Bool.not_inj_iff, Bool.eq_iff_iff, decide_eq_true_eq]
    exact h x hx

/-- **Arrays as sets.**  `$addToSet` inserts into a set exactly when every candidate is equal to
itself and, unless the array already has the candidate, none of its elements and of the candidates
before is mistaken for it; `$pull` removes what it should exactly when no element is mistaken for
its argument and the argument, where it is an element, is equal to itself. -/
theorem set_operators_iff (hpath : splitPath name = .ok path) (hplain : "$".toList ∉ path)
    (hold : arrayElements (pathGet d path) = some old) :
    (∀ arg candidates, eachValues arg = .ok candidates →
      (AddsAsSet d name path arg old candidates ↔
        (∀ c ∈ candidates, valueEqual c c = true) ∧
        ∀ pre c post, candidates = pre ++ c :: post →
          (∃ x ∈ old, SameId x c) ∨ ∀ x ∈ old ++ pre, ¬ Mistaken x c)) ∧
      ∀ arg, (∀ fields, arg ≠ .document fields) →
        (PullsExactly d name path arg old ↔
          ∀ x ∈ old, ¬ Mistaken x arg ∧ (SameId x arg → valueEqual arg arg = true)) :=
  ⟨fun _ _ hcs => addsAsSet_iff hpath hplain hold hcs,
    fun _ harg => pullsExactly_iff hpath hplain hold harg⟩

/-- Strings are inserted and removed as they should be. -/
theorem set_operators_iff_strings :
    AddsAsSet [("t".toList, .array [("0".toList, .utf8 "a".toList)])] "t".toList ["t".toList]
        (.utf8 "b".toList) [.utf8 "a".toList] [.utf8 "b".toList] ∧
      PullsExactly [("t".toList, .array [("0".toList, .utf8 "a".toList)])] "t".toList ["t".toList]
        (.utf8 "a".toList) [.utf8 "a".toList] := by
  have hiff := @set_operators_iff [("t".toList, .array [("0".toList, .utf8 "a".toList)])]
    "t".toList ["t".toList] [.utf8 "a".toList] (by decide) (by decide) (by decide)
  refine ⟨(hiff.1 _ _ rfl).2 ⟨by decide, fun pre c post h => .inr fun x hx => ?_⟩,
    (hiff.2 (.utf8 "a".toList) fun _ h => nomatch h).2 fun x hx => ?_⟩
  · obtain ⟨rfl, rfl, -⟩ : pre = [] ∧ c = .utf8 "b".toList ∧ post = [] := by
      cases pre with
      | nil => simpa [eq_comm] using h
      | cons => simp at h
    obtain rfl := List.mem_singleton.1 hx
    exact not_mistaken_iff.2 fun h => absurd h (by decide)
  · obtain rfl := List.mem_singleton.1 hx
    exact ⟨not_mistaken_iff.2 fun _ => .refl _, fun _ => by decide⟩

/-- A Decimal128 is added once more each time, and of two integers from 2^53 on that convert to one
double the second is lost. -/
theorem addToSet_decimal_twice :
    applyUpdate [] (singleUpdate "$addToSet".toList "t".toList (.decimal128 0)) =
        .ok [("t".toList, .array [("0".toList, .decimal128 0)])] ∧
      applyUpdate [("t".toList, .array [("0".toList, .decimal128 0)])]
          (singleUpdate "$addToSet".toList "t".toList (.decimal128 0)) =
        .ok [("t".toList, .array [("0".toList, .decimal128 0), ("1".toList, .decimal128 0)])] ∧
      applyUpdate [("t".toList, .array [("0".toList, .int64 9007199254740992)])]
          (singleUpdate "$addToSet".toList "t".toList (.int64 9007199254740993)) =
        .ok [("t".toList, .array [("0".toList, .int64 9007199254740992)])] := by
  decide +kernel

end Sets

/-! ## Modifiers -/

/-- The argument has a modifier that is not `$each`. -/
def OtherModifier (fields : Doc) : Prop :=
  ∃ field ∈ fields, isOperatorName field.1 = true ∧ field.1 ≠ "$each".toList

/-- An argument with modifiers has values when there is an array under `$each`. -/
lemma isSome_eachValues_iff {fields : Doc}
    (hmodifier : ∃ field ∈ fields, isOperatorName field.1 = true) :
    (eachValues (.document fields)).toOption.isSome = true ↔
      ∃ elements, findField fields "$each".toList = some (.array elements) := by
  rw [eachValues]
  cases heach : findField fields "$each".toList with
  | some each =>
    cases each with
    | array elements => exact iff_of_true rfl ⟨elements, rfl⟩
    | _ =>
      refine iff_of_false Bool.false_ne_true ?_
      rintro ⟨_, h⟩
      cases h
  | none =>
    refine iff_of_false ?_ ?_
    · cases hfind : fields.find? fun field => isOperatorName field.1 with
      | some field => exact Bool.false_ne_true
      | none =>
        obtain ⟨field, hfield, hname⟩ := hmodifier
        exact absurd hname (List.find?_eq_none.1 hfind field hfield)
    · rintro ⟨_, h⟩
      cases h

/-- `$push` and `$addToSet` succeed on an argument with modifiers when there is an array under
`$each`, the path is not positional, and what is there is an array or nothing. -/
lemma accepts_modifiers_iff {op name : Text} {path : Path}
    (hop : op = "$push".toList ∨ op = "$addToSet".toList) (hpath : splitPath name = .ok path)
    (d : Doc) {fields : Doc} (hmodifier : ∃ field ∈ fields, isOperatorName field.1 = true) :
    (∃ d', applyUpdate d (singleUpdate op name (.document fields)) = .ok d') ↔
      "$".toList ∉ path ∧ (arrayElements (pathGet d path)).isSome = true ∧
        ∃ elements, findField fields "$each".toList = some (.array elements) := by
  rw [← isSome_eachValues_iff hmodifier, ← Bool.and_eq_true]
  rcases hop with rfl | rfl <;> exact applyUpdate_single_succeeds (by decide) hpath

/-- **No modifier is ignored.**  An argument with modifiers of which one is not `$each` is refused
unless there is an array under `$each`, the path is not positional and what is there is an array or
nothing; then the other modifier is ignored. -/
theorem modifiers_refused_iff {op name : Text} {path : Path}
    (hop : op = "$push".toList ∨ op = "$addToSet".toList) (hpath : splitPath name = .ok path)
    (d : Doc) {fields : Doc} (hmodifier : ∃ field ∈ fields, isOperatorName field.1 = true) :
    ((OtherModifier fields →
        ∃ e, applyUpdate d (singleUpdate op name (.document fields)) = .error e) ∧
      ((∃ d', applyUpdate d (singleUpdate op name (.document fields)) = .ok d') →
        ∀ field ∈ fields, isOperatorName field.1 = true → field.1 = "$each".toList)) ↔
    ¬ (OtherModifier fields ∧ "$".toList ∉ path ∧
      (arrayElements (pathGet d path)).isSome = true ∧
      ∃ elements, findField fields "$each".toList = some (.array elements)) := by
  rw [← accepts_modifiers_iff hop hpath d hmodifier]
  constructor
  · rintro ⟨hrefused, -⟩ ⟨hother, d', hd'⟩
    obtain ⟨e, he⟩ := hrefused hother
    rw [hd'] at he
    cases he
  · intro hnot
    refine ⟨fun hother => ?_, fun hsucceeds field hfield hname => ?_⟩
    · cases hupdate : applyUpdate d (singleUpdate op name (.document fields)) with
      | ok d' => exact absurd ⟨hother, d', hupdate⟩ hnot
      | error e => exact ⟨e, rfl⟩
    · by_contra hne
      exact hnot ⟨⟨field, hfield, hname, hne⟩, hsucceeds⟩

/-- `$slice` without `$each` is refused. -/
theorem modifiers_refused_iff_slice :
    ∃ e, applyUpdate [] (singleUpdate "$push".toList "t".toList
      (.document [("$slice".toList, .int32 2)])) = .error e := by
  have hmodifier : ∃ field ∈ [("$slice".toList, Value.int32 2)], isOperatorName field.1 = true :=
    ⟨_, List.mem_singleton_self _, by decide⟩
  have hiff := @modifiers_refused_iff "$push".toList "t".toList ["t".toList] (.inl rfl) (by decide)
    [] _ hmodifier
  refine (hiff.2 fun h => ?_).1 ⟨_, List.mem_singleton_self _, by decide, by decide⟩
  obtain ⟨-, -, -, elements, helements⟩ := h
  exact absurd helements (by simp)

/-- `$slice` beside `$each` is ignored. -/
theorem push_ignores_slice :
    applyUpdate [("t".toList, .array [("0".toList, .int32 1)])] (singleUpdate "$push".toList
        "t".toList (.document [("$each".toList, .array [("0".toList, .int32 2)]),
          ("$slice".toList, .int32 1)])) =
      .ok [("t".toList, .array [("0".toList, .int32 1), ("1".toList, .int32 2)])] ∧
    OtherModifier [("$each".toList, .array [("0".toList, .int32 2)]),
      ("$slice".toList, .int32 1)] := by
  refine ⟨by decide, ("$slice".toList, .int32 1), ?_, by decide, by decide⟩
  exact List.mem_cons_of_mem _ (List.mem_singleton_self _)

end Chimera
