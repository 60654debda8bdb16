import Mathlib.Data.Option.Basic
import Mathlib.Tactic.Common

/-!
# Three-valued logic

Strong Kleene logic over lists of truth values, as SQL evaluates a condition: `none` is the
unknown value.  A conjunction is true when every part is true, false when some part is false,
and unknown otherwise; a disjunction is the dual.  A filter keeps what is known to be true, so
what it drops is what its negation keeps exactly when nothing is unknown.
-/

/-- A truth value: true, false, or unknown. -/
abbrev Kleene := Option Bool

namespace Kleene

/-- Negation; the negation of the unknown is unknown. -/
def not (x : Kleene) : Kleene := x.map Bool.not

/-- The conjunction of a list of truth values. -/
def conj (xs : List Kleene) : Kleene :=
  if some false ∈ xs then some false
  else if none ∈ xs then none
  else some true

/-- The disjunction of a list of truth values. -/
def disj (xs : List Kleene) : Kleene :=
  if some true ∈ xs then some true
  else if none ∈ xs then none
  else some false

/-- A negation is known to be `b` when what it negates is known to be the opposite. -/
@[simp] lemma not_eq_some {x : Kleene} {b : Bool} : not x = some b ↔ x = some !b := by
  rcases x with _ | x
  · simp [not]
  · cases x <;> cases b <;> simp [not]

/-- A conjunction is true when every part is. -/
lemma conj_eq_true {xs : List Kleene} : conj xs = some true ↔ ∀ x ∈ xs, x = some true := by
  unfold conj
  constructor
  · intro h x hx
    rcases x with _ | _ | _
    · simp [hx] at h
    · simp [hx] at h
    · rfl
  · intro h
    have hfalse : some false ∉ xs := fun hx => by simpa using h _ hx
    have hnone : none ∉ xs := fun hx => by simpa using h _ hx
    simp [hfalse, hnone]

/-- A conjunction is false when some part is. -/
lemma conj_eq_false {xs : List Kleene} : conj xs = some false ↔ some false ∈ xs := by
  unfold conj
  by_cases h : some false ∈ xs
  · simp [h]
  · by_cases hnone : none ∈ xs <;> simp [h, hnone]

/-- A disjunction is true when some part is. -/
lemma disj_eq_true {xs : List Kleene} : disj xs = some true ↔ some true ∈ xs := by
  unfold disj
  by_cases h : some true ∈ xs
  · simp [h]
  · by_cases hnone : none ∈ xs <;> simp [h, hnone]

/-- A disjunction is false when every part is. -/
lemma disj_eq_false {xs : List Kleene} : disj xs = some false ↔ ∀ x ∈ xs, x = some false := by
  unfold disj
  constructor
  · intro h x hx
    rcases x with _ | _ | _
    · simp only [hx, ↓reduceIte] at h
      split at h <;> simp at h
    · rfl
    · simp [hx] at h
  · intro h
    have htrue : some true ∉ xs := fun hx => by simpa using h _ hx
    have hnone : none ∉ xs := fun hx => by simpa using h _ hx
    simp [htrue, hnone]

/-- A conjunction of one part. -/
@[simp] lemma conj_singleton (x : Kleene) : conj [x] = x := by
  rcases x with _ | _ | _ <;> simp [conj]

/-- A disjunction of one part. -/
@[simp] lemma disj_singleton (x : Kleene) : disj [x] = x := by
  rcases x with _ | _ | _ <;> simp [disj]

/-- A disjunction of two parts, either of which makes it true. -/
lemma disj_pair_eq_true {x y : Kleene} :
    disj [x, y] = some true ↔ x = some true ∨ y = some true := by
  simp [disj_eq_true, @eq_comm _ (some true)]

/-- A disjunction of two parts, both of which make it false. -/
lemma disj_pair_eq_false {x y : Kleene} :
    disj [x, y] = some false ↔ x = some false ∧ y = some false := by
  simp [disj_eq_false]

/-- **The complement law.**  Being true and having a true negation exclude each other and leave
nothing over exactly when the value is known. -/
theorem complement_iff {x : Kleene} :
    (not x = some true ↔ ¬ x = some true) ↔ (x = some true ∨ x = some false) := by
  rcases x with _ | _ | _ <;> simp [not]

end Kleene
