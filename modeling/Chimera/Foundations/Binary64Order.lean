import Chimera.Foundations.Binary64Exact
import Mathlib.Order.Monotone.Basic
import Mathlib.Tactic.Positivity

/-!
# The order of binary64 patterns

Read as a number, the pattern without its sign grows with the absolute value.  So the patterns can
be turned into words that order as the numbers do: those of positive numbers above all others, those
of negative numbers in reverse.
-/

namespace Binary64

variable {d e : Binary64}

/-- The absolute value that a pattern without its sign denotes. -/
def magnitudeOf (w : ℕ) : ℕ :=
  if w / 2 ^ 52 = 0 then w % 2 ^ 52 else (2 ^ 52 + w % 2 ^ 52) * 2 ^ (w / 2 ^ 52 - 1)

/-- The absolute value of a number, by its pattern without the sign. -/
lemma magnitude_eq (d : Binary64) : d.magnitude = magnitudeOf (d.bits.toNat % 2 ^ 63) := by
  have hexponent : d.bits.toNat % 2 ^ 63 / 2 ^ 52 = d.exponentField := by
    rw [exponentField]
    omega
  have hfraction : d.bits.toNat % 2 ^ 63 % 2 ^ 52 = d.fractionField := by
    rw [fractionField]
    omega
  rw [magnitude, magnitudeOf, hexponent, hfraction]

/-- The next pattern denotes more. -/
lemma magnitudeOf_lt_succ (w : ℕ) : magnitudeOf w < magnitudeOf (w + 1) := by
  obtain ⟨e, f, he, hf, hw⟩ : ∃ e f, w / 2 ^ 52 = e ∧ w % 2 ^ 52 = f ∧ w = e * 2 ^ 52 + f :=
    ⟨_, _, rfl, rfl, by omega⟩
  by_cases hcarry : f = 2 ^ 52 - 1
  · have he' : (w + 1) / 2 ^ 52 = e + 1 := by omega
    have hf' : (w + 1) % 2 ^ 52 = 0 := by omega
    rw [magnitudeOf, magnitudeOf, he, hf, he', hf', if_neg (Nat.succ_ne_zero e), Nat.add_sub_cancel]
    cases e with
    | zero =>
      rw [if_pos rfl, pow_zero]
      omega
    | succ e =>
      have hpos : 0 < 2 ^ e := by positivity
      rw [if_neg (Nat.succ_ne_zero e), Nat.add_sub_cancel, pow_succ]
      calc (2 ^ 52 + f) * 2 ^ e < 2 ^ 53 * 2 ^ e := Nat.mul_lt_mul_of_pos_right (by omega) hpos
        _ = (2 ^ 52 + 0) * (2 ^ e * 2) := by ring
  · have he' : (w + 1) / 2 ^ 52 = e := by omega
    have hf' : (w + 1) % 2 ^ 52 = f + 1 := by omega
    rw [magnitudeOf, magnitudeOf, he, hf, he', hf']
    split
    · omega
    · exact Nat.mul_lt_mul_of_pos_right (by omega) (by positivity)

/-- Patterns without a sign order as the absolute values do. -/
lemma magnitudeOf_lt_iff {v w : ℕ} : magnitudeOf v < magnitudeOf w ↔ v < w :=
  (strictMono_nat_of_lt_succ magnitudeOf_lt_succ).lt_iff_lt

/-- The pattern as a word that orders as the number does. -/
def orderWord (d : Binary64) : ℕ :=
  if d.negative then 2 ^ 64 - 1 - d.bits.toNat else d.bits.toNat + 2 ^ 63

/-- The sign of a pattern, by its number. -/
lemma negative_iff : d.negative = true ↔ 2 ^ 63 ≤ d.bits.toNat := by
  rw [negative, BitVec.msb_eq_decide, decide_eq_true_eq]

/-- The value of a negative number. -/
lemma units_of_negative (h : d.negative = true) :
    d.units = -(magnitudeOf (d.bits.toNat - 2 ^ 63) : ℤ) := by
  have hlow := negative_iff.1 h
  have hhigh := d.bits.isLt
  have hmod : d.bits.toNat % 2 ^ 63 = d.bits.toNat - 2 ^ 63 := by omega
  rw [units, if_pos h, magnitude_eq, hmod]

/-- The value of a number that is not negative. -/
lemma units_of_not_negative (h : ¬ d.negative = true) : d.units = magnitudeOf d.bits.toNat := by
  have hlow := mt negative_iff.2 h
  have hmod : d.bits.toNat % 2 ^ 63 = d.bits.toNat := by omega
  rw [units, if_neg h, magnitude_eq, hmod]

/-- A pattern is told by its word. -/
lemma orderWord_inj (h : d.orderWord = e.orderWord) : d = e := by
  have hd := d.bits.isLt
  have he := e.bits.isLt
  have hbits : d.bits.toNat = e.bits.toNat := by
    unfold orderWord at h
    split at h
    · next hdn =>
      have hdlow := negative_iff.1 hdn
      split at h
      · omega
      · next hen =>
        have helow := mt negative_iff.2 hen
        omega
    · next hdn =>
      have hdlow := mt negative_iff.2 hdn
      split at h
      · next hen =>
        have helow := negative_iff.1 hen
        omega
      · omega
  cases d
  cases e
  exact congrArg mk (BitVec.eq_of_toNat_eq hbits)

/-- **Words of patterns order as the numbers do**, unless the two numbers are zero. -/
theorem orderWord_lt_iff (h : d.units ≠ 0) : d.orderWord < e.orderWord ↔ d.units < e.units := by
  have hd := d.bits.isLt
  have he := e.bits.isLt
  unfold orderWord
  by_cases hdn : d.negative = true
  · have hdlow := negative_iff.1 hdn
    by_cases hen : e.negative = true
    · have helow := negative_iff.1 hen
      rw [if_pos hdn, if_pos hen, units_of_negative hdn, units_of_negative hen, neg_lt_neg_iff,
        Int.ofNat_lt, magnitudeOf_lt_iff]
      omega
    · have helow := mt negative_iff.2 hen
      rw [units_of_negative hdn] at h ⊢
      rw [if_pos hdn, if_neg hen, units_of_not_negative hen]
      omega
  · have hdlow := mt negative_iff.2 hdn
    by_cases hen : e.negative = true
    · have helow := negative_iff.1 hen
      rw [if_neg hdn, if_pos hen, units_of_not_negative hdn, units_of_negative hen]
      omega
    · rw [if_neg hdn, if_neg hen, units_of_not_negative hdn, units_of_not_negative hen,
        Int.ofNat_lt, magnitudeOf_lt_iff]
      omega

/-- Patterns of one number other than zero are the same. -/
lemma eq_of_units_eq (hne : d.units ≠ 0) (h : d.units = e.units) : d = e := by
  refine orderWord_inj (le_antisymm ?_ ?_)
  · exact not_lt.1 fun hlt => absurd ((orderWord_lt_iff (h ▸ hne)).1 hlt) (h ▸ lt_irrefl _)
  · exact not_lt.1 fun hlt => absurd ((orderWord_lt_iff hne).1 hlt) (h ▸ lt_irrefl _)

end Binary64
