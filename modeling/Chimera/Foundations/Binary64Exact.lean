import Chimera.Foundations.Binary64Nearest

/-!
# Exact binary64 numbers

Numbers of at most fifty-three bits survive rounding.
-/

namespace Binary64

/-! ## Rounding -/

/-- Rounding keeps a number of at most fifty-three bits. -/
lemma round_exact (s : Bool) {m p : ℕ} (h : m < 2 ^ 53) (hp : p ≤ 1992) :
    (round s (m * 2 ^ p)).magnitude = m * 2 ^ p ∧ (round s (m * 2 ^ p)).negative = s := by
  have hsmall : m * 2 ^ p < 2 ^ (52 + (p + 1)) := by
    rw [show 52 + (p + 1) = 53 + p by omega, pow_add]
    exact Nat.mul_lt_mul_of_pos_right h (Nat.two_pow_pos p)
  obtain ⟨hmagnitude, hsign, -⟩ := magnitude_round s hsmall (by omega)
  rw [hmagnitude, nearest_mul_two_pow, nearest, if_pos h]
  exact ⟨rfl, hsign⟩

/-- The value of a rounded integer, from its absolute value. -/
lemma units_of_magnitude {d : Binary64} {n : ℤ} {m p : ℕ} (hsign : d.negative = decide (n < 0))
    (hm : d.magnitude = m * 2 ^ p) :
    d.units = (if n < 0 then -(m : ℤ) else m) * 2 ^ p := by
  rw [units, hm, hsign]
  push_cast
  by_cases hn : n < 0
  · rw [decide_eq_true hn, if_pos rfl, if_pos hn, neg_mul]
  · rw [decide_eq_false hn, if_neg Bool.false_ne_true, if_neg hn]

/-- An integer that is a number of at most fifty-three bits times a power of two is a binary64
number. -/
lemma units_ofInt {n : ℤ} {m p : ℕ} (h : m < 2 ^ 53) (hp : p ≤ 1992)
    (hn : n.natAbs * 2 ^ 1074 = m * 2 ^ p) : (ofInt n).units = n * 2 ^ 1074 := by
  obtain ⟨hmagnitude, hsign⟩ := round_exact (decide (n < 0)) h hp
  rw [← hn] at hmagnitude hsign
  obtain ⟨k, hk⟩ : ∃ k, k = 1074 := ⟨_, rfl⟩
  rw [← hk] at hmagnitude hsign ⊢
  have habs : (if n < 0 then -(n.natAbs : ℤ) else n.natAbs) = n := by split <;> omega
  rw [ofInt, ← hk, units_of_magnitude hsign hmagnitude, habs]

/-- **Exact integers.**  An integer below `2 ^ 53` in absolute value is a binary64 number. -/
theorem truncate_ofInt {n : ℤ} (h : n.natAbs < 2 ^ 53) : (ofInt n).truncate = n := by
  have hunits := units_ofInt h (show 1074 ≤ 1992 by omega) rfl
  obtain ⟨p, hp⟩ : ∃ p, p = 1074 := ⟨_, rfl⟩
  have hpow : (2 : ℤ) ^ p ≠ 0 := pow_ne_zero p (by decide)
  rw [← hp] at hunits
  rw [truncate, ← hp, hunits, Int.mul_tdiv_cancel _ hpow]

/-! ## Numbers that are integers -/

/-- A finite number other than zero is a number of at most fifty-three bits times a power of
two. -/
lemma exists_magnitude_eq {d : Binary64} (h : d.exponentField ≠ 0) :
    ∃ m, 2 ^ 52 ≤ m ∧ m < 2 ^ 53 ∧ d.magnitude = m * 2 ^ (d.exponentField - 1) := by
  have hfraction : d.fractionField < 2 ^ 52 := Nat.mod_lt _ (by omega)
  refine ⟨2 ^ 52 + d.fractionField, by omega, by omega, ?_⟩
  rw [magnitude, if_neg h]

/-- The absolute value of a number that is a multiple of a power of two. -/
lemma magnitude_of_units {d : Binary64} {n : ℤ} {c : ℕ} (h : d.units = n * 2 ^ c) :
    d.magnitude = n.natAbs * 2 ^ c := by
  have habs : d.units.natAbs = d.magnitude := by
    unfold units
    split
    · rw [Int.natAbs_neg, Int.natAbs_natCast]
    · rw [Int.natAbs_natCast]
  rw [← habs, h, Int.natAbs_mul, Int.natAbs_pow]
  rfl

/-- The number nearest to an integer that is a number is that number. -/
lemma units_ofInt_of_units {d : Binary64} {n : ℤ} (hn : n.natAbs < 2 ^ 64)
    (h : d.units = n * 2 ^ 1074) : (ofInt n).units = d.units := by
  obtain hzero | hpos := Nat.eq_zero_or_pos n.natAbs
  · obtain rfl : n = 0 := by omega
    have hzero : (ofInt 0).units = 0 := by decide +kernel
    exact hzero.trans (h.trans (zero_mul _)).symm
  obtain ⟨c, hc⟩ : ∃ c, c = 1074 := ⟨_, rfl⟩
  rw [← hc] at h
  have hmagnitude := magnitude_of_units h
  have hlarge : 2 ^ c ≤ d.magnitude := by
    rw [hmagnitude]
    exact Nat.le_mul_of_pos_left _ hpos
  have hsmall : d.magnitude < 2 ^ (64 + c) := by
    rw [hmagnitude, pow_add]
    exact Nat.mul_lt_mul_of_pos_right hn (Nat.two_pow_pos _)
  have hexponent : d.exponentField ≠ 0 := by
    intro hexp
    have hfraction : d.fractionField < 2 ^ 52 := Nat.mod_lt _ (by omega)
    rw [magnitude, if_pos hexp] at hlarge
    exact absurd (hlarge.trans_lt hfraction)
      (not_lt.2 (Nat.pow_le_pow_right (by omega) (by omega)))
  obtain ⟨m, hlow, hhigh, hm⟩ := exists_magnitude_eq hexponent
  rw [hm] at hlarge hsmall
  have hp : d.exponentField - 1 ≤ 1992 := by
    by_contra hgt
    obtain ⟨k, hk⟩ : ∃ k, k = 1993 := ⟨_, rfl⟩
    have hpow : 2 ^ 52 * 2 ^ k ≤ m * 2 ^ (d.exponentField - 1) :=
      Nat.mul_le_mul hlow (Nat.pow_le_pow_right (by omega) (by omega))
    rw [← pow_add] at hpow
    exact absurd (hpow.trans_lt hsmall)
      (not_lt.2 (Nat.pow_le_pow_right (by omega) (by omega)))
  have hn' := hmagnitude.symm.trans hm
  rw [h]
  subst hc
  exact units_ofInt hhigh hp hn'

/-! ## Rounding yields numbers -/

/-- A packed pattern up to infinity is not NaN. -/
lemma isNaN_pack (s : Bool) {e f : ℕ} (h : e * 2 ^ 52 + f ≤ 2047 * 2 ^ 52) :
    (pack s e f).isNaN = false := by
  have hbits : (pack s e f).bits.toNat = (if s then 2 ^ 63 else 0) + e * 2 ^ 52 + f := by
    have hsign : (if s then 2 ^ 63 else 0) ≤ 2 ^ 63 := by split <;> omega
    rw [pack, BitVec.toNat_ofNat, Nat.mod_eq_of_lt]
    omega
  by_contra hnan
  simp only [isNaN, Bool.not_eq_false, Bool.and_eq_true, decide_eq_true_eq] at hnan
  obtain ⟨hexponent, hfraction⟩ := hnan
  rw [exponentField, hbits] at hexponent
  rw [fractionField, hbits] at hfraction
  cases s
  · simp only [Bool.false_eq_true, if_false] at hexponent hfraction
    omega
  · simp only [if_true] at hexponent hfraction
    omega

/-- Rounding yields a number. -/
lemma isNaN_round (s : Bool) (u : ℕ) : (round s u).isNaN = false := by
  unfold round
  split
  · have hmod := Nat.div_add_mod u (2 ^ 52)
    exact isNaN_pack s (by omega)
  · extract_lets k q r q'
    split
    · exact isNaN_pack s (Nat.le_refl _)
    · next hsmall =>
      rw [not_le] at hsmall
      refine isNaN_pack s ?_
      rw [add_mul]
      omega

/-- The number nearest to an integer is a number. -/
lemma isNaN_ofInt (n : ℤ) : (ofInt n).isNaN = false := isNaN_round _ _

/-- Numbers of one value are equal. -/
lemma numEq_of_units_eq {d e : Binary64} (hd : d.isNaN = false) (he : e.isNaN = false)
    (h : d.units = e.units) : d.numEq e = true := by
  rw [numEq, hd, he, decide_eq_true h]
  rfl

/-- A finite number is a number. -/
lemma isNaN_of_isFinite {d : Binary64} (h : d.isFinite = true) : d.isNaN = false := by
  simp only [isFinite, decide_eq_true_eq] at h
  simp [isNaN, h]

/-! ## Sums of integers -/

/-- Rounding at most doubles. -/
lemma nearest_le (n : ℕ) : nearest n ≤ 2 * n := by
  by_cases hsmall : n < 2 ^ 53
  · rw [nearest, if_pos hsmall]
    omega
  · obtain ⟨k, q, r, hk, -, rfl, hr, hlow, hhigh⟩ := exists_quotient (not_lt.1 hsmall)
    rw [nearest_of_quotient hk hr hlow hhigh]
    calc _ ≤ (q + 1) * 2 ^ k := Nat.mul_le_mul_right _ (by split <;> omega)
      _ ≤ (2 * q) * 2 ^ k := Nat.mul_le_mul_right _ (by omega)
      _ ≤ 2 * (q * 2 ^ k + r) := by rw [Nat.mul_assoc]; omega

/-- Rounding an integer at most doubles its absolute value. -/
lemma natAbs_nearestInt_le (n : ℤ) : (nearestInt n).natAbs ≤ 2 * n.natAbs := by
  have hle := nearest_le n.natAbs
  unfold nearestInt
  split <;> omega

/-- The binary64 number nearest to an integer. -/
lemma units_round_int {n : ℤ} (h : n.natAbs < 2 ^ 68) {d : Binary64}
    (hd : d = round (decide (n < 0)) (n.natAbs * 2 ^ 1074)) :
    d.units = nearestInt n * 2 ^ 1074 ∧ d.isFinite = true := by
  obtain ⟨p, hp⟩ : ∃ p, p = 1074 := ⟨_, rfl⟩
  rw [← hp] at hd ⊢
  have hsmall : n.natAbs * 2 ^ p < 2 ^ (52 + (16 + p)) := by
    rw [show 52 + (16 + p) = 68 + p by omega, pow_add]
    exact Nat.mul_lt_mul_of_pos_right h (Nat.two_pow_pos p)
  obtain ⟨hmagnitude, hsign, hfinite⟩ := magnitude_round (decide (n < 0)) hsmall (by omega)
  rw [nearest_mul_two_pow] at hmagnitude
  rw [← hd] at hmagnitude hsign hfinite
  exact ⟨units_of_magnitude hsign hmagnitude, hfinite⟩

/-- The binary64 number of an integer is the integer of fifty-three bits nearest to it. -/
lemma units_ofInt_nearest {n : ℤ} (h : n.natAbs < 2 ^ 64) :
    (ofInt n).units = nearestInt n * 2 ^ 1074 ∧ (ofInt n).isFinite = true := by
  have hround := ofInt.eq_def n
  generalize ofInt n = d at hround
  exact units_round_int (by omega) hround

/-- As an integer. -/
lemma truncate_ofInt_nearest {n : ℤ} (h : n.natAbs < 2 ^ 64) :
    (ofInt n).truncate = nearestInt n := by
  obtain ⟨hunits, -⟩ := units_ofInt_nearest h
  obtain ⟨p, hp⟩ : ∃ p, p = 1074 := ⟨_, rfl⟩
  rw [← hp] at hunits
  rw [truncate, ← hp, hunits, Int.mul_tdiv_cancel _ (pow_ne_zero p (by decide))]

/-- A zero of either sign. -/
lemma units_pack_zero (s : Bool) : (pack s 0 0).units = 0 ∧ (pack s 0 0).isFinite = true := by
  cases s <;> decide

/-- **Sums of integers.**  Two integers are added by rounding both of them, and then the sum. -/
theorem truncate_add_ofInt {a b : ℤ} (ha : a.natAbs < 2 ^ 64) (hb : b.natAbs < 2 ^ 64) :
    (add (ofInt a) (ofInt b)).truncate = nearestInt (nearestInt a + nearestInt b) ∧
      (add (ofInt a) (ofInt b)).isFinite = true := by
  obtain ⟨haunits, hafinite⟩ := units_ofInt_nearest ha
  obtain ⟨hbunits, hbfinite⟩ := units_ofInt_nearest hb
  have hanan := isNaN_of_isFinite hafinite
  have hbnan := isNaN_of_isFinite hbfinite
  have hadouble := natAbs_nearestInt_le a
  have hbdouble := natAbs_nearestInt_le b
  obtain ⟨n, hn⟩ : ∃ n, n = nearestInt a + nearestInt b := ⟨_, rfl⟩
  obtain ⟨p, hp⟩ : ∃ p, p = 1074 := ⟨_, rfl⟩
  have hpow : (2 : ℤ) ^ p ≠ 0 := pow_ne_zero p (by decide)
  have hpowpos : (0 : ℤ) < 2 ^ p := pow_pos (by decide) p
  have hsum : (ofInt a).units + (ofInt b).units = n * 2 ^ p := by
    rw [haunits, hbunits, ← hp, hn, add_mul]
  have hadd : (add (ofInt a) (ofInt b)).units = nearestInt n * 2 ^ p ∧
      (add (ofInt a) (ofInt b)).isFinite = true := by
    unfold add
    simp only [hanan, hbnan, hafinite, hbfinite, hsum, Bool.or_self, Bool.not_true,
      Bool.false_eq_true, if_false]
    by_cases hzero : n = 0
    · rw [if_pos (by rw [hzero, zero_mul]), hzero]
      obtain ⟨hunits, hfinite⟩ := units_pack_zero ((ofInt a).negative && (ofInt b).negative)
      exact ⟨hunits.trans (zero_mul _).symm, hfinite⟩
    · rw [if_neg (mul_ne_zero hzero hpow)]
      have hneg : (n * 2 ^ p < 0) ↔ n < 0 := by
        rw [mul_neg_iff]
        constructor
        · rintro (⟨-, h⟩ | ⟨h, -⟩)
          · exact absurd h (not_lt.2 hpowpos.le)
          · exact h
        · exact fun h => .inr ⟨h, hpowpos⟩
      have habs : (n * 2 ^ p).natAbs = n.natAbs * 2 ^ p := by
        rw [Int.natAbs_mul, Int.natAbs_pow]
        rfl
      rw [habs, decide_eq_decide.2 hneg]
      subst hp
      exact units_round_int (by omega) rfl
  rw [truncate, ← hp, hadd.1, Int.mul_tdiv_cancel _ hpow, ← hn]
  exact ⟨rfl, hadd.2⟩

end Binary64
