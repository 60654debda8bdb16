import Chimera.Foundations.Binary64
import Mathlib.Algebra.Order.Ring.Int
import Mathlib.Tactic.Ring

/-!
# Rounding integers to binary64

An integer far below the largest binary64 number is rounded to fifty-three significant bits, ties to
even.  `nearest` is that rounding on natural numbers, and `nearestInt` on integers.  The numbers
that are rounded to `s` are those that miss it by less than half of the spacing on their side.
-/

namespace Binary64

/-! ## Packed fields -/

/-- The pattern of a packed number, before it wraps. -/
lemma toNat_pack (s : Bool) {e f : ℕ} (he : e < 2 ^ 11) (hf : f < 2 ^ 52) :
    (pack s e f).bits.toNat = (if s then 2 ^ 63 else 0) + e * 2 ^ 52 + f := by
  have hsign : (if s then 2 ^ 63 else 0) ≤ 2 ^ 63 := by split <;> omega
  rw [pack, BitVec.toNat_ofNat, Nat.mod_eq_of_lt]
  omega

/-- The exponent of a packed number. -/
lemma exponentField_pack (s : Bool) {e f : ℕ} (he : e < 2 ^ 11) (hf : f < 2 ^ 52) :
    (pack s e f).exponentField = e := by
  rw [exponentField, toNat_pack s he hf]
  split <;> omega

/-- The fraction of a packed number. -/
lemma fractionField_pack (s : Bool) {e f : ℕ} (he : e < 2 ^ 11) (hf : f < 2 ^ 52) :
    (pack s e f).fractionField = f := by
  rw [fractionField, toNat_pack s he hf]
  split <;> omega

/-- The sign of a packed number. -/
lemma negative_pack (s : Bool) {e f : ℕ} (he : e < 2 ^ 11) (hf : f < 2 ^ 52) :
    (pack s e f).negative = s := by
  have hbits := toNat_pack s he hf
  rw [negative, BitVec.msb_eq_decide, hbits]
  cases s
  · simp only [Bool.false_eq_true, if_false, decide_eq_false_iff_not, not_le]
    omega
  · simp only [if_true, decide_eq_true_eq]
    omega

/-! ## Rounding natural numbers -/

/-- How many low bits of a number are not significant. -/
def excess (n : ℕ) : ℕ := Nat.log2 n - 52

/-- The distance to the next larger number of fifty-three bits. -/
def spacing (n : ℕ) : ℕ := 2 ^ excess n

/-- The quotient is rounded up: the rest is more than a half, or a half of an odd quotient. -/
def roundsUp (n k : ℕ) : Prop :=
  2 ^ k < 2 * (n % 2 ^ k) ∨ (2 * (n % 2 ^ k) = 2 ^ k ∧ n / 2 ^ k % 2 = 1)

instance (n k : ℕ) : Decidable (roundsUp n k) :=
  inferInstanceAs (Decidable (_ ∨ _))

/-- The number of fifty-three bits nearest to a number, ties to the even one. -/
def nearest (n : ℕ) : ℕ :=
  if n < 2 ^ 53 then n
  else (n / spacing n + if roundsUp n (excess n) then 1 else 0) * spacing n

/-- The integer of fifty-three bits nearest to an integer. -/
def nearestInt (n : ℤ) : ℤ := if n < 0 then -(nearest n.natAbs : ℤ) else nearest n.natAbs

/-- The low bits of a large number. -/
lemma excess_eq_iff {n k : ℕ} (hk : 0 < k) :
    excess n = k ↔ 2 ^ (52 + k) ≤ n ∧ n < 2 ^ (53 + k) := by
  unfold excess
  constructor
  · intro h
    have hlog : Nat.log2 n = 52 + k := by omega
    have hne : n ≠ 0 := by
      rintro rfl
      rw [Nat.log2_zero] at hlog
      omega
    have hbounds := (Nat.log2_eq_iff hne).1 hlog
    rwa [show 52 + k + 1 = 53 + k by omega] at hbounds
  · rintro ⟨hlow, hhigh⟩
    have hne : n ≠ 0 := (Nat.two_pow_pos (52 + k)).trans_le hlow |>.ne'
    have hlog : Nat.log2 n = 52 + k := by
      rw [Nat.log2_eq_iff hne, show 52 + k + 1 = 53 + k by omega]
      exact ⟨hlow, hhigh⟩
    omega

/-- All bits of a small number are significant. -/
lemma excess_eq_zero_iff {n : ℕ} : excess n = 0 ↔ n < 2 ^ 53 := by
  unfold excess
  rcases Nat.eq_zero_or_pos n with rfl | hpos
  · simp
  · have hlog : Nat.log2 n < 53 ↔ n < 2 ^ 53 := Nat.log2_lt hpos.ne'
    omega

/-- A large number by its quotient and rest. -/
lemma exists_quotient {n : ℕ} (h : 2 ^ 53 ≤ n) :
    ∃ k q r, 0 < k ∧ excess n = k ∧ n = q * 2 ^ k + r ∧ r < 2 ^ k ∧ 2 ^ 52 ≤ q ∧ q < 2 ^ 53 := by
  have hk : 0 < excess n := by
    rw [Nat.pos_iff_ne_zero, Ne, excess_eq_zero_iff]
    omega
  obtain ⟨hlow, hhigh⟩ := (excess_eq_iff hk).1 rfl
  refine ⟨excess n, n / 2 ^ excess n, n % 2 ^ excess n, hk, rfl, (Nat.div_add_mod' n _).symm,
    Nat.mod_lt _ (Nat.two_pow_pos _), ?_, ?_⟩
  · rw [Nat.le_div_iff_mul_le (Nat.two_pow_pos _), ← pow_add]
    exact hlow
  · rw [Nat.div_lt_iff_lt_mul (Nat.two_pow_pos _), ← pow_add]
    exact hhigh

/-- The bounds of a number in terms of its quotient. -/
lemma excess_of_quotient {k q r : ℕ} (hk : 0 < k) (hr : r < 2 ^ k) (hlow : 2 ^ 52 ≤ q)
    (hhigh : q < 2 ^ 53) : excess (q * 2 ^ k + r) = k := by
  rw [excess_eq_iff hk, pow_add, pow_add]
  constructor
  · exact (Nat.mul_le_mul_right _ hlow).trans (Nat.le_add_right _ _)
  · calc q * 2 ^ k + r < (q + 1) * 2 ^ k := by rw [Nat.succ_mul]; omega
      _ ≤ 2 ^ 53 * 2 ^ k := Nat.mul_le_mul_right _ hhigh

/-- Rounding a large number. -/
lemma nearest_of_quotient {k q r : ℕ} (hk : 0 < k) (hr : r < 2 ^ k) (hlow : 2 ^ 52 ≤ q)
    (hhigh : q < 2 ^ 53) : nearest (q * 2 ^ k + r) =
      (q + if 2 ^ k < 2 * r ∨ (2 * r = 2 ^ k ∧ q % 2 = 1) then 1 else 0) * 2 ^ k := by
  have hexcess := excess_of_quotient hk hr hlow hhigh
  have hlarge : ¬ q * 2 ^ k + r < 2 ^ 53 := by
    rw [← excess_eq_zero_iff, hexcess]
    omega
  have hdiv : (q * 2 ^ k + r) / 2 ^ k = q := by
    rw [Nat.add_comm, Nat.add_mul_div_right _ _ (Nat.two_pow_pos k), Nat.div_eq_of_lt hr,
      Nat.zero_add]
  have hmod : (q * 2 ^ k + r) % 2 ^ k = r := by
    rw [Nat.add_comm, Nat.add_mul_mod_self_right, Nat.mod_eq_of_lt hr]
  have hup : roundsUp (q * 2 ^ k + r) k ↔ 2 ^ k < 2 * r ∨ (2 * r = 2 ^ k ∧ q % 2 = 1) := by
    rw [roundsUp, hdiv, hmod]
  rw [nearest, if_neg hlarge, spacing, hexcess, hdiv]
  simp only [hup]

/-! ## What is rounded to a number -/

/-- An error at a number of fifty-three bits is lost in rounding: it is less than half of the
spacing on its side, or half of it at an even number. -/
def Swallows (s : ℕ) (t : ℤ) : Prop :=
  if 0 ≤ t then 2 * t < spacing s ∨ (2 * t = spacing s ∧ s / spacing s % 2 = 0)
  else 2 * -t < spacing (s - 1) ∨ (2 * -t = spacing (s - 1) ∧ s / spacing (s - 1) % 2 = 0)

instance (s : ℕ) (t : ℤ) : Decidable (Swallows s t) := by
  unfold Swallows
  infer_instance

/-- A number of fifty-three bits is a multiple of its spacing. -/
lemma spacing_dvd_of_quotient {k q : ℕ} (hk : 0 < k) (hlow : 2 ^ 52 ≤ q) (hhigh : q ≤ 2 ^ 53) :
    spacing (q * 2 ^ k) ∣ q * 2 ^ k := by
  rcases hhigh.lt_or_eq with hlt | rfl
  · have hexcess := excess_of_quotient hk (Nat.two_pow_pos k) hlow hlt
    rw [Nat.add_zero] at hexcess
    rw [spacing, hexcess]
    exact Nat.dvd_mul_left _ _
  · have hmul : 2 ^ 53 * 2 ^ k = 2 ^ 52 * 2 ^ (k + 1) + 0 := by
      rw [Nat.add_zero, ← pow_add, ← pow_add]
      congr 1
      omega
    have hexcess := excess_of_quotient (k := k + 1) (q := 2 ^ 52) (by omega)
      (Nat.two_pow_pos (k + 1)) (by omega) (by omega)
    rw [hmul, spacing, hexcess, Nat.add_zero]
    exact Nat.dvd_mul_left _ _

/-- Rounding to a number of fifty-three bits loses an error that it swallows. -/
lemma swallows_nearest (x : ℕ) : spacing (nearest x) ∣ nearest x ∧
    Swallows (nearest x) (x - nearest x) := by
  by_cases hsmall : x < 2 ^ 53
  · have hspacing : spacing x = 1 := by rw [spacing, excess_eq_zero_iff.2 hsmall, pow_zero]
    have hnearest : nearest x = x := if_pos hsmall
    rw [hnearest, Swallows, if_pos (by omega), hspacing]
    exact ⟨Nat.one_dvd x, .inl (by omega)⟩
  · obtain ⟨k, q, r, hk, -, rfl, hr, hlow, hhigh⟩ := exists_quotient (not_lt.1 hsmall)
    rw [nearest_of_quotient hk hr hlow hhigh]
    split
    · next hup =>
      have hless : (q + 1) * 2 ^ k - 1 = q * 2 ^ k + (2 ^ k - 1) := by
        rw [Nat.succ_mul]
        omega
      have hspacing : spacing ((q + 1) * 2 ^ k - 1) = 2 ^ k := by
        rw [hless, spacing, excess_of_quotient hk (by omega) hlow hhigh]
      have hdiv : (q + 1) * 2 ^ k / 2 ^ k = q + 1 := Nat.mul_div_cancel _ (Nat.two_pow_pos k)
      refine ⟨spacing_dvd_of_quotient hk (by omega) (by omega), ?_⟩
      rw [Swallows, hspacing, hdiv, Nat.succ_mul]
      generalize 2 ^ k = g at hr hup ⊢
      rw [if_neg (by omega)]
      omega
    · next hup =>
      have hspacing : spacing (q * 2 ^ k) = 2 ^ k := by
        have hexcess := excess_of_quotient hk (Nat.two_pow_pos k) hlow hhigh
        rw [Nat.add_zero] at hexcess
        rw [spacing, hexcess]
      have hdiv : q * 2 ^ k / 2 ^ k = q := Nat.mul_div_cancel _ (Nat.two_pow_pos k)
      rw [Nat.add_zero]
      refine ⟨spacing_dvd_of_quotient hk hlow hhigh.le, ?_⟩
      rw [Swallows, hspacing, hdiv]
      generalize 2 ^ k = g at hr hup ⊢
      rw [if_pos (by omega)]
      omega

/-- **Rounding to a number.**  A number is rounded to `s` exactly when `s` has at most fifty-three
bits and swallows the difference. -/
theorem nearest_eq_iff {x s : ℕ} : nearest x = s ↔ spacing s ∣ s ∧ Swallows s (x - s) := by
  constructor
  · rintro rfl
    exact swallows_nearest x
  · rintro ⟨hdvd, hswallows⟩
    unfold Swallows at hswallows
    split at hswallows
    · next hup =>
      -- the error points away from zero, and `s` is the quotient
      by_cases hsmall : s < 2 ^ 53
      · rw [spacing, excess_eq_zero_iff.2 hsmall, pow_zero] at hswallows
        obtain rfl : x = s := by omega
        exact if_pos hsmall
      · obtain ⟨k, q, r, hk, hexcess, rfl, hr, hlow, hhigh⟩ := exists_quotient (not_lt.1 hsmall)
        rw [spacing, hexcess] at hdvd hswallows
        obtain rfl : r = 0 := by
          have hdvdr : 2 ^ k ∣ r := (Nat.dvd_add_right (Nat.dvd_mul_left _ _)).1 hdvd
          exact Nat.eq_zero_of_dvd_of_lt hdvdr hr
        rw [Nat.add_zero] at hswallows hup ⊢
        rw [Nat.mul_div_cancel _ (Nat.two_pow_pos k)] at hswallows
        obtain ⟨t, rfl⟩ : ∃ t, x = q * 2 ^ k + t := ⟨x - q * 2 ^ k, by omega⟩
        have hhalf : 2 * t < 2 ^ k ∨ (2 * t = 2 ^ k ∧ q % 2 = 0) := by
          generalize 2 ^ k = g at hswallows ⊢
          omega
        have hpow := Nat.two_pow_pos k
        rw [nearest_of_quotient hk (by omega) hlow hhigh, if_neg (by omega), Nat.add_zero]
    · next hdown =>
      -- the error points towards zero, and `s` is one more than the quotient
      by_cases hsmall : s - 1 < 2 ^ 53
      · rw [spacing, excess_eq_zero_iff.2 hsmall, pow_zero] at hswallows
        omega
      · obtain ⟨k, q, r, hk, hexcess, hs, hr, hlow, hhigh⟩ := exists_quotient (not_lt.1 hsmall)
        rw [spacing, hexcess] at hswallows
        have hdvd' : 2 ^ k ∣ s := by
          refine Nat.dvd_trans (Nat.pow_dvd_pow 2 ?_) hdvd
          rw [← hexcess, excess, excess]
          have hlog : Nat.log2 (s - 1) ≤ Nat.log2 s := by
            rw [Nat.log2_eq_log_two, Nat.log2_eq_log_two]
            exact Nat.log_mono_right (Nat.sub_le s 1)
          omega
        obtain ⟨c, rfl⟩ := hdvd'
        have hpow := Nat.two_pow_pos k
        obtain rfl : c = q + 1 := by
          have hlt : q * 2 ^ k < c * 2 ^ k := by rw [Nat.mul_comm c]; omega
          have hle : c * 2 ^ k ≤ (q + 1) * 2 ^ k := by
            rw [Nat.mul_comm c, Nat.succ_mul]
            omega
          have hlt' := Nat.lt_of_mul_lt_mul_right hlt
          have hle' := Nat.le_of_mul_le_mul_right hle hpow
          omega
        rw [Nat.mul_comm] at hswallows hdown hs ⊢
        rw [Nat.mul_div_cancel _ hpow] at hswallows
        rw [Nat.succ_mul] at hswallows hdown ⊢
        obtain ⟨t, rfl, hhalf⟩ : ∃ t, x = q * 2 ^ k + t ∧
            t < 2 ^ k ∧ (2 ^ k < 2 * t ∨ (2 * t = 2 ^ k ∧ q % 2 = 1)) := by
          refine ⟨x - q * 2 ^ k, ?_⟩
          generalize 2 ^ k = g at hswallows hdown hpow ⊢
          generalize q * g = c at hswallows hdown ⊢
          omega
        rw [nearest_of_quotient hk hhalf.1 hlow hhigh, if_pos hhalf.2, Nat.succ_mul]

/-- A number of at most fifty-three bits is its own rounding. -/
lemma nearest_of_dvd {s : ℕ} (h : spacing s ∣ s) : nearest s = s := by
  refine nearest_eq_iff.2 ⟨h, ?_⟩
  rw [Swallows, sub_self, if_pos (le_refl _), mul_zero]
  exact .inl (Int.natCast_pos.2 (Nat.two_pow_pos _))

/-- The spacing is at most the number, or one. -/
lemma spacing_le (n : ℕ) : spacing n ≤ n + 1 := by
  by_cases hsmall : n < 2 ^ 53
  · rw [spacing, excess_eq_zero_iff.2 hsmall, pow_zero]
    omega
  · obtain ⟨k, q, r, hk, hexcess, rfl, hr, hlow, hhigh⟩ := exists_quotient (not_lt.1 hsmall)
    have hle : 1 * 2 ^ k ≤ q * 2 ^ k := Nat.mul_le_mul_right _ (by omega)
    rw [spacing, hexcess]
    omega

/-- Only zero is rounded to zero. -/
lemma nearest_pos {n : ℕ} (h : 0 < n) : 0 < nearest n := by
  rw [Nat.pos_iff_ne_zero]
  intro hzero
  have hswallows := (nearest_eq_iff.1 hzero).2
  have hspacing : spacing 0 = 1 := by decide
  rw [Swallows, if_pos (by omega), hspacing] at hswallows
  omega

/-- Rounding moves a number by at most half of the spacing. -/
lemma nearest_error (n : ℕ) : 2 * nearest n ≤ 2 * n + spacing n ∧
    2 * n ≤ 2 * nearest n + spacing n := by
  by_cases hsmall : n < 2 ^ 53
  · rw [nearest, if_pos hsmall]
    omega
  · obtain ⟨k, q, r, hk, hexcess, rfl, hr, hlow, hhigh⟩ := exists_quotient (not_lt.1 hsmall)
    rw [nearest_of_quotient hk hr hlow hhigh, spacing, hexcess]
    split
    · rw [Nat.succ_mul q]
      omega
    · rw [Nat.add_zero]
      omega

/-- Rounding does not leave the numbers below a power of two, but for the power itself. -/
lemma nearest_le_two_pow {n j : ℕ} (hn : n < 2 ^ (53 + j)) : nearest n ≤ 2 ^ (53 + j) := by
  by_cases hsmall : n < 2 ^ 53
  · rw [nearest, if_pos hsmall]
    exact hn.le
  · obtain ⟨k, q, r, hk, hexcess, rfl, hr, hlow, hhigh⟩ := exists_quotient (not_lt.1 hsmall)
    have hkj : k ≤ j := by
      have hbounds := (excess_eq_iff hk).1 hexcess
      have hlt := (Nat.pow_lt_pow_iff_right (by omega)).1 (hbounds.1.trans_lt hn)
      omega
    rw [nearest_of_quotient hk hr hlow hhigh]
    calc _ ≤ 2 ^ 53 * 2 ^ k := Nat.mul_le_mul_right _ (by split <;> omega)
      _ = 2 ^ (53 + k) := (pow_add 2 53 k).symm
      _ ≤ 2 ^ (53 + j) := Nat.pow_le_pow_right (by omega) (by omega)

/-- An integer is rounded to `s` exactly when `s` has at most fifty-three bits and swallows the
difference. -/
theorem nearestInt_eq_iff {s e : ℤ} : nearestInt (s + e) = s ↔
    spacing s.natAbs ∣ s.natAbs ∧ Swallows s.natAbs (if s < 0 then -e else e) := by
  have hnear (hsign : (s + e < 0) ↔ s < 0) :
      nearestInt (s + e) = s ↔ nearest (s + e).natAbs = s.natAbs := by
    unfold nearestInt
    split <;> omega
  have hspacing := spacing_le (s.natAbs - 1)
  by_cases hs : s < 0
  · rw [if_pos hs]
    by_cases hx : s + e < 0
    · rw [hnear (iff_of_true hx hs), nearest_eq_iff,
        show ((s + e).natAbs : ℤ) - s.natAbs = -e by omega]
    · refine iff_of_false ?_ ?_
      · rw [nearestInt, if_neg hx]
        omega
      · rintro ⟨-, hswallows⟩
        rw [Swallows, if_neg (by omega)] at hswallows
        omega
  · rw [if_neg hs]
    by_cases hx : s + e < 0
    · refine iff_of_false ?_ ?_
      · have hpos := nearest_pos (n := (s + e).natAbs) (by omega)
        rw [nearestInt, if_pos hx]
        omega
      · rintro ⟨-, hswallows⟩
        rw [Swallows, if_neg (by omega)] at hswallows
        omega
    · rw [hnear (iff_of_false hx hs), nearest_eq_iff,
        show ((s + e).natAbs : ℤ) - s.natAbs = e by omega]

/-- Scaling by a power of two does not change what is rounded. -/
lemma nearest_mul_two_pow (m p : ℕ) : nearest (m * 2 ^ p) = nearest m * 2 ^ p := by
  by_cases hsmall : m < 2 ^ 53
  · rw [nearest.eq_def m, if_pos hsmall]
    refine nearest_of_dvd ?_
    rcases Nat.eq_zero_or_pos m with rfl | hpos
    · rw [Nat.zero_mul]
      exact Nat.dvd_zero _
    · refine Nat.dvd_trans ?_ (Nat.dvd_mul_left (2 ^ p) m)
      have hlog : Nat.log2 m < 53 := (Nat.log2_lt hpos.ne').2 hsmall
      have hlogp : Nat.log2 (m * 2 ^ p) = Nat.log2 m + p := by
        have hpow := Nat.two_pow_pos p
        rw [Nat.log2_eq_iff (Nat.mul_pos hpos hpow).ne', pow_add,
          show Nat.log2 m + p + 1 = (Nat.log2 m + 1) + p by omega, pow_add]
        exact ⟨Nat.mul_le_mul_right _ (Nat.log2_self_le hpos.ne'),
          Nat.mul_lt_mul_of_pos_right Nat.lt_log2_self hpow⟩
      rw [spacing, excess, hlogp]
      exact Nat.pow_dvd_pow 2 (by omega)
  · obtain ⟨k, q, r, hk, -, rfl, hr, hlow, hhigh⟩ := exists_quotient (not_lt.1 hsmall)
    have hpow := Nat.two_pow_pos p
    have hscaled : (q * 2 ^ k + r) * 2 ^ p = q * 2 ^ (k + p) + r * 2 ^ p := by
      rw [Nat.add_mul, Nat.mul_assoc, ← pow_add]
    have hless : r * 2 ^ p < 2 ^ (k + p) := by
      rw [pow_add]
      exact Nat.mul_lt_mul_of_pos_right hr hpow
    have hup : (2 ^ (k + p) < 2 * (r * 2 ^ p) ∨
        (2 * (r * 2 ^ p) = 2 ^ (k + p) ∧ q % 2 = 1)) ↔
          (2 ^ k < 2 * r ∨ (2 * r = 2 ^ k ∧ q % 2 = 1)) := by
      rw [pow_add, ← Nat.mul_assoc, Nat.mul_lt_mul_right hpow, Nat.mul_left_inj hpow.ne']
    rw [hscaled, nearest_of_quotient (by omega) hless hlow hhigh,
      nearest_of_quotient hk hr hlow hhigh, pow_add, ← Nat.mul_assoc]
    simp only [← pow_add, hup]

/-! ## Rounding to a pattern -/

/-- The number of packed fields; the fraction may carry into the exponent. -/
lemma magnitude_pack (s : Bool) {e q : ℕ} (he : e < 2045) (hlow : 2 ^ 52 ≤ q)
    (hhigh : q ≤ 2 ^ 53) :
    (pack s (e + 1) (q - 2 ^ 52)).magnitude = q * 2 ^ e ∧
      (pack s (e + 1) (q - 2 ^ 52)).negative = s ∧
      (pack s (e + 1) (q - 2 ^ 52)).isFinite = true := by
  rcases hhigh.lt_or_eq with hlt | rfl
  · have hf : q - 2 ^ 52 < 2 ^ 52 := by omega
    rw [magnitude, isFinite, exponentField_pack s (by omega) hf,
      fractionField_pack s (by omega) hf, negative_pack s (by omega) hf, if_neg (by omega),
      Nat.add_sub_cancel, Nat.add_sub_cancel' hlow]
    exact ⟨rfl, rfl, decide_eq_true (by omega)⟩
  · have hcarry : pack s (e + 1) (2 ^ 53 - 2 ^ 52) = pack s (e + 2) 0 := by
      have hsum (c : ℕ) : c + (e + 1) * 2 ^ 52 + (2 ^ 53 - 2 ^ 52) = c + (e + 2) * 2 ^ 52 + 0 := by
        omega
      rw [pack, hsum, pack]
    rw [hcarry, magnitude, isFinite, exponentField_pack s (by omega) (by omega),
      fractionField_pack s (by omega) (by omega), negative_pack s (by omega) (by omega),
      if_neg (by omega), Nat.add_zero, show e + 2 - 1 = e + 1 by omega, pow_succ 2 e]
    refine ⟨by ring, rfl, decide_eq_true (by omega)⟩

/-- **Rounding to a pattern.**  Far below the largest number, a multiple of the smallest one is
rounded to fifty-three significant bits. -/
theorem magnitude_round (s : Bool) {u c : ℕ} (hu : u < 2 ^ (52 + c)) (hc : c ≤ 1993) :
    (round s u).magnitude = nearest u ∧ (round s u).negative = s ∧
      (round s u).isFinite = true := by
  by_cases hsmall : u < 2 ^ 53
  · have hf : u % 2 ^ 52 < 2 ^ 52 := Nat.mod_lt _ (by omega)
    have he : u / 2 ^ 52 < 2 := by omega
    rw [round, if_pos hsmall, nearest, if_pos hsmall, magnitude, isFinite,
      exponentField_pack s (by omega) hf, fractionField_pack s (by omega) hf,
      negative_pack s (by omega) hf]
    refine ⟨?_, rfl, decide_eq_true (by omega)⟩
    split
    · omega
    · have hone : u / 2 ^ 52 = 1 := by omega
      rw [hone, Nat.sub_self, pow_zero]
      omega
  · obtain ⟨k, q, r, hk, hexcess, rfl, hr, hlow, hhigh⟩ := exists_quotient (not_lt.1 hsmall)
    have hpow := Nat.two_pow_pos k
    have hdiv : (q * 2 ^ k + r) / 2 ^ k = q := by
      rw [Nat.add_comm, Nat.add_mul_div_right _ _ hpow, Nat.div_eq_of_lt hr, Nat.zero_add]
    have hmod : (q * 2 ^ k + r) % 2 ^ k = r := by
      rw [Nat.add_comm, Nat.add_mul_mod_self_right, Nat.mod_eq_of_lt hr]
    have hkbound : k < c := by
      by_contra hge
      have hlarge : 2 ^ (52 + c) ≤ q * 2 ^ k + r := by
        rw [pow_add]
        exact (Nat.mul_le_mul hlow (Nat.pow_le_pow_right (by omega) (not_lt.1 hge))).trans
          (Nat.le_add_right _ _)
      exact absurd (hlarge.trans_lt hu) (lt_irrefl _)
    rw [excess] at hexcess
    rw [nearest_of_quotient hk hr hlow hhigh, round, if_neg hsmall]
    simp only [hexcess, hdiv, hmod]
    split
    · rw [if_neg (by omega)]
      exact magnitude_pack s (by omega) (by omega) (by omega)
    · rw [if_neg (by omega), Nat.add_zero]
      exact magnitude_pack s (by omega) hlow hhigh.le

end Binary64
