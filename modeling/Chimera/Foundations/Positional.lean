import Mathlib.Algebra.Order.Ring.Nat
import Mathlib.Tactic.Positivity
import Mathlib.Tactic.Ring

/-!
# Numerals of a fixed length

The digits of a number in a base, the most significant one first and as many as asked for.  As long
as the numbers fit, the digits tell them, comparing digits from the front compares the numbers, and
the number is what the digits add up to.
-/

namespace Positional

variable {α : Type*} {b count m n : ℕ}

/-- The last `count` digits of a number, the most significant one first. -/
def digits (b count n : ℕ) : List ℕ := (List.range count).map fun i => n / b ^ (count - 1 - i) % b

/-- What digits add up to, after some that are worth `acc`. -/
def value (b : ℕ) (ds : List ℕ) (acc : ℕ) : ℕ := ds.foldl (fun acc d => acc * b + d) acc

/-- As many digits as asked for. -/
@[simp] lemma length_digits : (digits b count n).length = count := by simp [digits]

/-- The first digit, and the others. -/
lemma digits_succ (b count n : ℕ) :
    digits b (count + 1) n = n / b ^ count % b :: digits b count n := by
  rw [digits, List.range_succ_eq_map, List.map_cons, List.map_map]
  refine congrArg₂ List.cons (by simp) (List.map_congr_left fun i _ => ?_)
  rw [Function.comp_apply]
  congr 3
  omega

/-- A digit is below the base. -/
lemma lt_of_mem_digits (hb : 0 < b) {d : ℕ} (h : d ∈ digits b count n) : d < b := by
  obtain ⟨i, -, rfl⟩ := List.mem_map.1 h
  exact Nat.mod_lt _ hb

/-- Digits in front of the last `count` do not matter to these. -/
lemma digits_mod (b count n : ℕ) : digits b count (n % b ^ count) = digits b count n := by
  refine List.map_congr_left fun i hi => ?_
  have hsplit : b ^ count = b ^ (count - 1 - i) * b ^ (i + 1) := by
    rw [← pow_add]
    congr 1
    have := List.mem_range.1 hi
    omega
  rw [hsplit, Nat.mod_mul_right_div_self, pow_succ, Nat.mod_mul_left_mod]

/-- The first of the digits of a number that fits. -/
lemma first_digit (h : n < b ^ (count + 1)) : n / b ^ count % b = n / b ^ count := by
  refine Nat.mod_eq_of_lt (Nat.div_lt_of_lt_mul ?_)
  rwa [pow_succ] at h

/-- The digits of a number add up to it. -/
theorem value_digits (hb : 0 < b) (h : n < b ^ count) (acc : ℕ) :
    value b (digits b count n) acc = acc * b ^ count + n := by
  induction count generalizing n acc with
  | zero =>
    obtain rfl : n = 0 := by simpa using h
    simp [digits, value]
  | succ count ih =>
    have hrest : n % b ^ count < b ^ count := Nat.mod_lt _ (by positivity)
    have hdigits := ih hrest (acc * b + n / b ^ count)
    rw [digits_mod] at hdigits
    rw [digits_succ, first_digit h]
    calc value b (n / b ^ count :: digits b count n) acc
        = value b (digits b count n) (acc * b + n / b ^ count) := rfl
      _ = (acc * b + n / b ^ count) * b ^ count + n % b ^ count := hdigits
      _ = acc * b ^ (count + 1) + (b ^ count * (n / b ^ count) + n % b ^ count) := by ring
      _ = acc * b ^ (count + 1) + n := by rw [Nat.div_add_mod]

/-- Numbers compare as their first digits do, or as the rest where these are equal. -/
lemma lt_iff_digits (b count m n : ℕ) (hb : 0 < b) :
    m < n ↔ m / b ^ count < n / b ^ count ∨
      m / b ^ count = n / b ^ count ∧ m % b ^ count < n % b ^ count := by
  have hpos : 0 < b ^ count := by positivity
  constructor
  · intro h
    rcases Nat.lt_or_eq_of_le (Nat.div_le_div_right h.le) with hlt | heq
    · exact .inl hlt
    · refine .inr ⟨heq, ?_⟩
      have hm := Nat.div_add_mod m (b ^ count)
      have hn := Nat.div_add_mod n (b ^ count)
      rw [heq] at hm
      omega
  · rintro (hlt | ⟨heq, hlt⟩)
    · exact lt_of_not_ge fun hge => absurd (Nat.div_le_div_right hge) (Nat.not_le.2 hlt)
    · have hm := Nat.div_add_mod m (b ^ count)
      have hn := Nat.div_add_mod n (b ^ count)
      rw [heq] at hm
      omega

/-- **Comparing digits compares numbers**, also after the digits are written in an alphabet that
keeps their order. -/
theorem map_digits_lt_iff [Preorder α] {f : ℕ → α} (hb : 0 < b)
    (hf : ∀ i j, i < b → j < b → (f i < f j ↔ i < j)) (hm : m < b ^ count) (hn : n < b ^ count) :
    (digits b count m).map f < (digits b count n).map f ↔ m < n := by
  have hinj : ∀ i j, i < b → j < b → (f i = f j ↔ i = j) := by
    intro i j hi hj
    refine ⟨fun h => ?_, congrArg f⟩
    rcases Nat.lt_trichotomy i j with hlt | heq | hlt
    · exact absurd (h ▸ (hf i j hi hj).2 hlt) (lt_irrefl _)
    · exact heq
    · exact absurd (h ▸ (hf j i hj hi).2 hlt) (lt_irrefl _)
  induction count generalizing m n with
  | zero =>
    obtain rfl : m = 0 := by simpa using hm
    obtain rfl : n = 0 := by simpa using hn
    simp [digits]
  | succ count ih =>
    have hpos : 0 < b ^ count := by positivity
    have hdigit : ∀ k, k < b ^ (count + 1) → k / b ^ count < b := fun k hk =>
      Nat.div_lt_of_lt_mul (by rwa [pow_succ] at hk)
    have hrest : (digits b count m).map f < (digits b count n).map f ↔
        m % b ^ count < n % b ^ count := by
      rw [← digits_mod b count m, ← digits_mod b count n]
      exact ih (Nat.mod_lt m hpos) (Nat.mod_lt n hpos)
    rw [digits_succ, digits_succ, first_digit hm, first_digit hn, List.map_cons, List.map_cons,
      List.cons_lt_cons_iff, hf _ _ (hdigit m hm) (hdigit n hn),
      hinj _ _ (hdigit m hm) (hdigit n hn), hrest, ← lt_iff_digits b count m n hb]

/-- Numbers that fit are told by their digits. -/
theorem digits_inj (hb : 0 < b) (hm : m < b ^ count) (hn : n < b ^ count)
    (h : digits b count m = digits b count n) : m = n := by
  have hvalue := congrArg (fun ds => value b ds 0) h
  simpa [value_digits hb hm, value_digits hb hn] using hvalue

/-- They are told by their digits, as a function spells them that tells the digits. -/
theorem map_digits_inj {f : ℕ → α} (hf : ∀ k < b, ∀ l < b, f k = f l → k = l) (hb : 0 < b)
    (hm : m < b ^ count) (hn : n < b ^ count)
    (h : (digits b count m).map f = (digits b count n).map f) : m = n := by
  refine digits_inj hb hm hn (List.map_congr_left fun i hi => ?_)
  rw [digits, digits, List.map_map, List.map_map] at h
  exact hf _ (Nat.mod_lt _ hb) _ (Nat.mod_lt _ hb) (List.map_eq_map_iff.1 h i hi)

/-- The last digit, and the others. -/
lemma digits_concat (b count n : ℕ) :
    digits b (count + 1) n = digits b count (n / b) ++ [n % b] := by
  rw [digits, List.range_succ, List.map_append, List.map_singleton]
  refine congrArg₂ (· ++ ·) (List.map_congr_left fun i hi => ?_) ?_
  · have hexponent : count + 1 - 1 - i = count - 1 - i + 1 := by
      have := List.mem_range.1 hi
      omega
    rw [hexponent, pow_succ, Nat.mul_comm, Nat.div_div_eq_div_mul]
  · rw [Nat.add_sub_cancel, Nat.sub_self, pow_zero, Nat.div_one]

/-- The digits of zero are zeros. -/
lemma digits_zero : digits b count 0 = List.replicate count 0 := by
  refine List.eq_replicate_iff.2 ⟨length_digits, fun d hd => ?_⟩
  obtain ⟨i, -, rfl⟩ := List.mem_map.1 hd
  rw [Nat.zero_div, Nat.zero_mod]

/-- Digits that are written without zeros in front, behind zeros. -/
lemma replicate_append_toDigits (hb : 1 < b) (h : n < b ^ (count + 1)) :
    List.replicate (count + 1 - (Nat.toDigits b n).length) '0' ++ Nat.toDigits b n =
      (digits b (count + 1) n).map Nat.digitChar := by
  have hsmall {count n : ℕ} (hn : n < b) :
      List.replicate (count + 1 - (Nat.toDigits b n).length) '0' ++ Nat.toDigits b n =
        (digits b (count + 1) n).map Nat.digitChar := by
    rw [digits_concat, Nat.toDigits_of_lt_base hn, Nat.div_eq_of_lt hn, Nat.mod_eq_of_lt hn,
      digits_zero, List.map_append, List.map_replicate]
    rfl
  induction count generalizing n with
  | zero => exact hsmall (by simpa using h)
  | succ count ih =>
    by_cases hn : n < b
    · exact hsmall hn
    · have hdiv : n / b < b ^ (count + 1) := by
        rw [pow_succ] at h
        exact Nat.div_lt_of_lt_mul (by rwa [Nat.mul_comm])
      rw [digits_concat, Nat.toDigits_of_base_le hb (Nat.not_lt.1 hn), List.map_append, ← ih hdiv,
        List.length_append, List.length_singleton, Nat.add_sub_add_right, List.append_assoc]
      rfl

/-- Digits below the base add up to a number that fits, and are its digits. -/
theorem digits_value (hb : 0 < b) {ds : List ℕ} (h : ∀ d ∈ ds, d < b) :
    value b ds 0 < b ^ ds.length ∧ digits b ds.length (value b ds 0) = ds := by
  induction ds using List.reverseRecOn with
  | nil => exact ⟨Nat.one_pos, rfl⟩
  | append_singleton ds d ih =>
    have hd : d < b := h d (List.mem_append_right _ List.mem_cons_self)
    obtain ⟨hlt, hdigits⟩ := ih fun d hd => h d (List.mem_append_left _ hd)
    have hvalue : value b (ds ++ [d]) 0 = value b ds 0 * b + d := by
      rw [value, List.foldl_append]
      rfl
    have hdiv : (value b ds 0 * b + d) / b = value b ds 0 := by
      rw [Nat.add_comm, Nat.add_mul_div_right _ _ hb, Nat.div_eq_of_lt hd, Nat.zero_add]
    have hmod : (value b ds 0 * b + d) % b = d := by
      rw [Nat.add_comm, Nat.add_mul_mod_self_right, Nat.mod_eq_of_lt hd]
    rw [hvalue, List.length_append, List.length_singleton]
    constructor
    · calc value b ds 0 * b + d
          < (value b ds 0 + 1) * b := by rw [Nat.add_mul, Nat.one_mul]; omega
        _ ≤ b ^ ds.length * b := Nat.mul_le_mul_right b hlt
        _ = b ^ (ds.length + 1) := (pow_succ b _).symm
    · rw [digits_concat, hdiv, hmod, hdigits]

end Positional
