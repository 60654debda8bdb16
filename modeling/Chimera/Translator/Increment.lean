import Chimera.Foundations.Binary64Exact
import Chimera.Foundations.Run
import Chimera.Translator.Writes

/-!
# Incrementing integers

`$inc` adds in floating point and casts the sum back, also when both sides are integers.  The
current value and the argument are rounded to fifty-three bits before they are added, and the sum
is rounded again; a sum that does not fit 64 bits is cast all the same.
-/

namespace Chimera

open Binary64 StepSystem

/-! ## Integers in a document -/

/-- The integer that a value is. -/
def Value.integer? : Value → Option ℤ
  | .int32 n => some n.toInt
  | .int64 n => some n.toInt
  | _ => none

/-- The integer that `$inc` finds at a path: zero where nothing is. -/
def currentInteger (d : Doc) (path : Path) : Option ℤ :=
  match pathGet d path with
  | none => some 0
  | some v => v.integer?

/-- The integer is one of 64 bits. -/
def FitsInt64 (n : ℤ) : Prop := -9223372036854775808 ≤ n ∧ n < 9223372036854775808

instance (n : ℤ) : Decidable (FitsInt64 n) := inferInstanceAs (Decidable (_ ∧ _))

/-- `$inc` is exact: it stores the sum where it fits 64 bits, and fails where it does not. -/
def IncrementExact (d : Doc) (path : Path) (arg : Value) (c b : ℤ) : Prop :=
  (FitsInt64 (c + b) → applyOne "$inc".toList d path arg =
      .ok (pathSet d path (.int64 (Int64.ofInt (c + b))))) ∧
    (¬ FitsInt64 (c + b) → ∃ e, applyOne "$inc".toList d path arg = .error e)

/-! ## When the sum is exact -/

/-- What `value_as_double` adds to an integer. -/
def roundingError (n : ℤ) : ℤ := (ofInt n).truncate - n

/-- The sum of two integers survives being computed in floating point: it fits 64 bits, it has at
most fifty-three significant bits, and the errors of the two integers together are less than half
of the spacing of the binary64 numbers on their side of it, or half of it at an even one. -/
def SumSurvives (c b : ℤ) : Prop :=
  FitsInt64 (c + b) ∧ spacing (c + b).natAbs ∣ (c + b).natAbs ∧
    Swallows (c + b).natAbs (if c + b < 0 then -(roundingError c + roundingError b)
      else roundingError c + roundingError b)

instance (c b : ℤ) : Decidable (SumSurvives c b) := inferInstanceAs (Decidable (_ ∧ _ ∧ _))

/-- The sum survives exactly when rounding brings it back. -/
lemma sumSurvives_iff {c b : ℤ} (hc : FitsInt64 c) (hb : FitsInt64 b) :
    SumSurvives c b ↔ FitsInt64 (c + b) ∧ nearestInt (nearestInt c + nearestInt b) = c + b := by
  obtain ⟨hclow, hchigh⟩ := hc
  obtain ⟨hblow, hbhigh⟩ := hb
  have hsum : nearestInt c + nearestInt b = (c + b) + (roundingError c + roundingError b) := by
    rw [roundingError, roundingError, truncate_ofInt_nearest (by omega),
      truncate_ofInt_nearest (by omega)]
    omega
  rw [SumSurvives, hsum, nearestInt_eq_iff]

/-- A number of 63 bits is rounded by at most 512. -/
lemma natAbs_roundingError_le {n : ℤ} (h : FitsInt64 n) : (roundingError n).natAbs ≤ 512 := by
  obtain ⟨hlow, hhigh⟩ := h
  have herror : (roundingError n).natAbs ≤
      ((nearest n.natAbs : ℤ) - n.natAbs).natAbs := by
    rw [roundingError, truncate_ofInt_nearest (by omega), nearestInt]
    split <;> omega
  refine herror.trans ?_
  by_cases htop : n.natAbs = 2 ^ 63
  · have hnearest : nearest (2 ^ 63) = 2 ^ 63 := nearest_of_dvd (by decide)
    rw [htop, hnearest]
    omega
  · have hspacing : spacing n.natAbs ≤ 2 ^ 10 := by
      refine Nat.pow_le_pow_right (by omega) ?_
      by_contra hlarge
      have hbounds := (excess_eq_iff (n := n.natAbs) (by omega)).1 rfl
      have hpow : 2 ^ (52 + 11) ≤ 2 ^ (52 + excess n.natAbs) :=
        Nat.pow_le_pow_right (by omega) (by omega)
      omega
    obtain ⟨hup, hdown⟩ := nearest_error n.natAbs
    omega

/-- The smallest sum of 64 bits is not rounded below itself. -/
lemma le_nearestInt_of_sum {c b : ℤ} (hc : FitsInt64 c) (hb : FitsInt64 b)
    (hsum : c + b = -9223372036854775808) :
    FitsInt64 (nearestInt (nearestInt c + nearestInt b)) := by
  have hcerror := natAbs_roundingError_le hc
  have hberror := natAbs_roundingError_le hb
  obtain ⟨hclow, hchigh⟩ := hc
  obtain ⟨hblow, hbhigh⟩ := hb
  rw [roundingError, truncate_ofInt_nearest (by omega)] at hcerror hberror
  obtain ⟨n, hn⟩ : ∃ n, n = nearestInt c + nearestInt b := ⟨_, rfl⟩
  rw [← hn]
  rcases le_or_gt n (-9223372036854775808) with hle | hgt
  · -- rounded outwards by at most 1024, which is half of the spacing there
    have hspacing : spacing 9223372036854775808 = 2048 := by decide
    have hnearest : nearest n.natAbs = 9223372036854775808 := by
      rw [nearest_eq_iff, Swallows, if_pos (by omega), hspacing]
      exact ⟨by decide, by omega⟩
    rw [nearestInt, if_pos (by omega), hnearest]
    decide
  · have hsmall := nearest_le_two_pow (n := n.natAbs) (j := 10) (by omega)
    rw [nearestInt, if_pos (by omega)]
    exact ⟨by omega, by omega⟩

/-! ## One increment -/

/-- Two integers of 64 bits are told by their words. -/
lemma ofInt_inj {m n : ℤ} (hm : FitsInt64 m) (hn : FitsInt64 n)
    (h : Int64.ofInt m = Int64.ofInt n) : m = n := by
  have htoInt := congrArg Int64.toInt h
  rwa [Int64.toInt_ofInt_of_le hm.1 hm.2, Int64.toInt_ofInt_of_le hn.1 hn.2] at htoInt

/-- The cast brings the sum back exactly when it survives. -/
lemma castInt64_add_iff {c b : ℤ} (hc : FitsInt64 c) (hb : FitsInt64 b)
    (hfits : FitsInt64 (c + b)) :
    castInt64 (add (ofInt c) (ofInt b)) = Int64.ofInt (c + b) ↔ SumSurvives c b := by
  rw [sumSurvives_iff hc hb]
  have hcabs : c.natAbs < 2 ^ 64 := by unfold FitsInt64 at hc; omega
  have hbabs : b.natAbs < 2 ^ 64 := by unfold FitsInt64 at hb; omega
  obtain ⟨htruncate, hfinite⟩ := truncate_add_ofInt hcabs hbabs
  rw [castInt64, hfinite, htruncate]
  split
  · next hrange =>
    constructor
    · exact fun heq => ⟨hfits, ofInt_inj ⟨hrange.2.1, hrange.2.2⟩ hfits heq⟩
    · exact fun h => congrArg Int64.ofInt h.2
  · next hrange =>
    -- out of range the cast yields the smallest integer, which no such sum is
    refine iff_of_false (fun heq => ?_) fun h => hrange ⟨rfl, h.2 ▸ hfits.1, h.2 ▸ hfits.2⟩
    have hmin : Int64.minValue = Int64.ofInt (-9223372036854775808) := by decide
    have hsum := ofInt_inj (by decide) hfits (hmin.symm.trans heq)
    obtain ⟨hlow, hhigh⟩ := le_nearestInt_of_sum hc hb hsum.symm
    exact hrange ⟨rfl, hlow, hhigh⟩

/-- An integer of a document fits 64 bits. -/
lemma fitsInt64_of_integer {v : Value} {n : ℤ} (h : v.integer? = some n) : FitsInt64 n := by
  cases v with
  | int32 i =>
    obtain rfl := Option.some.inj h
    have hlow := i.le_toInt
    have hhigh := i.toInt_lt
    exact ⟨by omega, by omega⟩
  | int64 i =>
    obtain rfl := Option.some.inj h
    have hlow := i.le_toInt
    have hhigh := i.toInt_lt
    exact ⟨by omega, by omega⟩
  | _ => cases h

/-- The current integer fits 64 bits. -/
lemma fitsInt64_of_current {d : Doc} {path : Path} {c : ℤ} (h : currentInteger d path = some c) :
    FitsInt64 c := by
  unfold currentInteger at h
  split at h
  · obtain rfl := Option.some.inj h
    decide
  · exact fitsInt64_of_integer h

/-- The double of an integer. -/
lemma toDouble_of_integer {v : Value} {n : ℤ} (h : v.integer? = some n) :
    v.toDouble = ofInt n := by
  refine toDouble_of_ok ?_
  cases v with
  | int32 i | int64 i =>
    obtain rfl := Option.some.inj h
    rw [valueAsDouble]
  | _ => cases h

/-- An integer is a number. -/
lemma isNumeric_of_integer {v : Value} {n : ℤ} (h : v.integer? = some n) :
    valueIsNumeric v = true := by
  cases v with
  | int32 i | int64 i => rfl
  | _ => cases h

/-- Integers are added as doubles and cast back. -/
lemma incremented_integer {existing : Option Value} {arg : Value} {c b : ℤ}
    (hc : (existing.map Value.integer?).getD (some 0) = some c) (hb : arg.integer? = some b) :
    incremented existing arg = .int64 (castInt64 (add (ofInt c) (ofInt b))) := by
  have hbase : (existing.map Value.toDouble).getD (ofInt 0) = ofInt c := by
    cases existing with
    | none =>
      obtain rfl := Option.some.inj hc
      rw [Option.map_none, Option.getD_none]
    | some v =>
      rw [Option.map_some, Option.getD_some] at hc ⊢
      exact toDouble_of_integer hc
  unfold incremented
  extract_lets sum isDouble
  have hinteger {v : Value} {n : ℤ} (hv : v.integer? = some n) : isDouble v = false := by
    cases v with
    | int32 i | int64 i => rfl
    | _ => cases hv
  have hexisting : existing.any isDouble = false := by
    cases existing with
    | none => rfl
    | some v => exact hinteger hc
  rw [hexisting, hinteger hb, Bool.not_false, Bool.and_self, if_pos rfl]
  simp only [sum, hbase, toDouble_of_integer hb]

/-- What `$inc` does to an integer. -/
lemma applyOne_increment {d : Doc} {path : Path} {arg : Value} {c b : ℤ}
    (hc : currentInteger d path = some c) (hb : arg.integer? = some b) :
    applyOne "$inc".toList d path arg =
      .ok (pathSet d path (.int64 (castInt64 (add (ofInt c) (ofInt b))))) := by
  have hcurrent : ((pathGet d path).map Value.integer?).getD (some 0) = some c := by
    rw [← hc, currentInteger]
    cases pathGet d path <;> rfl
  have hnumeric : (pathGet d path).any (fun v => !valueIsNumeric v) = false := by
    cases hget : pathGet d path with
    | none => rfl
    | some v =>
      rw [hget] at hcurrent
      have hv : v.integer? = some c := hcurrent
      rw [Option.any_some, isNumeric_of_integer hv, Bool.not_true]
  refine applyOne_eq_ok.2 ⟨.set (incremented (pathGet d path) arg), ?_, ?_⟩
  · change (if (valueIsNumeric arg && !(pathGet d path).any fun v => !valueIsNumeric v) = true then
      some _ else none) = _
    rw [hnumeric, isNumeric_of_integer hb]
    rfl
  · rw [incremented_integer hcurrent hb]
    rfl

/-- **One increment.**  It is exact when the sum survives. -/
lemma incrementExact_iff {d : Doc} {path : Path} {arg : Value} {c b : ℤ} (hpath : path ≠ [])
    (hc : currentInteger d path = some c) (hb : arg.integer? = some b) :
    IncrementExact d path arg c b ↔ SumSurvives c b := by
  have hcfits := fitsInt64_of_current hc
  have hbfits := fitsInt64_of_integer hb
  have hdoes := applyOne_increment hc hb
  constructor
  · rintro ⟨hstores, hfails⟩
    by_cases hfits : FitsInt64 (c + b)
    · rw [← castInt64_add_iff hcfits hbfits hfits]
      have hsame := Except.ok.inj (hdoes.symm.trans (hstores hfits))
      have hget := congrArg (pathGet · path) hsame
      simp only [pathGet_pathSet d hpath] at hget
      exact Value.int64.inj (Option.some.inj hget)
    · obtain ⟨e, he⟩ := hfails hfits
      rw [hdoes] at he
      cases he
  · intro hsurvives
    refine ⟨fun hfits => ?_, fun hnot => absurd hsurvives.1 hnot⟩
    rw [hdoes, (castInt64_add_iff hcfits hbfits hfits).2 hsurvives]

/-! ## Runs of increments -/

/-- The integer of an argument. -/
def argInteger (arg : Value) : ℤ := arg.integer?.getD 0

/-- Every increment of a run is exact, from a total on. -/
def IncrementsExact (path : Path) : Doc → ℤ → List Value → Prop
  | _, _, [] => True
  | d, c, arg :: args => IncrementExact d path arg c (argInteger arg) ∧
    ∀ next, applyOne "$inc".toList d path arg = .ok next →
      IncrementsExact path next (c + argInteger arg) args

/-- Every sum on the way survives, from a total on. -/
def TotalsSurvive : ℤ → List Value → Prop
  | _, [] => True
  | c, arg :: args => SumSurvives c (argInteger arg) ∧ TotalsSurvive (c + argInteger arg) args

/-- The totals are checked one after the other. -/
instance decidableTotalsSurvive : (c : ℤ) → (args : List Value) → Decidable (TotalsSurvive c args)
  | _, [] => isTrue trivial
  | c, arg :: args =>
    have := decidableTotalsSurvive (c + argInteger arg) args
    inferInstanceAs (Decidable (_ ∧ _))

/-- One increment of a run. -/
def incrementStep (path : Path) (d : Doc) (arg : Value) : Option Doc :=
  (applyOne "$inc".toList d path arg).toOption

/-- What an exact increment leaves. -/
lemma currentInteger_pathSet {d : Doc} {path : Path} (hpath : path ≠ []) {n : ℤ}
    (hn : FitsInt64 n) :
    currentInteger (pathSet d path (.int64 (Int64.ofInt n))) path = some n := by
  rw [currentInteger, pathGet_pathSet d hpath]
  exact congrArg some (Int64.toInt_ofInt_of_le hn.1 hn.2)

/-- **Runs of increments.**  Every increment of a run is exact exactly when every sum on the way
survives, and then the run ends with the exact total. -/
theorem increments_exact_iff {d : Doc} {path : Path} {args : List Value} {c : ℤ}
    (hpath : path ≠ []) (hargs : ∀ arg ∈ args, arg.integer?.isSome = true)
    (hc : currentInteger d path = some c) :
    (IncrementsExact path d c args ↔ TotalsSurvive c args) ∧
      (TotalsSurvive c args → ∃ last, Steps (incrementStep path) d args last ∧
        currentInteger last path = some (c + (args.map argInteger).sum)) := by
  induction args generalizing d c with
  | nil => exact ⟨Iff.rfl, fun _ => ⟨d, Run.nil d, by simpa using hc⟩⟩
  | cons arg args ih =>
    obtain ⟨b, hb⟩ := Option.isSome_iff_exists.1 (hargs arg List.mem_cons_self)
    have hb' : argInteger arg = b := by rw [argInteger, hb, Option.getD_some]
    have hone := incrementExact_iff hpath hc hb
    rw [IncrementsExact, TotalsSurvive, hb', hone]
    -- after an exact increment the total is what the document holds
    have hnext (hsurvives : SumSurvives c b) :
        applyOne "$inc".toList d path arg = .ok (pathSet d path (.int64 (Int64.ofInt (c + b)))) ∧
          currentInteger (pathSet d path (.int64 (Int64.ofInt (c + b)))) path = some (c + b) :=
      ⟨(hone.2 hsurvives).1 hsurvives.1, currentInteger_pathSet hpath hsurvives.1⟩
    have hrest {next : Doc} (hcurrent : currentInteger next path = some (c + b)) :=
      ih (fun a ha => hargs a (List.mem_cons_of_mem _ ha)) hcurrent
    constructor
    · refine and_congr_right fun hsurvives => ?_
      obtain ⟨hstores, hcurrent⟩ := hnext hsurvives
      rw [hstores]
      constructor
      · exact fun hall => (hrest hcurrent).1.1 (hall _ rfl)
      · rintro htotals _ heq
        obtain rfl := Except.ok.inj heq
        exact (hrest hcurrent).1.2 htotals
    · rintro ⟨hsurvives, htotals⟩
      obtain ⟨hstores, hcurrent⟩ := hnext hsurvives
      obtain ⟨last, hsteps, hlast⟩ := (hrest hcurrent).2 htotals
      refine ⟨last, Run.cons trivial ?_ hsteps, ?_⟩
      · rw [incrementStep, hstores]
        rfl
      · rw [hlast, List.map_cons, List.sum_cons, hb', add_assoc]

/-- Three increments of a field that is not there. -/
theorem increments_exact_iff_counter :
    ∃ last, Steps (incrementStep ["n".toList]) [] [.int32 1, .int64 2, .int32 (-3)] last ∧
      currentInteger last ["n".toList] = some 0 := by
  have hpath : ["n".toList] ≠ [] := by decide
  exact (increments_exact_iff hpath (d := []) (c := 0) (by decide) (by decide)).2
    (by decide +kernel)

/-- Beyond fifty-three bits an increment is lost, and beyond sixty-three the sign is. -/
theorem increment_drifts :
    applyOne "$inc".toList [("n".toList, .int64 9007199254740993)] ["n".toList] (.int32 1) =
        .ok [("n".toList, .int64 9007199254740992)] ∧
      applyOne "$inc".toList [("n".toList, .int64 9223372036854775807)] ["n".toList] (.int32 1) =
        .ok [("n".toList, .int64 (-9223372036854775808))] := by
  decide +kernel

end Chimera
