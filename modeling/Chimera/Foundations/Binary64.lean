import Mathlib.Data.Nat.Log
import Mathlib.Data.Int.Basic
import Mathlib.Tactic.Common
import Mathlib.Algebra.Group.Nat.Defs
import Mathlib.Algebra.Group.Int.Defs

/-!
# Binary64 numbers

IEEE 754 double-precision numbers as their 64-bit patterns, with exact integer arithmetic in
place of a floating-point unit.  Every finite binary64 number is an integral multiple of
`2 ^ (-1074)`, so the number a pattern denotes is the integer `units`, and rounding to a
binary64 number is a computation on that integer.
-/

/-- A binary64 number, given by its bit pattern. -/
structure Binary64 where
  /-- The pattern: sign, eleven bits of exponent, fifty-two bits of fraction. -/
  bits : BitVec 64
deriving DecidableEq

namespace Binary64

/-- The sign bit. -/
def negative (d : Binary64) : Bool := d.bits.msb

/-- The biased exponent field. -/
def exponentField (d : Binary64) : ℕ := d.bits.toNat / 2 ^ 52 % 2 ^ 11

/-- The fraction field. -/
def fractionField (d : Binary64) : ℕ := d.bits.toNat % 2 ^ 52

/-- The pattern denotes no number. -/
def isNaN (d : Binary64) : Bool :=
  decide (d.exponentField = 2047) && decide (d.fractionField ≠ 0)

/-- The pattern denotes a finite number. -/
def isFinite (d : Binary64) : Bool := decide (d.exponentField ≠ 2047)

/-- The absolute value in units of `2 ^ (-1074)`.  The patterns of the infinities come out
larger than every finite number, so comparisons need no case of their own for them. -/
def magnitude (d : Binary64) : ℕ :=
  if d.exponentField = 0 then d.fractionField
  else (2 ^ 52 + d.fractionField) * 2 ^ (d.exponentField - 1)

/-- The value in units of `2 ^ (-1074)`. -/
def units (d : Binary64) : ℤ := if d.negative then -(d.magnitude : ℤ) else d.magnitude

/-- Assemble a pattern from its fields; a carry out of the fraction raises the exponent. -/
def pack (negative : Bool) (exponent fraction : ℕ) : Binary64 :=
  ⟨BitVec.ofNat 64 ((if negative then 2 ^ 63 else 0) + exponent * 2 ^ 52 + fraction)⟩

/-- The quiet NaN. -/
def nan : Binary64 := pack false 2047 (2 ^ 51)

/-- The infinity of the given sign. -/
def infinity (negative : Bool) : Binary64 := pack negative 2047 0

/-- The binary64 number nearest to a multiple of `2 ^ (-1074)`, ties to the even fraction. -/
def round (negative : Bool) (u : ℕ) : Binary64 :=
  if u < 2 ^ 53 then pack negative (u / 2 ^ 52) (u % 2 ^ 52)
  else
    let k := Nat.log2 u - 52
    let q := u / 2 ^ k
    let r := u % 2 ^ k
    let q' := if 2 ^ k < 2 * r ∨ (2 * r = 2 ^ k ∧ q % 2 = 1) then q + 1 else q
    if 2046 * 2 ^ 52 ≤ k * 2 ^ 52 + (q' - 2 ^ 52) then infinity negative
    else pack negative (k + 1) (q' - 2 ^ 52)

/-- The binary64 number nearest to an integer. -/
def ofInt (n : ℤ) : Binary64 := round (decide (n < 0)) (n.natAbs * 2 ^ 1074)

/-- The binary64 number nearest to a quotient of natural numbers, ties to the even fraction. -/
def ofRatio (negative : Bool) (numerator denominator : ℕ) : Binary64 :=
  let u := numerator * 2 ^ 1074
  let k := Nat.log2 (u / denominator) - 52
  let q := u / (denominator * 2 ^ k)
  let r := u % (denominator * 2 ^ k)
  let q' := if denominator * 2 ^ k < 2 * r ∨ (2 * r = denominator * 2 ^ k ∧ q % 2 = 1) then q + 1
    else q
  if q' < 2 ^ 52 then pack negative 0 q'
  else if 2046 * 2 ^ 52 ≤ k * 2 ^ 52 + (q' - 2 ^ 52) then infinity negative
  else pack negative (k + 1) (q' - 2 ^ 52)

/-- Addition: the exact sum, rounded. -/
def add (a b : Binary64) : Binary64 :=
  if a.isNaN || b.isNaN then nan
  else if !a.isFinite then (if !b.isFinite && a.negative != b.negative then nan else a)
  else if !b.isFinite then b
  else
    let sum := a.units + b.units
    if sum = 0 then pack (a.negative && b.negative) 0 0
    else round (decide (sum < 0)) sum.natAbs

/-- The number with its fractional part dropped, as an integer. -/
def truncate (d : Binary64) : ℤ := d.units.tdiv (2 ^ 1074)

/-- The number is finite and has no fractional part. -/
def isIntegral (d : Binary64) : Bool := d.isFinite && decide (d.magnitude % 2 ^ 1074 = 0)

/-- Numeric equality: NaN equals nothing, and the two zeros are equal. -/
def numEq (a b : Binary64) : Bool := !a.isNaN && !b.isNaN && decide (a.units = b.units)

/-- Numeric order; false when either side is NaN. -/
def numLt (a b : Binary64) : Bool := !a.isNaN && !b.isNaN && decide (a.units < b.units)

example : ofInt (-3) = ⟨0xC008000000000000⟩ := by decide +kernel

example : ofRatio true 1 10 = ⟨0xBFB999999999999A⟩ := by decide +kernel

example : add (ofInt 9007199254740992) (ofInt 1) = ofInt 9007199254740992 := by decide +kernel

end Binary64
