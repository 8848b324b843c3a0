import SealedVault.Decimal.Double

/-!
This module contains the shortest decimal that reads back as a given floating-point number. It looks
for the first number of digits for which a decimal lies between the midpoints to the two neighbours.
-/

namespace SealedVault.Decimal

/-- The decimal `digits * 10 ^ exponent`. -/
structure Expansion where
  digits : Nat
  exponent : Int
deriving DecidableEq, Repr

/-- The same decimal without zeros at the end of its digits. -/
def Expansion.trim (decimal : Expansion) : Expansion :=
  if h : decimal.digits ≠ 0 ∧ decimal.digits % 10 = 0 then
    trim ⟨decimal.digits / 10, decimal.exponent + 1⟩
  else
    decimal
termination_by decimal.digits
decreasing_by omega

/-- The fraction `num / den`. -/
structure Ratio where
  num : Nat
  den : Nat

namespace Ratio

/-- An integer times a power of two. -/
def ofBinary (n : Nat) (scale : Int) : Ratio :=
  if 0 ≤ scale then ⟨n <<< scale.toNat, 1⟩ else ⟨n, 1 <<< (-scale).toNat⟩

/-- The fraction divided by a power of ten. -/
def dividedByPower (r : Ratio) (exponent : Int) : Ratio :=
  if 0 ≤ exponent then ⟨r.num, r.den * Nat.pow 10 exponent.toNat⟩
  else ⟨r.num * Nat.pow 10 (-exponent).toNat, r.den⟩

/-- The exponent of the largest power of ten that is not above the fraction, which is not zero. -/
def log10 (r : Ratio) : Int :=
  let guess : Int := (Nat.toDigits 10 r.num).length - (Nat.toDigits 10 r.den).length
  let rest := r.dividedByPower guess
  if rest.den ≤ rest.num then guess else guess - 1

end Ratio

/-- The decimals that read back as one floating-point number. -/
structure Interval where
  low : Ratio
  high : Ratio
  /-- The ends belong to the interval. -/
  isClosed : Bool

/-- Up to half the way to both neighbours. Midpoints go to the number with the even significand. -/
def Interval.ofDouble (value : Double) : Interval where
  low := .ofBinary (4 * value.significand - if value.isLowest then 1 else 2) (value.scale - 2)
  high := .ofBinary (4 * value.significand + 2) (value.scale - 2)
  isClosed := value.significand % 2 = 0

def Interval.contains (interval : Interval) (decimal : Expansion) : Bool :=
  let low := interval.low.dividedByPower decimal.exponent
  let high := interval.high.dividedByPower decimal.exponent
  if interval.isClosed then
    low.num ≤ decimal.digits * low.den && decimal.digits * high.den ≤ high.num
  else
    low.num < decimal.digits * low.den && decimal.digits * high.den < high.num

/-- The nearest to `exact` of the decimals with the given exponent that lie in the interval. -/
def nearest? (interval : Interval) (exact : Ratio) (exponent : Int) : Option Expansion :=
  let goal := exact.dividedByPower exponent
  let below := goal.num / goal.den
  let lower : Expansion := ⟨below, exponent⟩
  let upper : Expansion := ⟨below + 1, exponent⟩
  if interval.contains lower then
    if interval.contains upper then
      let twice := 2 * (goal.num % goal.den)
      if twice < goal.den || (twice = goal.den && below % 2 = 0) then some lower else some upper
    else
      some lower
  else if interval.contains upper then
    some upper
  else
    none

/-- The shortest decimal for the absolute value of a number other than zero. -/
def shortest (value : Double) : Expansion :=
  let exact := Ratio.ofBinary value.significand value.scale
  let found := (List.range 17).findSome? fun (more : Nat) =>
    nearest? (.ofDouble value) exact (exact.log10 - more)
  (found.getD ⟨value.significand, 0⟩).trim

end SealedVault.Decimal
