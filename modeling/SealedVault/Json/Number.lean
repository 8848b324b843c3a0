import SealedVault.Decimal.Double
import SealedVault.Json.Scan

/-!
This module contains the value of a numeral. An integer that fits 64 bits is exact. Everything else
is a floating-point number, made from as many leading digits as fit 64 bits.
-/

namespace SealedVault.Json

inductive Number where
  | natural (value : Nat)
  /-- The integer below zero with this absolute value. -/
  | negative (value : Nat)
  | real (value : Decimal.Double)
deriving DecidableEq, Repr

/-- The largest integer that digits are collected in. -/
def maxSignificand : Nat := UInt64.size - 1

/-- The largest exponent that digits are collected in. -/
def maxExponent : Nat := 0x7fffffff

/-- The largest absolute value of an integer below zero. -/
def maxNegative : Nat := 0x8000000000000000

/-- Appends digits to a number as long as it stays within a limit. Returns the digits left over. -/
def collect (limit : Nat) (value : Nat) : List Nat → Nat × List Nat
  | [] => (value, [])
  | digit :: digits =>
    if value * 10 + digit ≤ limit then collect limit (value * 10 + digit) digits
    else (value, digit :: digits)

namespace Numeral

/-- The integer of a numeral without point and exponent. -/
def ofInteger (isNegative : Bool) (value : Nat) : Number :=
  if isNegative then
    if 1 ≤ value ∧ value ≤ maxNegative then .negative value
    else .real (Decimal.Double.ofFloat (UInt64.ofNat value).toFloat).negate
  else
    .natural value

/-- A power of ten times an integer, or none if it is too large. -/
def ofScaled? (isNegative : Bool) (significand : Nat) (exponent : Int) : Option Number :=
  (Decimal.scaled? significand exponent).map fun value =>
    .real (if isNegative then value.negate else value)

/-- The value of a numeral, or none if it is too large for a floating-point number. -/
def number? (numeral : Numeral) : Option Number :=
  let (whole, dropped) := collect maxSignificand 0 numeral.whole
  if dropped.isEmpty && numeral.fraction.isEmpty && numeral.exponent.isNone then
    some (ofInteger numeral.isNegative whole)
  else
    let (significand, ignored) := collect maxSignificand whole numeral.fraction
    let shift : Int := dropped.length - (numeral.fraction.length - ignored.length : Nat)
    match numeral.exponent with
    | none => ofScaled? numeral.isNegative significand shift
    | some (isNegative, digits) =>
      match collect maxExponent 0 digits with
      | (exponent, []) =>
        ofScaled? numeral.isNegative significand
          (if isNegative then shift - exponent else shift + exponent)
      | _ =>
        if significand = 0 ∨ isNegative then ofScaled? numeral.isNegative 0 0 else none

end Numeral

end SealedVault.Json
