import SealedVault.Decimal.Shortest

/-!
This module contains the spelling of floating-point numbers with as few digits as read back.
-/

namespace SealedVault.Decimal

/-- The decisions that are left once the digits of a number are known. -/
structure Layout where
  /-- The least and the greatest power of ten of a first digit that is written without exponent. -/
  minPlain : Int
  maxPlain : Int
  /-- What stands behind a number without exponent and without digits behind the point. -/
  integral : String
  plusSign : String

namespace Layout

def plain (layout : Layout) (digits : List Char) (exponent : Int) : List Char :=
  if 0 ≤ exponent then
    digits ++ List.replicate exponent.toNat '0' ++ layout.integral.toList
  else
    let places := (-exponent).toNat
    let padded := List.replicate (places + 1 - digits.length) '0' ++ digits
    padded.take (padded.length - places) ++ '.' :: padded.drop (padded.length - places)

def scientific (layout : Layout) (digits : List Char) (power : Int) : List Char :=
  let point := if digits.length = 1 then [] else ['.']
  let sign := if power < 0 then ['-'] else layout.plusSign.toList
  digits.take 1 ++ point ++ digits.drop 1 ++ 'e' :: sign ++ Nat.toDigits 10 power.natAbs

def render (layout : Layout) (value : Double) : String :=
  let sign := if value.isNegative then "-" else ""
  if value.significand = 0 then
    sign ++ "0" ++ layout.integral
  else
    let decimal := shortest value
    let digits := Nat.toDigits 10 decimal.digits
    let power := decimal.exponent + digits.length - 1
    let text :=
      if layout.minPlain ≤ power ∧ power ≤ layout.maxPlain then
        layout.plain digits decimal.exponent
      else
        layout.scientific digits power
    sign ++ String.ofList text

end Layout

end SealedVault.Decimal
