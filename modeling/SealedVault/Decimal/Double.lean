/-!
This module contains floating-point numbers of 64 bits, taken apart into the integers that they are
made of, and the product of an integer with a power of ten as such a number.
-/

namespace SealedVault.Decimal

/-- A finite floating-point number of 64 bits, as these bits. -/
structure Double where
  bits : UInt64
deriving DecidableEq, Repr

namespace Double

def ofFloat (value : Float) : Double :=
  ⟨value.toBits⟩

def isNegative (value : Double) : Bool :=
  value.bits >>> 63 ≠ 0

/-- The number of bits in the fraction field. -/
def fractionSize : Nat := 52

def fractionField (value : Double) : Nat :=
  value.bits.toNat % (1 <<< fractionSize)

def exponentField (value : Double) : Nat :=
  (value.bits.toNat >>> fractionSize) % (1 <<< 11)

/-- The integer whose product with two to the power of `scale` is the absolute value. -/
def significand (value : Double) : Nat :=
  if value.exponentField = 0 then value.fractionField else value.fractionField + 1 <<< fractionSize

def scale (value : Double) : Int :=
  max value.exponentField 1 - 1075

/-- The number below is only half as far away as the one above. -/
def isLowest (value : Double) : Bool :=
  value.fractionField = 0 && 1 < value.exponentField

def negate (value : Double) : Double :=
  ⟨value.bits ^^^ 0x8000000000000000⟩

end Double

/-- The largest power of ten that floating-point numbers hold. -/
def maxPower : Nat := 308

def powerOfTen (exponent : Nat) : Float :=
  Float.ofScientific 1 false exponent

/--
An integer times a power of ten, or none if that is too large. Each step rounds, so the result is
not always the number nearest to the product.
-/
def scaled? (significand : Nat) (exponent : Int) : Option Double :=
  let value := (UInt64.ofNat significand).toFloat
  if 0 ≤ exponent then
    if significand = 0 then
      some (.ofFloat value)
    else if exponent.toNat ≤ maxPower then
      let product := value * powerOfTen exponent.toNat
      if product.isInf then none else some (.ofFloat product)
    else
      none
  else
    some (.ofFloat (shrink value (-exponent).toNat))
where
  /-- Divides by a power of ten, in several steps if the power is too large for one. -/
  shrink (value : Float) (exponent : Nat) : Float :=
    if exponent ≤ maxPower then
      value / powerOfTen exponent
    else if value == 0 then
      value
    else
      shrink (value / powerOfTen maxPower) (exponent - maxPower)
  termination_by exponent
  decreasing_by simp_all [maxPower]; omega

end SealedVault.Decimal
