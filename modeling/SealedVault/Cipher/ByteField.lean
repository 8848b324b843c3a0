/-!
This module contains the field of 256 elements with the polynomial x^8 + x^4 + x^3 + x + 1. A byte
stands for a polynomial, its lowest bit for the constant term.
-/

namespace SealedVault.Cipher.ByteField

/-- The product with x. -/
def double (a : UInt8) : UInt8 :=
  if a &&& 0x80 = 0 then a <<< 1 else (a <<< 1) ^^^ 0x1B

/-- The product with x + 1. -/
def triple (a : UInt8) : UInt8 :=
  double a ^^^ a

def mul (a b : UInt8) : UInt8 :=
  go 8 a b 0
where
  /-- Adds the multiples of `a` that the lowest bits of `b` select. -/
  go : Nat → UInt8 → UInt8 → UInt8 → UInt8
    | 0, _, _, sum => sum
    | bits + 1, a, b, sum =>
      go bits (double a) (b >>> 1) (if b &&& 1 = 0 then sum else sum ^^^ a)

/-- The inverse of a byte, as its power of 254. Zero has none and stays zero. -/
def inverse (a : UInt8) : UInt8 :=
  go 7 (mul a a) 1
where
  /-- The product of the next `count` squares, where each is the square of the one before. -/
  go : Nat → UInt8 → UInt8 → UInt8
    | 0, _, product => product
    | count + 1, square, product => go count (mul square square) (mul product square)

example : mul 0x57 0x83 = 0xC1 := by decide

example : mul 0x53 (inverse 0x53) = 1 := by decide +kernel

end SealedVault.Cipher.ByteField
