import SealedVault.Text.Utf8

/-!
This module contains the field of 2^128 elements with the polynomial x^128 + x^7 + x^2 + x + 1. A
block of sixteen bytes stands for a polynomial, the highest bit of its first byte for the constant
term.
-/

namespace SealedVault.Cipher

/-- A polynomial, the bits of `hi` in front of those of `lo`. -/
structure BlockField where
  hi : UInt64
  lo : UInt64
deriving DecidableEq, Repr

namespace BlockField

def zero : BlockField :=
  ⟨0, 0⟩

def add (a b : BlockField) : BlockField :=
  ⟨a.hi ^^^ b.hi, a.lo ^^^ b.lo⟩

/-- The bytes of a word, highest first. -/
def ofWord (word : UInt64) : Bytes :=
  [(word >>> 56).toUInt8, (word >>> 48).toUInt8, (word >>> 40).toUInt8, (word >>> 32).toUInt8,
    (word >>> 24).toUInt8, (word >>> 16).toUInt8, (word >>> 8).toUInt8, word.toUInt8]

/-- The first eight bytes as a word, with zeros for the ones that are missing. -/
def toWord (bytes : Bytes) : UInt64 :=
  (List.range 8).foldl
    (fun (word : UInt64) i => (word <<< 8) ||| (bytes.getD i 0).toUInt64) 0

def toBytes (a : BlockField) : Bytes :=
  ofWord a.hi ++ ofWord a.lo

@[simp]
theorem length_toBytes (a : BlockField) : a.toBytes.length = 16 := by
  rfl

/-- The first sixteen bytes, with zeros for the ones that are missing. -/
def ofBytes (bytes : Bytes) : BlockField :=
  ⟨toWord bytes, toWord (bytes.drop 8)⟩

def mul (a b : BlockField) : BlockField :=
  go 128 a.hi a.lo b.hi b.lo 0 0
where
  /-- Adds the multiples of `b` that the highest bits of `a` select to the sum `s`. -/
  go : Nat → UInt64 → UInt64 → UInt64 → UInt64 → UInt64 → UInt64 → BlockField
    | 0, _, _, _, _, sHi, sLo => ⟨sHi, sLo⟩
    | bits + 1, aHi, aLo, bHi, bLo, sHi, sLo =>
      let selected : UInt64 := if aHi >>> 63 = 0 then 0 else 0xFFFFFFFFFFFFFFFF
      let reduction : UInt64 := if bLo &&& 1 = 0 then 0 else 0xE100000000000000
      go bits ((aHi <<< 1) ||| (aLo >>> 63)) (aLo <<< 1)
        ((bHi >>> 1) ^^^ reduction) ((bLo >>> 1) ||| (bHi <<< 63))
        (sHi ^^^ (bHi &&& selected)) (sLo ^^^ (bLo &&& selected))

end BlockField

end SealedVault.Cipher
