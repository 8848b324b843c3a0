import SealedVault.Cipher.ByteField
import SealedVault.Text.Utf8

/-!
This module contains the block cipher AES with keys of 256 bits.
-/

namespace SealedVault.Cipher.Aes

/-- Four bytes, a column of a block. -/
structure Word where
  b0 : UInt8
  b1 : UInt8
  b2 : UInt8
  b3 : UInt8
deriving DecidableEq, Repr

/-- Four columns, the unit that the cipher turns into another. -/
structure Block where
  w0 : Word
  w1 : Word
  w2 : Word
  w3 : Word
deriving DecidableEq, Repr

def Word.xor (a b : Word) : Word :=
  ⟨a.b0 ^^^ b.b0, a.b1 ^^^ b.b1, a.b2 ^^^ b.b2, a.b3 ^^^ b.b3⟩

def Block.xor (a b : Block) : Block :=
  ⟨a.w0.xor b.w0, a.w1.xor b.w1, a.w2.xor b.w2, a.w3.xor b.w3⟩

def Word.toBytes (w : Word) : Bytes :=
  [w.b0, w.b1, w.b2, w.b3]

def Block.toBytes (block : Block) : Bytes :=
  block.w0.toBytes ++ block.w1.toBytes ++ block.w2.toBytes ++ block.w3.toBytes

@[simp]
theorem Block.length_toBytes (block : Block) : block.toBytes.length = 16 := by
  rfl

/-- The first four bytes, with zeros for the ones that are missing. -/
def Word.ofBytes (bytes : Bytes) : Word :=
  ⟨bytes.getD 0 0, bytes.getD 1 0, bytes.getD 2 0, bytes.getD 3 0⟩

/-- The first sixteen bytes, with zeros for the ones that are missing. -/
def Block.ofBytes (bytes : Bytes) : Block :=
  ⟨.ofBytes bytes, .ofBytes (bytes.drop 4), .ofBytes (bytes.drop 8), .ofBytes (bytes.drop 12)⟩

/-- The sum of a byte with its four rotations and a constant. -/
def affine (a : UInt8) : UInt8 :=
  a ^^^ rotate a 1 ^^^ rotate a 2 ^^^ rotate a 3 ^^^ rotate a 4 ^^^ 0x63
where
  rotate (a amount : UInt8) : UInt8 :=
    (a <<< amount) ||| (a >>> (8 - amount))

/-- The substitution of every byte, computed once. -/
def substitutions : Vector UInt8 256 :=
  Vector.ofFn fun i => affine (ByteField.inverse (UInt8.ofNat i))

/-- The substitution of a byte: its inverse in the field, then the affine map. -/
def substitute (a : UInt8) : UInt8 :=
  have : a.toNat < 256 := a.toNat_lt
  substitutions[a.toNat]

theorem substitute_eq (a : UInt8) : substitute a = affine (ByteField.inverse a) := by
  simp [substitute, substitutions]

def Word.substitute (w : Word) : Word :=
  ⟨Aes.substitute w.b0, Aes.substitute w.b1, Aes.substitute w.b2, Aes.substitute w.b3⟩

def Word.rotate (w : Word) : Word :=
  ⟨w.b1, w.b2, w.b3, w.b0⟩

/-- Substitutes every byte. -/
def Block.substitute (block : Block) : Block :=
  ⟨block.w0.substitute, block.w1.substitute, block.w2.substitute, block.w3.substitute⟩

/-- Rotates the row of the bytes `bi` by `i` columns. -/
def Block.shiftRows : Block → Block
  | ⟨w0, w1, w2, w3⟩ =>
    ⟨⟨w0.b0, w1.b1, w2.b2, w3.b3⟩, ⟨w1.b0, w2.b1, w3.b2, w0.b3⟩,
      ⟨w2.b0, w3.b1, w0.b2, w1.b3⟩, ⟨w3.b0, w0.b1, w1.b2, w2.b3⟩⟩

/-- Multiplies a column with a fixed matrix over the field. -/
def Word.mix : Word → Word
  | ⟨b0, b1, b2, b3⟩ =>
    ⟨double b0 ^^^ triple b1 ^^^ b2 ^^^ b3, b0 ^^^ double b1 ^^^ triple b2 ^^^ b3,
      b0 ^^^ b1 ^^^ double b2 ^^^ triple b3, triple b0 ^^^ b1 ^^^ b2 ^^^ double b3⟩
where
  double := ByteField.double
  triple := ByteField.triple

def Block.mixColumns (block : Block) : Block :=
  ⟨block.w0.mix, block.w1.mix, block.w2.mix, block.w3.mix⟩

/-- The keys of the rounds, the first of which comes before all others. -/
structure Schedule where
  first : Block
  middle : List Block
  last : Block
deriving DecidableEq, Repr

/-- Adds `head` to the first word of a block, and each sum to the word after it. -/
def Block.chain (block : Block) (head : Word) : Block :=
  let w0 := block.w0.xor head
  let w1 := block.w1.xor w0
  let w2 := block.w2.xor w1
  ⟨w0, w1, w2, block.w3.xor w2⟩

/-- The first sixteen bytes of a key start the schedule, the other sixteen come next. -/
def Schedule.ofKey (key : Bytes) : Schedule :=
  let even := Block.ofBytes key
  let odd := Block.ofBytes (key.drop 16)
  let (middle, last) := go 6 0x01 even odd [odd]
  ⟨even, middle, last⟩
where
  /--
  The middle keys and the last one. Each key continues the one two before it, `even` or `odd`. The
  middle keys so far are in reverse order.
  -/
  go : Nat → UInt8 → Block → Block → List Block → List Block × Block
    | 0, constant, even, odd, middle => (middle.reverse, nextEven constant even odd)
    | pairs + 1, constant, even, odd, middle =>
      let even := nextEven constant even odd
      let odd := odd.chain even.w3.substitute
      go pairs (ByteField.double constant) even odd (odd :: even :: middle)
  nextEven (constant : UInt8) (even odd : Block) : Block :=
    even.chain (odd.w3.rotate.substitute.xor ⟨constant, 0, 0, 0⟩)

/-- One application of the cipher. -/
def Schedule.encrypt (schedule : Schedule) (block : Block) : Block :=
  let rounds := schedule.middle.foldl (fun block key => (round block).mixColumns.xor key)
    (block.xor schedule.first)
  (round rounds).xor schedule.last
where
  round (block : Block) : Block :=
    block.substitute.shiftRows

end SealedVault.Cipher.Aes
