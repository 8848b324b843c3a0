import SealedVault.Bytecode.Error
import SealedVault.Instruction

/-!
This module contains the writing of bytecode. An instruction is its opcode, then each operand as a
two-byte length, high byte first, and the UTF-8 bytes of the text. Main statement:
`Instruction.encode_eq_ok_iff`, so encoding fails on oversized operands and on nothing else.
-/

namespace SealedVault

namespace Bytecode

/-- A length field. Only the low sixteen bits of the size fit. -/
def ofSize (size : Nat) : Bytes :=
  [UInt8.ofNat (size / 256), UInt8.ofNat size]

/-- The size that a length field announces. -/
def toSize (field : Bytes) : Nat :=
  field.foldl (fun size byte => size * 256 + byte.toNat) 0

@[simp]
theorem length_ofSize (size : Nat) : (ofSize size).length = lengthSize := by
  rfl

theorem toSize_ofSize {size : Nat} (h : size ≤ maxOperand) : toSize (ofSize size) = size := by
  simp [maxOperand] at h
  simp [toSize, ofSize]
  omega

def ofOperand (operand : String) : Bytes :=
  ofSize operand.utf8ByteSize ++ utf8 operand

@[simp]
theorem length_ofOperand (operand : String) :
    (ofOperand operand).length = lengthSize + operand.utf8ByteSize := by
  simp [ofOperand]

/-- The operand is too long for any length field. -/
def isOversized (operand : String) : Bool :=
  maxOperand < operand.utf8ByteSize

/-- Writing to a buffer, which keeps what was written before an error. -/
abbrev Writer := ExceptT BytecodeError (StateM Bytes)

def put (bytes : Bytes) : Writer Unit :=
  modify (· ++ bytes)

/-- Refuses an operand that is too long. -/
def check (operand : String) : Writer Unit :=
  if isOversized operand then throw (.operandTooLong operand.utf8ByteSize) else pure ()

end Bytecode

namespace Instruction

/-- The bytes of an instruction, right only if its operands fit their length fields. -/
def bytes (instruction : Instruction) : Bytes :=
  instruction.opcode.toByte :: instruction.operands.flatMap Bytecode.ofOperand

/-- Every operand fits its length field. -/
def Encodable (instruction : Instruction) : Prop :=
  ∀ operand ∈ instruction.operands, operand.utf8ByteSize ≤ Bytecode.maxOperand

instance (instruction : Instruction) : Decidable instruction.Encodable :=
  inferInstanceAs (Decidable (∀ operand ∈ instruction.operands, _))

/-- The bytes of an instruction. The first operand that is too long is the error. -/
def encode (instruction : Instruction) : Except BytecodeError Bytes :=
  match instruction.operands.find? Bytecode.isOversized with
  | some operand => .error (.operandTooLong operand.utf8ByteSize)
  | none => .ok instruction.bytes

theorem encode_of_encodable {instruction : Instruction} (h : instruction.Encodable) :
    instruction.encode = .ok instruction.bytes := by
  have : instruction.operands.find? Bytecode.isOversized = none := by
    simpa [Bytecode.isOversized, Encodable] using h
  simp [encode, this]

theorem encode_eq_ok_iff {instruction : Instruction} {bytes : Bytes} :
    instruction.encode = .ok bytes ↔ instruction.Encodable ∧ bytes = instruction.bytes := by
  constructor
  · intro h
    unfold encode at h
    split at h
    · cases h
    · next hnone =>
      cases h
      exact ⟨by simpa [Bytecode.isOversized, Encodable] using hnone, rfl⟩
  · rintro ⟨h, rfl⟩
    exact encode_of_encodable h

/--
Writes an instruction behind what is there: its opcode, then each operand as a length field and a
text. All operands are checked before any of that is written.
-/
def write (instruction : Instruction) : Bytecode.Writer Unit := do
  instruction.operands.forM Bytecode.check
  Bytecode.put [instruction.opcode.toByte]
  instruction.operands.forM fun operand => do
    Bytecode.put (Bytecode.ofSize operand.utf8ByteSize)
    Bytecode.put (utf8 operand)

/-- Appends an instruction to a buffer. -/
def encodeInto (instruction : Instruction) (buffer : Bytes) :
    Except BytecodeError Unit × Bytes :=
  instruction.write.run buffer

end Instruction

/-- The bytecode of a program. The first operand that is too long is the error. -/
def Bytecode.encode (program : List Instruction) : Except BytecodeError Bytes :=
  return (← program.mapM Instruction.encode).flatten

end SealedVault
