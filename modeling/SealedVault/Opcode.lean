import SealedVault.Text.Utf8

/-!
This module contains the three operations of a program, the byte that stands for each in bytecode
and the mnemonic that names it in source text.
-/

namespace SealedVault

inductive Opcode where
  | store
  | load
  | delete
deriving DecidableEq, Repr

namespace Opcode

/-- The byte of an operation in bytecode. -/
def toByte : Opcode → UInt8
  | store => 0x20
  | load => 0x21
  | delete => 0x22

def ofByte? (byte : UInt8) : Option Opcode :=
  if byte = 0x20 then some store
  else if byte = 0x21 then some load
  else if byte = 0x22 then some delete
  else none

@[simp]
theorem ofByte?_toByte (opcode : Opcode) : ofByte? opcode.toByte = some opcode := by
  cases opcode <;> rfl

theorem toByte_of_ofByte? {byte : UInt8} {opcode : Opcode} (h : ofByte? byte = some opcode) :
    opcode.toByte = byte := by
  unfold ofByte? at h
  split at h
  · cases h; simp_all [toByte]
  · split at h
    · cases h; simp_all [toByte]
    · split at h
      · cases h; simp_all [toByte]
      · cases h

/-- The name of an operation in source text, in capitals. -/
def mnemonic : Opcode → String
  | store => "STOREFAV"
  | load => "LOADFAV"
  | delete => "DELFAV"

/-- The operation that a word names. Only ASCII letters match without regard to case. -/
def ofMnemonic? (word : List Char) : Option Opcode :=
  let name := String.ofList (word.map Char.toUpper)
  [store, load, delete].find? fun opcode => opcode.mnemonic = name

@[simp]
theorem ofMnemonic?_mnemonic (opcode : Opcode) :
    ofMnemonic? opcode.mnemonic.toList = some opcode := by
  cases opcode <;> decide

end Opcode

end SealedVault
