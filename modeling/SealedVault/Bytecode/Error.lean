import SealedVault.Text.Hex

/-!
This module contains the limits of bytecode and the reasons to refuse a program in that form.
-/

namespace SealedVault

namespace Bytecode

/-- The number of bytes in the length field before each operand. -/
def lengthSize : Nat := 2

/-- The longest operand that a length field can announce, in bytes. -/
def maxOperand : Nat := 65535

end Bytecode

inductive BytecodeError where
  /-- At `offset` a part of `needed` bytes starts, but only `remaining` are left. -/
  | cut (offset needed remaining : Nat)
  | notUtf8 (offset : Nat)
  | operandTooLong (size : Nat)
  | unknownOpcode (byte : UInt8) (offset : Nat)
deriving DecidableEq, Repr

def BytecodeError.message : BytecodeError → String
  | cut offset needed remaining =>
    s!"Malformed bytecode at offset {offset}: need {needed} bytes, {remaining} remaining"
  | notUtf8 offset => s!"Operand at offset {offset} is not valid UTF-8"
  | operandTooLong size => s!"Operand is {size} bytes, max {Bytecode.maxOperand}"
  | unknownOpcode byte offset =>
    "Unknown opcode 0x" ++ Hex.encode [byte] ++ s!" at offset {offset}"

end SealedVault
