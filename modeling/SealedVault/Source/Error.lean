import SealedVault.Bytecode.Error
import SealedVault.Opcode

/-!
This module contains the reasons to refuse the source text of a program before any of it runs.
-/

namespace SealedVault

/-- The part that an operand plays in its instruction. -/
inductive Role where
  | key
  | value
deriving DecidableEq, Repr

def Role.name : Role → String
  | key => "key"
  | value => "value"

inductive SourceError where
  | tooManyLines (limit : Nat)
  | unknownInstruction (line : Nat) (mnemonic : String)
  | missingKey (line : Nat) (opcode : Opcode)
  | operandTooLong (line : Nat) (role : Role) (size : Nat)
deriving DecidableEq, Repr

namespace SourceError

/-- The line at fault, counted from one. A program that is too long has none. -/
def line? : SourceError → Option Nat
  | tooManyLines _ => none
  | unknownInstruction line _ => some line
  | missingKey line _ => some line
  | operandTooLong line _ _ => some line

def message : SourceError → String
  | tooManyLines limit => s!"Program too long: more than {limit} lines"
  | unknownInstruction line mnemonic => s!"Line {line}: unknown instruction \"{mnemonic}\""
  | missingKey line opcode =>
    s!"Line {line}: " ++ opcode.mnemonic ++ " is missing its " ++ Role.key.name
  | operandTooLong line role size =>
    s!"Line {line}: " ++ role.name ++ s!" is {size} bytes, max {Bytecode.maxOperand}"

end SourceError

end SealedVault
