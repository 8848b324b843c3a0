import SealedVault.Bytecode.Encode
import SealedVault.Text.Blank

/-!
This module contains the writing of source text, one instruction a line, and the instructions that
source text can express.
-/

namespace SealedVault

namespace Instruction

/-- The words of an instruction in source text. A value may hold several. -/
def sourceWords : Instruction → List (List Char)
  | store key value =>
    [Opcode.store.mnemonic.toList, key.toList] ++ (if value = "" then [] else [value.toList])
  | load key target =>
    [Opcode.load.mnemonic.toList, key.toList] ++ (target.map String.toList).toList
  | delete key => [Opcode.delete.mnemonic.toList, key.toList]

/-- The line of an instruction in source text. -/
def sourceLine (instruction : Instruction) : List Char :=
  List.intercalate [' '] instruction.sourceWords

end Instruction

namespace Source

/-- A run of characters that reading keeps together: not empty, no blank, no comment. -/
def IsWord (text : List Char) : Prop :=
  text ≠ [] ∧ (∀ c ∈ text, isBlank c = false) ∧ ¬ ['/', '/'] <:+: text

/-- Words with one space between neighbours, and no comment. -/
def IsPhrase (text : List Char) : Prop :=
  ∃ parts : List (List Char), (∀ part ∈ parts, IsWord part) ∧ text = List.intercalate [' '] parts

/-- An instruction that source text can express. -/
def Normal (instruction : Instruction) : Prop :=
  instruction.Encodable ∧ IsWord instruction.key.toList ∧
    match instruction with
    | .store _ value => IsPhrase value.toList
    | .load _ target => ∀ text ∈ target, IsWord text.toList
    | .delete _ => True

/-- A program as source text, each instruction on a line that a line feed ends. -/
def print (program : List Instruction) : String :=
  String.ofList (program.flatMap fun instruction => instruction.sourceLine ++ ['\n'])

end Source

end SealedVault
