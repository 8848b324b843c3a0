import SealedVault.Bytecode.Encode
import SealedVault.Source.Error
import SealedVault.Text.Blank

/-!
This module contains the reading of source text. A line holds at most one instruction: a mnemonic, a
key and, as far as the instruction takes any, further words. Two slashes start a comment wherever
they stand.
-/

namespace SealedVault.Source

/-- The most lines that a program has unless a limit is set. -/
def defaultMaxLines : Nat := 10000

/-- The part of a line in front of its first two adjacent slashes. -/
def code (line : List Char) : List Char :=
  ((line.zip (line.drop 1 ++ ['\n'])).takeWhile (· ≠ ('/', '/'))).map Prod.fst

@[simp]
theorem code_nil : code [] = [] := by
  rfl

@[simp]
theorem code_singleton (c : Char) : code [c] = [c] := by
  simp [code]

theorem code_cons_cons (c d : Char) (rest : List Char) :
    code (c :: d :: rest) = if c = '/' ∧ d = '/' then [] else c :: code (d :: rest) := by
  by_cases h : c = '/' ∧ d = '/'
  · simp [code, h]
  · have : decide ((c, d) ≠ ('/', '/')) = true :=
      decide_eq_true fun he => h ⟨congrArg Prod.fst he, congrArg Prod.snd he⟩
    simp only [code, List.drop_succ_cons, List.drop_zero, List.cons_append, List.zip_cons_cons,
      List.takeWhile_cons, this, if_true, List.map_cons, if_neg h]

/-- A word as an operand, refused if it is too long for bytecode. -/
def operand (line : Nat) (role : Role) (word : List Char) : Except SourceError String :=
  let text := String.ofList word
  if Bytecode.isOversized text then .error (.operandTooLong line role text.utf8ByteSize)
  else .ok text

/-- The instruction of a line with a known mnemonic, from the words behind the mnemonic. -/
def instruction (line : Nat) (opcode : Opcode) :
    List (List Char) → Except SourceError Instruction
  | [] => .error (.missingKey line opcode)
  | key :: more => do
    let key ← operand line .key key
    match opcode with
    | .store => return .store key (← operand line .value (List.intercalate [' '] more))
    | .load => return .load key (more.head?.map String.ofList)
    | .delete => return .delete key

/-- The instruction of a line, or none if the line has no words. -/
def parseLine (line : Nat) (text : List Char) : Except SourceError (Option Instruction) :=
  match words (code text) with
  | [] => .ok none
  | mnemonic :: more =>
    match Opcode.ofMnemonic? mnemonic with
    | none => .error (.unknownInstruction line (String.ofList mnemonic))
    | some opcode => some <$> instruction line opcode more

/-- The instructions of a program. The first line at fault is the error. -/
def parse (maxLines : Nat) (source : String) : Except SourceError (List Instruction) :=
  let texts := lines source.toList
  if maxLines < texts.length then
    .error (.tooManyLines maxLines)
  else do
    let found ← (texts.zipIdx 1).mapM fun (text, line) => parseLine line text
    return found.filterMap id

/-- The bytecode of a program. Parsing has checked the operands, so that writing cannot fail. -/
def compile (maxLines : Nat) (source : String) : Except SourceError Bytes :=
  return (← parse maxLines source).flatMap Instruction.bytes

end SealedVault.Source
