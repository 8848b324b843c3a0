import SealedVault.Opcode

/-!
This module contains the instructions of a program.
-/

namespace SealedVault

inductive Instruction where
  | store (key value : String)
  /-- The target is a remark of the author of a program and has no effect. -/
  | load (key : String) (target : Option String)
  | delete (key : String)
deriving DecidableEq, Repr

namespace Instruction

def opcode : Instruction → Opcode
  | store .. => .store
  | load .. => .load
  | delete .. => .delete

def key : Instruction → String
  | store key _ => key
  | load key _ => key
  | delete key => key

/-- The texts that bytecode carries for an instruction, in order. -/
def operands : Instruction → List String
  | store key value => [key, value]
  | load key _ => [key]
  | delete key => [key]

/-- The same instruction without the target of a load. -/
def withoutTarget : Instruction → Instruction
  | load key _ => load key none
  | instruction => instruction

@[simp]
theorem operands_withoutTarget (instruction : Instruction) :
    instruction.withoutTarget.operands = instruction.operands := by
  cases instruction <;> rfl

@[simp]
theorem opcode_withoutTarget (instruction : Instruction) :
    instruction.withoutTarget.opcode = instruction.opcode := by
  cases instruction <;> rfl

end Instruction

end SealedVault
