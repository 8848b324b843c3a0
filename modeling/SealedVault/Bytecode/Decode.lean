import SealedVault.Bytecode.Reader

/-!
This module contains the strict reading of bytecode, which refuses a program at its first fault.
-/

namespace SealedVault.Bytecode

/-- The instructions of a whole program. -/
def decode (bytes : Bytes) : Except BytecodeError (List Instruction) :=
  go [] (.ofBytes bytes)
where
  /-- Reads on to the end. The instructions read so far are in reverse order. -/
  go (done : List Instruction) (reader : Reader) : Except BytecodeError (List Instruction) :=
    if reader.rest.isEmpty then
      .ok done.reverse
    else
      match h : reader.next with
      | .error e => .error e
      | .ok (instruction, behind) =>
        have := Reader.rest_lt_of_next h
        go (instruction :: done) behind
  termination_by reader.rest.length

end SealedVault.Bytecode
