import SealedVault.Bytecode.Reader

/-!
This module contains a cursor, which reads bytecode like `Reader` but keeps all of the bytes and
moves a position in them. Each difference, slice and index that it needs is checked, and it breaks
off where one of them is out of range.
-/

namespace SealedVault.Bytecode

structure Cursor where
  bytes : Bytes
  position : Nat
  /-- Where the cursor was before. -/
  past : List Nat
deriving DecidableEq, Repr

/-- Reading with a cursor, which stays where it got to when an error occurs. -/
abbrev Scan := ExceptT BytecodeError (StateT Cursor Option)

/-- The bytes from one offset up to another, if both are in order and in range. -/
def slice? (bytes : Bytes) (start stop : Nat) : Option Bytes :=
  if start ≤ stop ∧ stop ≤ bytes.length then some (bytes.extract start stop) else none

namespace Cursor

def ofBytes (bytes : Bytes) : Cursor :=
  ⟨bytes, 0, []⟩

/-- How many bytes are left, if the position is in range. -/
def remaining? (cursor : Cursor) : Option Nat :=
  if cursor.position ≤ cursor.bytes.length then some (cursor.bytes.length - cursor.position)
  else none

def isAtEnd (cursor : Cursor) : Bool :=
  cursor.bytes.length ≤ cursor.position

def advance (cursor : Cursor) (size : Nat) : Cursor :=
  { cursor with position := cursor.position + size, past := cursor.position :: cursor.past }

/-- The next `size` bytes. -/
def take (size : Nat) : Scan Bytes := do
  let cursor ← get
  let remaining ← cursor.remaining?
  if remaining < size then
    throw (.cut cursor.position size remaining)
  else
    let front ← slice? cursor.bytes cursor.position (cursor.position + size)
    set (cursor.advance size)
    return front

/-- The next byte. -/
def byte : Scan UInt8 := do
  let front ← take 1
  front[0]?

/-- The next operand: a length field, then that many bytes of UTF-8. -/
def operand : Scan String := do
  let field ← take lengthSize
  let high ← field[0]?
  let low ← field[1]?
  let offset := (← get).position
  let body ← take (toSize [high, low])
  match ofUtf8? body with
  | some text => return text
  | none => throw (.notUtf8 offset)

/-- The instruction whose opcode was read last. -/
def operands : Opcode → Scan Instruction
  | .store => do
    let key ← operand
    let value ← operand
    return .store key value
  | .load => do
    let key ← operand
    return .load key none
  | .delete => do
    let key ← operand
    return .delete key

/-- The next instruction. -/
def next : Scan Instruction := do
  let offset := (← get).position
  let byte ← byte
  match Opcode.ofByte? byte with
  | none => throw (.unknownOpcode byte offset)
  | some opcode => operands opcode

/--
Reads instructions to the end, in no more than the given number of rounds. Each instruction is
handed on together with its offset as soon as it is read.
-/
def readAll {σ : Type} (visit : σ → Nat → Instruction → σ) :
    Nat → σ → Cursor → Option (σ × Option BytecodeError × Cursor)
  | 0, _, _ => none
  | rounds + 1, state, cursor =>
    if cursor.isAtEnd then
      some (state, none, cursor)
    else
      match next.run cursor with
      | none => none
      | some (.error e, after) => some (state, some e, after)
      | some (.ok instruction, after) =>
        readAll visit rounds (visit state cursor.position instruction) after

end Cursor

end SealedVault.Bytecode
