import SealedVault.Bytecode.Encode

/-!
This module contains a reader that walks forward over bytecode. Main statement: `rest_lt_of_next`,
so whoever reads instructions until the end is done after finitely many.
-/

namespace SealedVault.Bytecode

/-- The unread rest of some bytecode and the offset where it starts. -/
structure Reader where
  offset : Nat
  rest : Bytes
deriving DecidableEq, Repr

namespace Reader

def ofBytes (bytes : Bytes) : Reader :=
  ⟨0, bytes⟩

/-- The next `size` bytes and the reader behind them. -/
def take (reader : Reader) (size : Nat) : Except BytecodeError (Bytes × Reader) :=
  let front := reader.rest.take size
  if front.length = size then
    .ok (front, ⟨reader.offset + size, reader.rest.drop size⟩)
  else
    .error (.cut reader.offset size reader.rest.length)

/-- The next operand: a length field, then that many bytes of UTF-8. -/
def operand (reader : Reader) : Except BytecodeError (String × Reader) := do
  let (field, reader) ← reader.take lengthSize
  let (body, behind) ← reader.take (toSize field)
  match ofUtf8? body with
  | some text => return (text, behind)
  | none => throw (.notUtf8 reader.offset)

/-- The instruction whose opcode was read last. -/
def operands (reader : Reader) : Opcode → Except BytecodeError (Instruction × Reader)
  | .store => do
    let (key, reader) ← reader.operand
    let (value, reader) ← reader.operand
    return (.store key value, reader)
  | .load => do
    let (key, reader) ← reader.operand
    return (.load key none, reader)
  | .delete => do
    let (key, reader) ← reader.operand
    return (.delete key, reader)

/-- The next instruction and the reader behind it. -/
def next (reader : Reader) : Except BytecodeError (Instruction × Reader) :=
  match reader.rest with
  | [] => .error (.cut reader.offset 1 0)
  | byte :: rest =>
    match Opcode.ofByte? byte with
    | none => .error (.unknownOpcode byte reader.offset)
    | some opcode => operands ⟨reader.offset + 1, rest⟩ opcode

theorem take_eq_ok {reader behind : Reader} {size : Nat} {front : Bytes}
    (h : reader.take size = .ok (front, behind)) :
    front.length = size ∧ reader.rest = front ++ behind.rest ∧
      behind.offset = reader.offset + size := by
  simp only [take] at h
  split at h
  · next hlen =>
    cases h
    exact ⟨hlen, (List.take_append_drop _ _).symm, rfl⟩
  · cases h

theorem take_append (offset : Nat) (front rest : Bytes) :
    take ⟨offset, front ++ rest⟩ front.length = .ok (front, ⟨offset + front.length, rest⟩) := by
  simp [take]

/-- A reader that went from `reader` to `behind` read at least `size` bytes. -/
def Advanced (reader : Reader) (size : Nat) (behind : Reader) : Prop :=
  ∃ front, size ≤ front.length ∧ reader.rest = front ++ behind.rest ∧
    behind.offset = reader.offset + front.length

theorem Advanced.trans {a b c : Reader} {m n : Nat} (hab : a.Advanced m b)
    (hbc : b.Advanced n c) : a.Advanced (m + n) c := by
  obtain ⟨front, hm, hrest, hoff⟩ := hab
  obtain ⟨front', hn, hrest', hoff'⟩ := hbc
  refine ⟨front ++ front', ?_, ?_, ?_⟩
  · simp; omega
  · simp [hrest, hrest']
  · simp; omega

theorem Advanced.mono {a b : Reader} {m n : Nat} (h : a.Advanced m b) (hn : n ≤ m) :
    a.Advanced n b := by
  obtain ⟨front, hm, h⟩ := h
  exact ⟨front, by omega, h⟩

theorem Advanced.rest_le {a b : Reader} {n : Nat} (h : a.Advanced n b) :
    b.rest.length + n ≤ a.rest.length := by
  obtain ⟨front, hn, hrest, -⟩ := h
  simp [hrest]
  omega

theorem advanced_of_take {reader behind : Reader} {size : Nat} {front : Bytes}
    (h : reader.take size = .ok (front, behind)) : reader.Advanced size behind := by
  obtain ⟨hlen, hrest, hoff⟩ := take_eq_ok h
  exact ⟨front, by omega, hrest, by omega⟩

theorem advanced_of_operand {reader behind : Reader} {text : String}
    (h : reader.operand = .ok (text, behind)) : reader.Advanced lengthSize behind := by
  simp only [operand, bind, Except.bind] at h
  split at h
  · cases h
  · next hfield =>
    split at h
    · cases h
    · next hbody =>
      split at h
      · cases h
        exact ((advanced_of_take hfield).trans (advanced_of_take hbody)).mono (by omega)
      · cases h

theorem advanced_of_operands {reader behind : Reader} {opcode : Opcode} {instruction : Instruction}
    (h : reader.operands opcode = .ok (instruction, behind)) :
    reader.Advanced lengthSize behind := by
  cases opcode <;> simp only [operands, bind, Except.bind] at h
  · split at h
    · cases h
    · next hkey =>
      split at h
      · cases h
      · next hvalue =>
        cases h
        exact ((advanced_of_operand hkey).trans (advanced_of_operand hvalue)).mono (by omega)
  all_goals
    split at h
    · cases h
    · next hkey =>
      cases h
      exact advanced_of_operand hkey

theorem advanced_of_next {reader behind : Reader} {instruction : Instruction}
    (h : reader.next = .ok (instruction, behind)) : reader.Advanced (1 + lengthSize) behind := by
  unfold next at h
  split at h
  · cases h
  · next byte rest hrest =>
    split at h
    · cases h
    · have : reader.Advanced 1 ⟨reader.offset + 1, rest⟩ := ⟨[byte], by simp, by simp [hrest], rfl⟩
      exact this.trans (advanced_of_operands h)

theorem rest_lt_of_next {reader behind : Reader} {instruction : Instruction}
    (h : reader.next = .ok (instruction, behind)) : behind.rest.length < reader.rest.length := by
  have := (advanced_of_next h).rest_le
  omega

end Reader

end SealedVault.Bytecode
