import SealedVault.Interpreter

/-!
This module contains the reading and the running of written instructions. Main statements:
`next_bytes` and `next_eq_ok_iff`, so what is written is read back up to the target of a load and
nothing else is read, and `execute_bytes`, so a program of one instruction has the effect of that
instruction and no other.
-/

namespace SealedVault

namespace Instruction

theorem encodable_of_fits (instruction : Instruction) {key : String}
    (hoperands : instruction.operands = [key]) (h : key.utf8ByteSize ≤ Bytecode.maxOperand) :
    instruction.Encodable := by
  intro operand hmem
  rw [hoperands, List.mem_singleton] at hmem
  rw [hmem]
  exact h

/-- Bytecode carries all there is to the instruction. -/
structure IsPlain (instruction : Instruction) : Prop where
  encodable : instruction.Encodable
  withoutTarget_eq : instruction.withoutTarget = instruction

theorem isPlain_withoutTarget {instruction : Instruction} (h : instruction.Encodable) :
    instruction.withoutTarget.IsPlain where
  encodable := by
    unfold Encodable
    rw [operands_withoutTarget]
    exact h
  withoutTarget_eq := by
    cases instruction with
    | store key value => rfl
    | load key target => rfl
    | delete key => rfl

end Instruction

namespace Bytecode

theorem toSize_pair (a b : UInt8) : toSize [a, b] = a.toNat * 256 + b.toNat := by
  simp [toSize]

theorem toSize_le {field : Bytes} (h : field.length = lengthSize) : toSize field ≤ maxOperand := by
  match field, h with
  | [a, b], _ =>
    have ha := a.toNat_lt
    have hb := b.toNat_lt
    rw [toSize_pair, maxOperand]
    omega

theorem ofSize_toSize {field : Bytes} (h : field.length = lengthSize) :
    ofSize (toSize field) = field := by
  match field, h with
  | [a, b], _ =>
    have hb := b.toNat_lt
    have hhigh : (a.toNat * 256 + b.toNat) / 256 = a.toNat := by omega
    have hlow : UInt8.ofNat (a.toNat * 256 + b.toNat) = b := by
      apply UInt8.toNat_inj.1
      rw [UInt8.toNat_ofNat']
      omega
    rw [toSize_pair, ofSize, hhigh, hlow, UInt8.ofNat_toNat]

section Bind

variable {α β : Type} {first : Except BytecodeError α} {more : α → Except BytecodeError β}

theorem bind_eq_ok_iff {b : β} :
    first >>= more = .ok b ↔ ∃ a, first = .ok a ∧ more a = .ok b := by
  cases first with
  | ok a =>
    constructor
    · exact fun h => ⟨a, rfl, h⟩
    · rintro ⟨_, hfirst, h⟩
      cases hfirst
      exact h
  | error e => exact ⟨nofun, nofun⟩

theorem bind_ne_error {e : BytecodeError} (hfirst : first ≠ .error e)
    (hmore : ∀ a, more a ≠ .error e) : first >>= more ≠ .error e := by
  cases first with
  | ok a => exact hmore a
  | error e' =>
    intro h
    cases h
    exact hfirst rfl

end Bind

namespace Reader

/-- The reader `behind` stands right behind the bytes `front`, which come next. -/
structure Passes (reader : Reader) (front : Bytes) (behind : Reader) : Prop where
  rest_eq : reader.rest = front ++ behind.rest
  offset_eq : behind.offset = reader.offset + front.length

theorem Passes.append {a b c : Reader} {front more : Bytes} (hab : a.Passes front b)
    (hbc : b.Passes more c) : a.Passes (front ++ more) c where
  rest_eq := by rw [hab.rest_eq, hbc.rest_eq, List.append_assoc]
  offset_eq := by rw [hbc.offset_eq, hab.offset_eq, List.length_append, Nat.add_assoc]

theorem Passes.eq {reader behind : Reader} {front : Bytes} (h : reader.Passes front behind) :
    reader = ⟨reader.offset, front ++ behind.rest⟩ ∧
      behind = ⟨reader.offset + front.length, behind.rest⟩ := by
  constructor
  · rw [← h.rest_eq]
  · rw [← h.offset_eq]

theorem passes_of_take {reader behind : Reader} {size : Nat} {front : Bytes}
    (h : reader.take size = .ok (front, behind)) : reader.Passes front behind := by
  obtain ⟨hlength, hrest, hoffset⟩ := take_eq_ok h
  exact ⟨hrest, hlength ▸ hoffset⟩

theorem rest_ne_nil_of_next {reader behind : Reader} {instruction : Instruction}
    (h : reader.next = .ok (instruction, behind)) : reader.rest ≠ [] := by
  intro hnil
  have := rest_lt_of_next h
  rw [hnil] at this
  cases this

theorem take_eq_error {reader : Reader} {size : Nat} {e : BytecodeError}
    (h : reader.take size = .error e) : e = .cut reader.offset size reader.rest.length := by
  simp only [take] at h
  split at h
  · cases h
  · cases h
    rfl

section UnknownOpcode

variable {reader : Reader} {byte : UInt8} {offset : Nat}

theorem take_ne_unknownOpcode {size : Nat} :
    reader.take size ≠ .error (.unknownOpcode byte offset) := by
  intro h
  cases take_eq_error h

theorem operand_ne_unknownOpcode : reader.operand ≠ .error (.unknownOpcode byte offset) := by
  apply bind_ne_error take_ne_unknownOpcode
  rintro ⟨field, middle⟩
  apply bind_ne_error take_ne_unknownOpcode
  rintro ⟨body, behind⟩ h
  dsimp only at h
  split at h
  · cases h
  · cases h

theorem operands_ne_unknownOpcode {opcode : Opcode} :
    reader.operands opcode ≠ .error (.unknownOpcode byte offset) := by
  cases opcode with
  | store =>
    apply bind_ne_error operand_ne_unknownOpcode
    rintro ⟨key, middle⟩
    apply bind_ne_error operand_ne_unknownOpcode
    nofun
  | load =>
    apply bind_ne_error operand_ne_unknownOpcode
    nofun
  | delete =>
    apply bind_ne_error operand_ne_unknownOpcode
    nofun

/-- Only the first byte of an instruction is taken for an opcode. -/
theorem offset_eq_of_next (h : reader.next = .error (.unknownOpcode byte offset)) :
    offset = reader.offset := by
  unfold next at h
  split at h
  · cases h
  · split at h
    · cases h
      rfl
    · exact absurd h operands_ne_unknownOpcode

end UnknownOpcode

theorem operand_ofOperand (offset : Nat) (text : String) (rest : Bytes)
    (h : text.utf8ByteSize ≤ maxOperand) :
    operand ⟨offset, ofOperand text ++ rest⟩ =
      .ok (text, ⟨offset + (ofOperand text).length, rest⟩) := by
  have hfield := take_append offset (ofSize text.utf8ByteSize) (utf8 text ++ rest)
  have hbody := take_append (offset + lengthSize) (utf8 text) rest
  rw [length_ofSize] at hfield
  rw [length_utf8] at hbody
  unfold operand
  rw [ofOperand, List.append_assoc, hfield]
  simp only [bind, Except.bind]
  rw [toSize_ofSize h, hbody]
  dsimp only
  rw [ofUtf8?_utf8]
  simp only [List.length_append, length_ofSize, length_utf8, Nat.add_assoc]
  rfl

theorem operands_bytes {instruction : Instruction} (h : instruction.Encodable) (offset : Nat)
    (rest : Bytes) :
    operands ⟨offset, instruction.operands.flatMap ofOperand ++ rest⟩ instruction.opcode =
      .ok (instruction.withoutTarget,
        ⟨offset + (instruction.operands.flatMap ofOperand).length, rest⟩) := by
  cases instruction with
  | store key value =>
    have hkey : key.utf8ByteSize ≤ maxOperand := h key (by simp [Instruction.operands])
    have hvalue : value.utf8ByteSize ≤ maxOperand := h value (by simp [Instruction.operands])
    simp only [operands, Instruction.operands, Instruction.opcode, List.flatMap_cons,
      List.flatMap_nil, List.append_nil, List.append_assoc, bind, Except.bind]
    rw [operand_ofOperand _ _ _ hkey]
    dsimp only
    rw [operand_ofOperand _ _ _ hvalue]
    simp only [List.length_append, Nat.add_assoc]
    rfl
  | load key target =>
    have hkey : key.utf8ByteSize ≤ maxOperand := h key (by simp [Instruction.operands])
    simp only [operands, Instruction.operands, Instruction.opcode, List.flatMap_cons,
      List.flatMap_nil, List.append_nil, bind, Except.bind]
    rw [operand_ofOperand _ _ _ hkey]
    rfl
  | delete key =>
    have hkey : key.utf8ByteSize ≤ maxOperand := h key (by simp [Instruction.operands])
    simp only [operands, Instruction.operands, Instruction.opcode, List.flatMap_cons,
      List.flatMap_nil, List.append_nil, bind, Except.bind]
    rw [operand_ofOperand _ _ _ hkey]
    rfl

theorem next_bytes {instruction : Instruction} (h : instruction.Encodable) (offset : Nat)
    (rest : Bytes) :
    next ⟨offset, instruction.bytes ++ rest⟩ =
      .ok (instruction.withoutTarget, ⟨offset + instruction.bytes.length, rest⟩) := by
  unfold next Instruction.bytes
  dsimp only [List.cons_append]
  rw [Opcode.ofByte?_toByte]
  dsimp only
  rw [operands_bytes h]
  simp only [List.length_cons, Nat.add_assoc, Nat.add_comm 1]

theorem operand_eq_ok_iff {reader behind : Reader} {text : String} :
    reader.operand = .ok (text, behind) ↔
      text.utf8ByteSize ≤ maxOperand ∧ reader.Passes (ofOperand text) behind := by
  constructor
  · intro h
    obtain ⟨⟨field, middle⟩, hfield, h⟩ := bind_eq_ok_iff.1 h
    obtain ⟨⟨body, after⟩, hbody, h⟩ := bind_eq_ok_iff.1 h
    have hsize := (take_eq_ok hfield).1
    have hlength := (take_eq_ok hbody).1
    dsimp only at h hbody hlength
    split at h
    · next htext =>
      cases h
      have hbytes := eq_utf8_of_ofUtf8? htext
      rw [hbytes, length_utf8] at hlength
      -- The length field has two bytes, so that no length it can hold is over the cap
      refine ⟨hlength ▸ toSize_le hsize, ?_⟩
      rw [ofOperand, hlength, ofSize_toSize hsize, ← hbytes]
      exact (passes_of_take hfield).append (passes_of_take hbody)
    · cases h
  · rintro ⟨hsize, hpasses⟩
    obtain ⟨hreader, hbehind⟩ := hpasses.eq
    rw [hreader, hbehind]
    exact operand_ofOperand _ text _ hsize

theorem isPlain_of_operand {reader behind : Reader} {instruction : Instruction} {key : String}
    (hoperands : instruction.operands = [key]) (hplain : instruction.withoutTarget = instruction)
    (h : reader.operand = .ok (key, behind)) :
    instruction.IsPlain ∧ reader.Passes (instruction.operands.flatMap ofOperand) behind := by
  obtain ⟨hfits, hpasses⟩ := operand_eq_ok_iff.1 h
  refine ⟨⟨instruction.encodable_of_fits hoperands hfits, hplain⟩, ?_⟩
  rw [hoperands, List.flatMap_singleton]
  exact hpasses

theorem operands_eq_ok_iff {reader behind : Reader} {opcode : Opcode} {instruction : Instruction} :
    reader.operands opcode = .ok (instruction, behind) ↔
      instruction.opcode = opcode ∧ instruction.IsPlain ∧
        reader.Passes (instruction.operands.flatMap ofOperand) behind := by
  constructor
  · intro h
    cases opcode with
    | store =>
      obtain ⟨⟨key, middle⟩, hkey, h⟩ := bind_eq_ok_iff.1 h
      obtain ⟨⟨value, after⟩, hvalue, h⟩ := bind_eq_ok_iff.1 h
      cases h
      obtain ⟨hkey, hfirst⟩ := operand_eq_ok_iff.1 hkey
      obtain ⟨hvalue, hsecond⟩ := operand_eq_ok_iff.1 hvalue
      refine ⟨rfl, ⟨?_, rfl⟩, ?_⟩
      · simp [Instruction.Encodable, Instruction.operands, hkey, hvalue]
      · simpa [Instruction.operands] using hfirst.append hsecond
    | load =>
      obtain ⟨⟨key, after⟩, hkey, h⟩ := bind_eq_ok_iff.1 h
      cases h
      exact ⟨rfl, isPlain_of_operand rfl rfl hkey⟩
    | delete =>
      obtain ⟨⟨key, after⟩, hkey, h⟩ := bind_eq_ok_iff.1 h
      cases h
      exact ⟨rfl, isPlain_of_operand rfl rfl hkey⟩
  · rintro ⟨rfl, hplain, hpasses⟩
    obtain ⟨hreader, hbehind⟩ := hpasses.eq
    rw [hreader, hbehind, operands_bytes hplain.encodable, hplain.withoutTarget_eq]

theorem next_eq_ok_iff {reader behind : Reader} {instruction : Instruction} :
    reader.next = .ok (instruction, behind) ↔
      instruction.IsPlain ∧ reader.Passes instruction.bytes behind := by
  constructor
  · intro h
    unfold next at h
    split at h
    · cases h
    · next byte rest hrest =>
      split at h
      · cases h
      · next opcode hbyte =>
        obtain ⟨hopcode, hplain, hpasses⟩ := operands_eq_ok_iff.1 h
        refine ⟨hplain, ?_⟩
        have hfirst : reader.Passes [byte] ⟨reader.offset + 1, rest⟩ := ⟨hrest, rfl⟩
        rw [Instruction.bytes, hopcode, Opcode.toByte_of_ofByte? hbyte]
        exact hfirst.append hpasses
  · rintro ⟨hplain, hpasses⟩
    obtain ⟨hreader, hbehind⟩ := hpasses.eq
    rw [hreader, hbehind, next_bytes hplain.encodable, hplain.withoutTarget_eq]

end Reader

end Bytecode

@[simp]
theorem Progress.apply_withoutTarget (progress : Progress) (offset : Nat)
    (instruction : Instruction) :
    progress.apply offset instruction.withoutTarget = progress.apply offset instruction := by
  cases instruction with
  | store key value => rfl
  | load key target => rfl
  | delete key => rfl

theorem execute.go_of_next {reader behind : Bytecode.Reader} {instruction : Instruction}
    (progress : Progress) (h : reader.next = .ok (instruction, behind)) :
    go progress reader = go (progress.apply reader.offset instruction) behind := by
  rw [go, if_neg (by simpa using Bytecode.Reader.rest_ne_nil_of_next h)]
  split
  · next hread =>
    rw [h] at hread
    cases hread
  · next hread =>
    rw [h] at hread
    cases hread
  · next hread =>
    rw [h] at hread
    cases hread
    rfl

theorem execute.go_bytes {instruction : Instruction} (h : instruction.Encodable)
    (progress : Progress) (offset : Nat) (rest : Bytes) :
    go progress ⟨offset, instruction.bytes ++ rest⟩ =
      go (progress.apply offset instruction) ⟨offset + instruction.bytes.length, rest⟩ := by
  rw [go_of_next progress (Bytecode.Reader.next_bytes h offset rest),
    Progress.apply_withoutTarget]

theorem execute_bytes {instruction : Instruction} (h : instruction.Encodable) (store : Store) :
    execute instruction.bytes store =
      { (Progress.start store).apply 0 instruction with stop := .completed } := by
  have := execute.go_bytes h (.start store) 0 []
  rw [List.append_nil] at this
  unfold execute Bytecode.Reader.ofBytes
  rw [this, execute.go]
  rfl

end SealedVault
