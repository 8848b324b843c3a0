import SealedVault.Proofs.Running

/-!
This module contains the faults of bytecode. Main statements: `next_eq_error_iff`, so reading an
instruction fails with the first fault among its parts, `decode_append`, so a program in front of
some bytes only moves their fault, and `decode_names_fault`, so what is refused is refused for the
first fault behind the longest program in front.
-/

namespace SealedVault

namespace BytecodeError

/-- The same fault with `distance` more bytes in front. -/
def shift (distance : Nat) : BytecodeError → BytecodeError
  | cut offset needed remaining => cut (offset + distance) needed remaining
  | notUtf8 offset => notUtf8 (offset + distance)
  | operandTooLong size => operandTooLong size
  | unknownOpcode byte offset => unknownOpcode byte (offset + distance)

end BytecodeError

namespace Opcode

/-- The number of operands behind an opcode. -/
def arity : Opcode → Nat
  | store => 2
  | load => 1
  | delete => 1

theorem ofByte?_eq_none_iff {byte : UInt8} :
    ofByte? byte = none ↔ byte ∉ [0x20, 0x21, 0x22] := by
  unfold ofByte?
  split
  · simp [*]
  · split
    · simp [*]
    · split
      · simp [*]
      · simp [*]

theorem arity_of_ofByte? {byte : UInt8} {opcode : Opcode} (h : ofByte? byte = some opcode) :
    opcode.arity = if byte = 0x20 then 2 else 1 := by
  rw [← toByte_of_ofByte? h]
  cases opcode
  all_goals rfl

end Opcode

namespace Bytecode

theorem bind_eq_error_iff {α β : Type} {first : Except BytecodeError α}
    {more : α → Except BytecodeError β} {e : BytecodeError} :
    first >>= more = .error e ↔ first = .error e ∨ ∃ a, first = .ok a ∧ more a = .error e := by
  cases first with
  | ok a => simp [bind, Except.bind]
  | error e' => simp [bind, Except.bind]

namespace Reader

/-- Why there is no operand: its length field is cut, its body is, or the body is no text. -/
inductive OperandFault (reader : Reader) : BytecodeError → Prop where
  | field (hcut : reader.rest.length < 2) :
    OperandFault reader (.cut reader.offset 2 reader.rest.length)
  | body {high low : UInt8} {rest : Bytes} (hrest : reader.rest = high :: low :: rest)
    (hcut : rest.length < high.toNat * 256 + low.toNat) :
    OperandFault reader (.cut (reader.offset + 2) (high.toNat * 256 + low.toNat) rest.length)
  | text {high low : UInt8} {body rest : Bytes}
    (hrest : reader.rest = high :: low :: (body ++ rest))
    (hbody : body.length = high.toNat * 256 + low.toNat) (htext : ∀ text, body ≠ utf8 text) :
    OperandFault reader (.notUtf8 (reader.offset + 2))

/-- The first fault among operands, of which there are to be `count` one behind the other. -/
inductive OperandsFault : Nat → Reader → BytecodeError → Prop where
  | here {count : Nat} {reader : Reader} {e : BytecodeError} (head : reader.OperandFault e) :
    OperandsFault (count + 1) reader e
  | later {count : Nat} {reader behind : Reader} {e : BytecodeError} {text : String}
    (hfits : text.utf8ByteSize ≤ maxOperand) (head : reader.Passes (ofOperand text) behind)
    (tail : OperandsFault count behind e) : OperandsFault (count + 1) reader e

/-- The first fault of an instruction. -/
inductive InstructionFault (reader : Reader) : BytecodeError → Prop where
  | opcode {byte : UInt8} {rest : Bytes} (hrest : reader.rest = byte :: rest)
    (hbyte : Opcode.ofByte? byte = none) :
    InstructionFault reader (.unknownOpcode byte reader.offset)
  | operands {byte : UInt8} {rest : Bytes} {opcode : Opcode} {e : BytecodeError}
    (hrest : reader.rest = byte :: rest) (hbyte : Opcode.ofByte? byte = some opcode)
    (hfault : OperandsFault opcode.arity ⟨reader.offset + 1, rest⟩ e) : InstructionFault reader e

section Error

variable {reader : Reader} {e : BytecodeError}

theorem take_eq_error_iff {size : Nat} :
    reader.take size = .error e ↔
      reader.rest.length < size ∧ e = .cut reader.offset size reader.rest.length := by
  simp only [take, List.length_take]
  split
  · next h => simp; omega
  · next h =>
    have hcut : reader.rest.length < size := by omega
    simp [hcut, eq_comm]

theorem operand_of_short (h : reader.rest.length < 2) :
    reader.operand = .error (.cut reader.offset 2 reader.rest.length) := by
  unfold operand
  apply bind_eq_error_iff.2
  left
  apply take_eq_error_iff.2 ⟨h, rfl⟩

theorem operand_of_field {high low : UInt8} {rest : Bytes}
    (h : reader.rest = high :: low :: rest) :
    reader.operand =
      (do
        let (body, behind) ← take ⟨reader.offset + 2, rest⟩ (high.toNat * 256 + low.toNat)
        match ofUtf8? body with
        | some text => return (text, behind)
        | none => throw (.notUtf8 (reader.offset + 2))) := by
  have hfield := take_append reader.offset [high, low] rest
  rw [List.cons_append, List.singleton_append, ← h] at hfield
  unfold operand
  rw [← toSize_pair]
  exact congrArg (· >>= _) hfield

theorem operand_eq_error_iff : reader.operand = .error e ↔ reader.OperandFault e := by
  constructor
  · intro h
    match hrest : reader.rest with
    | [] | [_] =>
      have hshort : reader.rest.length < 2 := by simp [hrest]
      rw [operand_of_short hshort] at h
      cases h
      apply OperandFault.field hshort
    | high :: low :: rest =>
      rw [operand_of_field hrest] at h
      rcases bind_eq_error_iff.1 h with hbody | ⟨⟨body, behind⟩, hbody, h⟩
      · obtain ⟨hcut, rfl⟩ := take_eq_error_iff.1 hbody
        apply OperandFault.body hrest hcut
      · obtain ⟨hsize, hbody, -⟩ := take_eq_ok hbody
        dsimp only at h hbody
        split at h
        · cases h
        · next hnone =>
          cases h
          rw [hbody] at hrest
          apply OperandFault.text hrest hsize
          rintro text rfl
          simp at hnone
  · intro h
    cases h with
    | field hcut => apply operand_of_short hcut
    | body hrest hcut =>
      rw [operand_of_field hrest, take_eq_error_iff.2 ⟨hcut, rfl⟩]
      rfl
    | @text high low body rest hrest hbody htext =>
      have hnone : ofUtf8? body = none := by
        apply Option.eq_none_iff_forall_ne_some.2
        intro text hsome
        apply htext text (eq_utf8_of_ofUtf8? hsome)
      rw [operand_of_field hrest, ← hbody, take_append]
      simp only [bind, Except.bind, hnone]
      rfl

theorem operandsFault_succ_iff {count : Nat} :
    OperandsFault (count + 1) reader e ↔
      reader.operand = .error e ∨
        ∃ text behind, reader.operand = .ok (text, behind) ∧ OperandsFault count behind e := by
  constructor
  · intro h
    cases h with
    | here head => exact .inl (operand_eq_error_iff.2 head)
    | later hfits head tail => exact .inr ⟨_, _, operand_eq_ok_iff.2 ⟨hfits, head⟩, tail⟩
  · rintro (head | ⟨text, behind, head, tail⟩)
    · apply OperandsFault.here
      apply operand_eq_error_iff.1 head
    · obtain ⟨hfits, head⟩ := operand_eq_ok_iff.1 head
      apply OperandsFault.later hfits head tail

theorem operands_eq_error_iff {opcode : Opcode} :
    reader.operands opcode = .error e ↔ OperandsFault opcode.arity reader e := by
  have hnone (reader : Reader) : ¬ OperandsFault 0 reader e := nofun
  cases opcode
  all_goals
    simp only [operands, Opcode.arity, operandsFault_succ_iff, bind_eq_error_iff, hnone,
      Prod.exists, pure, Except.pure, reduceCtorEq, and_false, exists_false]

theorem next_eq_error_iff (h : reader.rest ≠ []) :
    reader.next = .error e ↔ reader.InstructionFault e := by
  match hrest : reader.rest with
  | [] => exact absurd hrest h
  | byte :: rest =>
    unfold next
    rw [hrest]
    dsimp only
    constructor
    · intro hnext
      split at hnext
      · next hbyte =>
        cases hnext
        apply InstructionFault.opcode hrest hbyte
      · next opcode hbyte =>
        apply InstructionFault.operands hrest hbyte
        apply operands_eq_error_iff.1 hnext
    · intro hfault
      cases hfault with
      | opcode hrest' hbyte =>
        rw [hrest] at hrest'
        cases hrest'
        rw [hbyte]
      | operands hrest' hbyte hfault =>
        rw [hrest] at hrest'
        cases hrest'
        rw [hbyte]
        apply operands_eq_error_iff.2 hfault

end Error

/-- The same reader with `distance` more bytes in front. -/
def shift (distance : Nat) (reader : Reader) : Reader :=
  ⟨reader.offset + distance, reader.rest⟩

section Shift

variable {reader behind : Reader} {e : BytecodeError} (distance : Nat)

theorem Passes.shift {front : Bytes} (h : reader.Passes front behind) :
    (reader.shift distance).Passes front (behind.shift distance) where
  rest_eq := h.rest_eq
  offset_eq := by
    have := h.offset_eq
    simp only [Reader.shift]
    omega

theorem OperandFault.shift (h : reader.OperandFault e) :
    (reader.shift distance).OperandFault (e.shift distance) := by
  cases h with
  | field hcut => exact .field hcut
  | body hrest hcut =>
    simp only [BytecodeError.shift, Nat.add_right_comm _ 2]
    exact .body hrest hcut
  | text hrest hbody htext =>
    simp only [BytecodeError.shift, Nat.add_right_comm _ 2]
    exact .text hrest hbody htext

theorem OperandsFault.shift {count : Nat} (h : OperandsFault count reader e) :
    OperandsFault count (reader.shift distance) (e.shift distance) := by
  induction h with
  | here head => exact .here (head.shift distance)
  | later hfits head _ ih => exact .later hfits (head.shift distance) ih

theorem InstructionFault.shift (h : reader.InstructionFault e) :
    (reader.shift distance).InstructionFault (e.shift distance) := by
  cases h with
  | opcode hrest hbyte => exact .opcode hrest hbyte
  | operands hrest hbyte hfault =>
    refine .operands hrest hbyte ?_
    have := hfault.shift distance
    rwa [Reader.shift, Nat.add_right_comm] at this

theorem Ends.shift {fault : Option BytecodeError} (h : behind.Ends fault) :
    (behind.shift distance).Ends (fault.map (·.shift distance)) := by
  cases h with
  | completed hrest => exact .completed hrest
  | faulted hrest hnext =>
    have hfault := (next_eq_error_iff hrest).1 hnext
    refine .faulted hrest ((next_eq_error_iff ?_).2 (hfault.shift distance))
    exact hrest

end Shift

/-- The fault lies behind the reader, and whatever is cut is cut by the end of the bytes. -/
inductive Locates (reader : Reader) : BytecodeError → Prop where
  | cut {offset needed remaining : Nat} (hoffset : reader.offset ≤ offset)
    (hend : offset + remaining = reader.offset + reader.rest.length)
    (hcut : remaining < needed) : Locates reader (.cut offset needed remaining)
  | notUtf8 {offset : Nat} (hoffset : reader.offset ≤ offset)
    (hend : offset ≤ reader.offset + reader.rest.length) : Locates reader (.notUtf8 offset)

theorem OperandFault.locates {reader : Reader} {e : BytecodeError} (h : reader.OperandFault e) :
    reader.Locates e := by
  cases h with
  | field hcut => exact .cut (by omega) rfl hcut
  | body hrest hcut => exact .cut (by omega) (by simp [hrest]; omega) hcut
  | text hrest => exact .notUtf8 (by omega) (by simp [hrest])

theorem Locates.of_passes {reader behind : Reader} {front : Bytes} {e : BytecodeError}
    (hpasses : reader.Passes front behind) (h : behind.Locates e) : reader.Locates e := by
  have hrest := congrArg List.length hpasses.rest_eq
  have hoffset := hpasses.offset_eq
  rw [List.length_append] at hrest
  cases h with
  | cut hlow hend hcut => exact .cut (by omega) (by omega) hcut
  | notUtf8 hlow hend => exact .notUtf8 (by omega) (by omega)

theorem OperandsFault.locates {count : Nat} {reader : Reader} {e : BytecodeError}
    (h : OperandsFault count reader e) : reader.Locates e := by
  induction h with
  | here head => exact head.locates
  | later _ head _ ih => exact ih.of_passes head

theorem InstructionFault.named {reader : Reader} {e : BytecodeError}
    (h : reader.InstructionFault e) :
    ∃ byte rest, reader.rest = byte :: rest ∧
      (e = .unknownOpcode byte reader.offset ↔ byte ∉ [0x20, 0x21, 0x22]) ∧
      (byte ∈ [0x20, 0x21, 0x22] →
        OperandsFault (if byte = 0x20 then 2 else 1) ⟨reader.offset + 1, rest⟩ e) := by
  cases h with
  | @opcode byte rest hrest hbyte =>
    have hunknown := Opcode.ofByte?_eq_none_iff.1 hbyte
    exact ⟨byte, rest, hrest, iff_of_true rfl hunknown, fun hknown => absurd hknown hunknown⟩
  | @operands byte rest opcode e hrest hbyte hfault =>
    rw [Opcode.arity_of_ofByte? hbyte] at hfault
    refine ⟨byte, rest, hrest, iff_of_false ?_ ?_, fun _ => hfault⟩
    · rintro rfl
      cases hfault.locates
    · intro hunknown
      rw [Opcode.ofByte?_eq_none_iff.2 hunknown] at hbyte
      cases hbyte

end Reader

open Reader

variable {bytes front : Bytes} {program : List Instruction} {behind : Reader} {size : Nat}

/-- A program in front of some bytes stays in front, and a fault in the bytes only moves. -/
theorem decode_append (h : decode front = .ok program) (bytes : Bytes) :
    decode (front ++ bytes) =
      match decode bytes with
      | .ok more => .ok (program ++ more)
      | .error e => .error (e.shift front.length) := by
  obtain ⟨hplain, hfront⟩ := decode_eq_ok_iff.1 h
  obtain ⟨more, behind, fault, hreads, hends⟩ := exists_reads (ofBytes bytes)
  obtain ⟨hmore, hpasses⟩ := reads_iff.1 hreads
  have hwhole : (ofBytes (front ++ bytes)).Reads (program ++ more) (behind.shift front.length) := by
    apply reads_iff.2
    constructor
    · apply List.forall_mem_append.2 ⟨hplain, hmore⟩
    · rw [List.flatMap_append, ← hfront]
      have hfirst : (ofBytes (front ++ bytes)).Passes front ((ofBytes bytes).shift front.length) :=
        ⟨rfl, rfl⟩
      apply hfirst.append (hpasses.shift front.length)
  rw [decode_of_reads hwhole (hends.shift front.length), decode_of_reads hreads hends]
  cases fault with
  | none => rfl
  | some e => rfl

/-- The longest program in front of the bytes ends at `size`. -/
structure LongestProgram (bytes : Bytes) (size : Nat) : Prop where
  readable : ∃ program, decode (bytes.take size) = .ok program
  longest : ∀ n, size < n → n ≤ bytes.length → ∀ program, decode (bytes.take n) ≠ .ok program

theorem ReadableUpTo.longestProgram (h : ReadableUpTo bytes size program) :
    LongestProgram bytes size where
  readable := ⟨program, h.decode_take⟩
  longest := by
    intro n hsize hn longer hlonger
    have hmore : bytes.take n = bytes.take size ++ (bytes.drop size).take (n - size) := by
      rw [← List.take_add, Nat.add_sub_cancel' (Nat.le_of_lt hsize)]
    rw [hmore, decode_append h.decode_take] at hlonger
    split at hlonger
    · next more hread =>
      obtain ⟨hplain, hbytes⟩ := decode_eq_ok_iff.1 hread
      cases more with
      | nil =>
        have := congrArg List.length hbytes
        simp at this
        omega
      | cons instruction rest =>
        -- The first instruction of the longer program could be read behind the shorter one
        apply h.not_prefix instruction (hplain instruction List.mem_cons_self).encodable
        apply List.IsPrefix.trans _ (List.take_prefix (n - size) _)
        rw [hbytes, List.flatMap_cons]
        apply List.prefix_append
    · cases hlonger

theorem eq_drop_of_reads (h : (ofBytes bytes).Reads program behind) :
    behind.rest = bytes.drop behind.offset := by
  obtain ⟨-, hrest, hoffset⟩ := reads_iff.1 h
  dsimp only [ofBytes] at hrest hoffset
  rw [hoffset, hrest, Nat.zero_add, List.drop_left]

/--
A program in front of some bytes stays in front, and a fault in the bytes only moves. What is
refused has a longest program in front, and the fault is the first one behind it: a byte that is no
opcode, or an operand that is cut by the end of the bytes or is no text.
-/
theorem decode_names_fault :
    (∀ (front bytes : Bytes) (program : List Instruction), decode front = .ok program →
      decode (front ++ bytes) =
        match decode bytes with
        | .ok more => .ok (program ++ more)
        | .error e => .error (e.shift front.length)) ∧
    ∀ (bytes : Bytes) (e : BytecodeError), decode bytes = .error e →
      ∃ (size : Nat) (byte : UInt8) (rest : Bytes),
        LongestProgram bytes size ∧ bytes.drop size = byte :: rest ∧
        (e = .unknownOpcode byte size ↔ byte ∉ [0x20, 0x21, 0x22]) ∧
        (byte ∈ [0x20, 0x21, 0x22] →
          OperandsFault (if byte = 0x20 then 2 else 1) ⟨size + 1, rest⟩ e ∧
          ((∃ offset needed remaining, e = .cut offset needed remaining ∧ size < offset ∧
              offset ≤ bytes.length ∧ offset + remaining = bytes.length ∧ remaining < needed) ∨
            ∃ offset, e = .notUtf8 offset ∧ size < offset ∧ offset ≤ bytes.length)) := by
  constructor
  · intro front bytes program h
    apply decode_append h
  · intro bytes e h
    obtain ⟨program, behind, fault, hreads, hends⟩ := exists_reads (ofBytes bytes)
    rw [decode_of_reads hreads hends] at h
    have hlongest := (readableUpTo_of_reads hreads hends).longestProgram
    have hdrop := eq_drop_of_reads hreads
    cases hends with
    | completed hrest => cases h
    | faulted hrest hnext =>
      cases h
      obtain ⟨byte, rest, hrest, hunknown, hknown⟩ := ((next_eq_error_iff hrest).1 hnext).named
      rw [hdrop] at hrest
      refine ⟨behind.offset, byte, rest, hlongest, hrest, hunknown, fun hbyte => ⟨hknown hbyte, ?_⟩⟩
      -- The rest starts right behind the opcode, so the bounds are those of the whole
      have hlength := congrArg List.length hrest
      rw [List.length_drop, List.length_cons] at hlength
      cases (hknown hbyte).locates with
      | @cut offset needed remaining hoffset hend hcut =>
        dsimp only at hoffset hend
        exact .inl ⟨offset, needed, remaining, rfl, by omega, by omega, by omega, hcut⟩
      | @notUtf8 offset hoffset hend =>
        dsimp only at hoffset hend
        exact .inr ⟨offset, rfl, by omega, by omega⟩

/-- Behind a load, of the two bytes of a value only one is there. -/
theorem decode_names_fault_torn :
    let front : Bytes := [0x21, 0x00, 0x01, 0x6B]
    let bytes : Bytes := [0x20, 0x00, 0x01, 0x61, 0x00, 0x02, 0xC3]
    decode front = .ok [.load "k" none] ∧ decode (front ++ bytes) = .error (.cut 10 2 1) ∧
      ∃ size byte rest,
        LongestProgram (front ++ bytes) size ∧ (front ++ bytes).drop size = byte :: rest ∧
        OperandsFault (if byte = 0x20 then 2 else 1) ⟨size + 1, rest⟩ (.cut 10 2 1) := by
  intro front bytes
  have hfront : decode [0x21, 0x00, 0x01, 0x6B] = .ok [.load "k" none] := by cbv
  have hbytes : decode [0x20, 0x00, 0x01, 0x61, 0x00, 0x02, 0xC3] = .error (.cut 6 2 1) := by cbv
  have hwhole : decode (front ++ bytes) = .error (.cut 10 2 1) := by
    rw [decode_names_fault.1 front bytes _ hfront, hbytes]
    rfl
  obtain ⟨size, byte, rest, hlongest, hdrop, hunknown, hknown⟩ := decode_names_fault.2 _ _ hwhole
  have hbyte : byte ∈ [0x20, 0x21, 0x22] := by
    apply Decidable.byContradiction
    intro hbyte
    cases hunknown.2 hbyte
  exact ⟨hfront, hwhole, size, byte, rest, hlongest, hdrop, (hknown hbyte).1⟩

end Bytecode

end SealedVault
