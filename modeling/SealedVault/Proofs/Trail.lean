import SealedVault.Proofs.Faults

/-!
This module contains the events that running leaves behind. Main statements: `exists_trail`, so each
instruction that is read leaves one event with the offset where it starts, and
`events_execute_exact`, so the events of a run tell what was run and where, and whether it was
halted.
-/

namespace SealedVault

/-- The name of an operation in an event. -/
def Opcode.eventName : Opcode → String
  | store => "STORE"
  | load => "LOAD"
  | delete => "DELETE"

open Bytecode Bytecode.Reader

/--
The events of instructions that are written one behind the other, from one offset in some bytes up
to another.
-/
inductive Trail (bytes : Bytes) : Nat → List Instruction → List Event → Nat → Prop where
  | nil (offset : Nat) : Trail bytes offset [] [] offset
  | cons {start next stop : Nat} {instruction : Instruction} {written : Bytes}
    {rest : List Instruction} {events : List Event} (hwritten : instruction.encode = .ok written)
    (hnext : next = start + written.length)
    (hread : decode (bytes.extract start next) = .ok [instruction])
    (tail : Trail bytes next rest events stop) :
    Trail bytes start (instruction :: rest)
      (⟨.trace, instruction.opcode.eventName,
        [("key", .text instruction.key), ("offset", .number start)]⟩ :: events) stop

theorem Interpreter.executedEvent_eq (offset : Nat) (instruction : Instruction) :
    executedEvent offset instruction =
      ⟨.trace, instruction.opcode.eventName,
        [("key", .text instruction.key), ("offset", .number offset)]⟩ := by
  cases instruction with
  | store key value => rfl
  | load key target => rfl
  | delete key => rfl

variable {bytes : Bytes} {reader behind : Reader} {program : List Instruction}

theorem Bytecode.Reader.Passes.eq_drop {front : Bytes} (h : reader.Passes front behind)
    (hrest : reader.rest = bytes.drop reader.offset) :
    bytes.extract reader.offset behind.offset = front ∧
      behind.rest = bytes.drop behind.offset := by
  have hwhole := h.rest_eq
  rw [hrest] at hwhole
  rw [List.extract_eq_take_drop, hwhole, h.offset_eq, Nat.add_sub_cancel_left, List.take_left,
    ← List.drop_drop, hwhole, List.drop_left]
  exact ⟨rfl, rfl⟩

theorem Bytecode.decode_bytes {instruction : Instruction} (h : instruction.IsPlain) :
    decode instruction.bytes = .ok [instruction] := by
  apply decode_eq_ok_iff.2
  rw [List.forall_mem_singleton, List.flatMap_singleton]
  exact ⟨h, rfl⟩

/-- The events do not depend on what was run before. -/
theorem exists_trail (hreads : reader.Reads program behind)
    (hrest : reader.rest = bytes.drop reader.offset) :
    ∃ events, Trail bytes reader.offset program events behind.offset ∧
      ∀ progress : Progress, (progress.follow reader.offset program).events.toList =
        progress.events.toList ++ events := by
  induction hreads with
  | nil reader =>
    refine ⟨[], .nil _, ?_⟩
    intro progress
    rw [List.append_nil]
    rfl
  | @cons reader next behind instruction rest head tail ih =>
    obtain ⟨hplain, hpasses⟩ := next_eq_ok_iff.1 head
    obtain ⟨hslice, hdrop⟩ := hpasses.eq_drop hrest
    obtain ⟨events, htrail, hevents⟩ := ih hdrop
    refine ⟨_, .cons (Instruction.encode_of_encodable hplain.encodable) hpasses.offset_eq ?_ htrail,
      ?_⟩
    · rw [hslice]
      apply decode_bytes hplain
    · intro progress
      rw [Progress.follow, ← hpasses.offset_eq, hevents, ← Interpreter.executedEvent_eq]
      simp [Progress.apply]

/--
A run leaves one event for each instruction that it ran, and one more for the byte that halted it.
The offsets in the events cut the bytes into these instructions. An instruction with an operand at
fault leaves none.
-/
theorem events_execute_exact (bytes : Bytes) (store : Store) :
    let run := execute bytes store
    ∃ program events stop, Trail bytes 0 program events stop ∧ run.Applied store program ∧
      match run.stop with
      | .completed => run.events.toList = events ∧ stop = bytes.length
      | .halted byte offset =>
        run.events.toList = events ++ [⟨.warn, "unknown opcode, halting",
          [("opcode", .number byte.toNat), ("offset", .number offset)]⟩] ∧ stop = offset
      | .faulted e =>
        run.events.toList = events ∧ ∃ opcode rest,
          bytes.drop stop = Opcode.toByte opcode :: rest ∧
            OperandsFault opcode.arity ⟨stop + 1, rest⟩ e := by
  intro run
  obtain ⟨program, behind, fault, hreads, hends⟩ := exists_reads (ofBytes bytes)
  obtain ⟨events, htrail, hevents⟩ := exists_trail hreads rfl
  have hrun : run = _ := execute_of_reads store hreads hends
  have hfollowed : ((Progress.start store).follow 0 program).events.toList = events :=
    hevents (.start store)
  refine ⟨program, events, behind.offset, htrail, applied_execute store hreads hends, ?_⟩
  rw [hrun]
  cases hends with
  | completed hrest =>
    refine ⟨hfollowed, ?_⟩
    obtain ⟨-, hbytes, hoffset⟩ := reads_iff.1 hreads
    have hlength := congrArg List.length hbytes
    rw [List.length_append, hrest] at hlength
    simp only [ofBytes, List.length_nil] at hlength hoffset
    omega
  | @faulted e hrest hnext =>
    have hdrop := eq_drop_of_reads hreads
    cases (next_eq_error_iff hrest).1 hnext with
    | @opcode byte rest hbyte hunknown =>
      refine ⟨?_, rfl⟩
      rw [← hfollowed]
      simp [Progress.stopped, Progress.halted, Interpreter.haltedEvent]
    | @operands byte rest opcode _ hbyte hopcode hfault =>
      have hknown : ∀ byte offset, e ≠ .unknownOpcode byte offset := by
        rintro byte offset rfl
        cases hfault.locates
      rw [Progress.stopped_of_ne _ hknown]
      refine ⟨hfollowed, opcode, rest, ?_, hfault⟩
      rw [← hdrop, hbyte, Opcode.toByte_of_ofByte? hopcode]

-- The last byte is no opcode
example : (execute [0x22, 0x00, 0x01, 0x6B, 0x07] .empty).events.toList =
    [⟨.trace, "DELETE", [("key", .text "k"), ("offset", .number 0)]⟩,
      ⟨.warn, "unknown opcode, halting", [("opcode", .number 7), ("offset", .number 4)]⟩] := by
  cbv

end SealedVault
