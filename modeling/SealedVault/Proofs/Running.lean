import SealedVault.Proofs.Reading

/-!
This module contains the running of whole programs. Main statements: `execute_of_reads`, so a run
applies the instructions that can be read and stops where reading ends, and `execute_agrees_decode`,
so running a program agrees with reading it, be it at fault or not.
-/

namespace SealedVault

namespace Store

/-- The store after some instructions, one after the other. -/
def after (store : Store) : List Instruction → Store
  | [] => store
  | .store key value :: rest => (store.insert key value).after rest
  | .load .. :: rest => store.after rest
  | .delete key :: rest => (store.erase key).after rest

/-- What the loads among some instructions deliver. -/
def loads (store : Store) : List Instruction → List Load
  | [] => []
  | .store key value :: rest => (store.insert key value).loads rest
  | .load key _ :: rest => ⟨key, store.get? key⟩ :: store.loads rest
  | .delete key :: rest => (store.erase key).loads rest

end Store

namespace Progress

variable (progress : Progress) (program : List Instruction)

/-- The progress after some instructions, the first of which starts at `offset`. -/
def follow (progress : Progress) (offset : Nat) : List Instruction → Progress
  | [] => progress
  | instruction :: rest =>
    (progress.apply offset instruction).follow (offset + instruction.bytes.length) rest

theorem store_follow (offset : Nat) :
    (progress.follow offset program).store = progress.store.after program := by
  induction program generalizing progress offset with
  | nil => rfl
  | cons instruction rest ih =>
    rw [follow, ih]
    cases instruction with
    | store key value => rfl
    | load key target => rfl
    | delete key => rfl

theorem executed_follow (offset : Nat) :
    (progress.follow offset program).executed = progress.executed + program.length := by
  induction program generalizing progress offset with
  | nil => rfl
  | cons instruction rest ih =>
    rw [follow, ih, List.length_cons, Nat.add_comm rest.length, ← Nat.add_assoc]
    rfl

theorem loads_follow (offset : Nat) :
    (progress.follow offset program).loads.toList =
      progress.loads.toList ++ progress.store.loads program := by
  induction program generalizing progress offset with
  | nil => exact (List.append_nil _).symm
  | cons instruction rest ih =>
    rw [follow, ih]
    cases instruction with
    | store key value => rfl
    | load key target => simp [apply, Store.loads]
    | delete key => rfl

/-- The run that is over where no instruction can be read any more. -/
def stopped (progress : Progress) : Option BytecodeError → Run
  | none => { progress with stop := .completed }
  | some (.unknownOpcode byte offset) =>
    { progress.halted byte offset with stop := .halted byte offset }
  | some e => { progress with stop := .faulted e }

theorem stopped_frame (fault : Option BytecodeError) :
    let run := progress.stopped fault
    run.store = progress.store ∧ run.executed = progress.executed ∧
      run.loads = progress.loads := by
  unfold stopped
  split
  · exact ⟨rfl, rfl, rfl⟩
  · exact ⟨rfl, rfl, rfl⟩
  · exact ⟨rfl, rfl, rfl⟩

theorem stopped_of_ne {e : BytecodeError} (h : ∀ byte offset, e ≠ .unknownOpcode byte offset) :
    progress.stopped (some e) = { progress with stop := .faulted e } := by
  unfold stopped
  split
  · next heq => cases heq
  · next heq =>
    cases heq
    exact absurd rfl (h _ _)
  · next heq =>
    cases heq
    rfl

end Progress

open Bytecode Bytecode.Reader

variable {bytes : Bytes} {reader behind : Reader} {program : List Instruction}
  {fault : Option BytecodeError}

theorem execute.go_of_reads (progress : Progress) (h : reader.Reads program behind) :
    go progress reader = go (progress.follow reader.offset program) behind := by
  induction h generalizing progress with
  | nil reader => rfl
  | cons head tail ih =>
    rw [go_of_next progress head, ih, (next_eq_ok_iff.1 head).2.offset_eq]
    rfl

theorem execute.go_of_ends (progress : Progress) (h : behind.Ends fault) :
    go progress behind = progress.stopped fault := by
  cases h with
  | completed hrest =>
    rw [go, if_pos (by simpa using hrest)]
    rfl
  | faulted hrest hnext =>
    rw [go, if_neg (by simpa using hrest)]
    split
    · next hread =>
      rw [hnext] at hread
      cases hread
      rfl
    · next e hknown hread =>
      rw [hnext] at hread
      cases hread
      exact (progress.stopped_of_ne hknown).symm
    · next hread =>
      rw [hnext] at hread
      cases hread

theorem execute_of_reads (store : Store) (hreads : (ofBytes bytes).Reads program behind)
    (hends : behind.Ends fault) :
    execute bytes store = ((Progress.start store).follow 0 program).stopped fault := by
  unfold execute
  rw [execute.go_of_reads _ hreads, execute.go_of_ends _ hends]
  rfl

/-- The run did what the instructions ask for, and nothing else. -/
structure Run.Applied (run : Run) (store : Store) (program : List Instruction) : Prop where
  executed_eq : run.executed = program.length
  store_eq : run.store = store.after program
  loads_eq : run.loads.toList = store.loads program

theorem applied_execute (store : Store) (hreads : (ofBytes bytes).Reads program behind)
    (hends : behind.Ends fault) : (execute bytes store).Applied store program := by
  obtain ⟨hstore, hexecuted, hloads⟩ :=
    ((Progress.start store).follow 0 program).stopped_frame fault
  rw [execute_of_reads store hreads hends]
  constructor
  · rw [hexecuted, Progress.executed_follow]
    exact Nat.zero_add _
  · rw [hstore, Progress.store_follow]
    rfl
  · rw [hloads, Progress.loads_follow]
    rfl

theorem execute.go_flatMap_bytes (h : ∀ instruction ∈ program, instruction.Encodable)
    (progress : Progress) (offset : Nat) :
    go progress ⟨offset, program.flatMap Instruction.bytes⟩ =
      { progress.follow offset program with stop := .completed } := by
  induction program generalizing progress offset with
  | nil =>
    rw [go]
    rfl
  | cons instruction rest ih =>
    rw [List.forall_mem_cons] at h
    obtain ⟨hfits, hrest⟩ := h
    rw [List.flatMap_cons, go_bytes hfits, ih hrest]
    rfl

/-- Compiled instructions are all run, and nothing else is. -/
theorem execute_flatMap_bytes (store : Store)
    (h : ∀ instruction ∈ program, instruction.Encodable) :
    let run := execute (program.flatMap Instruction.bytes) store
    run.stop = .completed ∧ run.Applied store program := by
  unfold execute ofBytes
  rw [execute.go_flatMap_bytes h]
  refine ⟨rfl, ?_, ?_, ?_⟩
  · rw [Progress.executed_follow]
    exact Nat.zero_add _
  · rw [Progress.store_follow]
    rfl
  · rw [Progress.loads_follow]
    rfl

namespace Bytecode

/-- The first `size` bytes hold a program, and behind them no instruction is complete. -/
structure ReadableUpTo (bytes : Bytes) (size : Nat) (program : List Instruction) : Prop where
  decode_take : decode (bytes.take size) = .ok program
  not_prefix : ∀ instruction : Instruction, instruction.Encodable →
    ¬ instruction.bytes <+: bytes.drop size

theorem readableUpTo_of_reads (hreads : (ofBytes bytes).Reads program behind)
    (hends : behind.Ends fault) : ReadableUpTo bytes behind.offset program := by
  obtain ⟨hplain, hbytes, hoffset⟩ := reads_iff.1 hreads
  have hbytes : bytes = program.flatMap Instruction.bytes ++ behind.rest := hbytes
  rw [hoffset, hbytes]
  dsimp only [ofBytes]
  rw [Nat.zero_add]
  constructor
  · rw [List.take_left]
    exact decode_eq_ok_iff.2 ⟨hplain, rfl⟩
  · rw [List.drop_left]
    exact fun instruction hfits => hends.not_prefix hfits

theorem reads_of_decode_take {size : Nat} (h : decode (bytes.take size) = .ok program) :
    (ofBytes bytes).Reads program ⟨(bytes.take size).length, bytes.drop size⟩ := by
  obtain ⟨hplain, hbytes⟩ := decode_eq_ok_iff.1 h
  rw [reads_iff, ← hbytes]
  exact ⟨hplain, (List.take_append_drop size bytes).symm, (Nat.zero_add _).symm⟩

/-- A value that cannot be read is a fault of its own, whatever the key before it. -/
theorem exists_next_eq_error (offset : Nat) {key : String} {tail : Bytes}
    (hkey : key.utf8ByteSize ≤ maxOperand)
    (htail : ∀ value : String, value.utf8ByteSize ≤ maxOperand → ¬ ofOperand value <+: tail) :
    ∃ e, Reader.next ⟨offset, Opcode.store.toByte :: (ofOperand key ++ tail)⟩ = .error e ∧
      ∀ byte offset, e ≠ .unknownOpcode byte offset := by
  unfold Reader.next
  dsimp only
  rw [Opcode.ofByte?_toByte]
  simp only [Reader.operands, bind, Except.bind]
  rw [operand_ofOperand _ _ _ hkey]
  dsimp only
  split
  · next e hvalue =>
    refine ⟨e, rfl, ?_⟩
    rintro byte offset rfl
    exact operand_ne_unknownOpcode hvalue
  · next hvalue =>
    obtain ⟨hfits, hpasses⟩ := operand_eq_ok_iff.1 hvalue
    exact absurd ⟨_, hpasses.rest_eq.symm⟩ (htail _ hfits)

end Bytecode

theorem execute_of_torn_value (store : Store) {size : Nat} {key : String} {tail : Bytes}
    (hfront : decode (bytes.take size) = .ok program)
    (hrest : bytes.drop size = Opcode.store.toByte :: (ofOperand key ++ tail))
    (hkey : key.utf8ByteSize ≤ maxOperand)
    (htail : ∀ value : String, value.utf8ByteSize ≤ maxOperand → ¬ ofOperand value <+: tail) :
    (∃ e, (execute bytes store).stop = .faulted e) ∧
      (execute bytes store).store = store.after program := by
  have hreads := reads_of_decode_take hfront
  obtain ⟨e, hnext, hknown⟩ := exists_next_eq_error (bytes.take size).length hkey htail
  rw [← hrest] at hnext
  have hends : Reader.Ends ⟨(bytes.take size).length, bytes.drop size⟩ (some e) := by
    refine .faulted ?_ hnext
    rw [hrest]
    exact List.cons_ne_nil _ _
  refine ⟨⟨e, ?_⟩, (applied_execute store hreads hends).store_eq⟩
  rw [execute_of_reads store hreads hends, Progress.stopped_of_ne _ hknown]

/--
A run stops where reading fails, and for the same reason. The instructions before that place, and
only these, have taken effect. So a value that cannot be read leaves its key as it was.
-/
theorem execute_agrees_decode (bytes : Bytes) (store : Store) :
    let run := execute bytes store
    (match decode bytes with
      | .ok program => run.stop = .completed ∧ run.Applied store program
      | .error (.unknownOpcode byte offset) =>
        run.stop = .halted byte offset ∧
          ∃ program, ReadableUpTo bytes offset program ∧ run.Applied store program
      | .error e =>
        run.stop = .faulted e ∧
          ∃ size program, ReadableUpTo bytes size program ∧ run.Applied store program) ∧
    ∀ (size : Nat) (program : List Instruction) (key : String) (tail : Bytes),
      decode (bytes.take size) = .ok program →
      bytes.drop size = Opcode.store.toByte :: (ofOperand key ++ tail) →
      key.utf8ByteSize ≤ maxOperand →
      (∀ value : String, value.utf8ByteSize ≤ maxOperand → ¬ ofOperand value <+: tail) →
      (∃ e, run.stop = .faulted e) ∧ run.store.get? key = (store.after program).get? key := by
  intro run
  constructor
  · obtain ⟨program, behind, fault, hreads, hends⟩ := exists_reads (ofBytes bytes)
    have hrun : run = _ := execute_of_reads store hreads hends
    have happlied : run.Applied store program := applied_execute store hreads hends
    have hreadable := readableUpTo_of_reads hreads hends
    rw [decode_of_reads hreads hends]
    cases hends with
    | completed hrest => exact ⟨congrArg Run.stop hrun, happlied⟩
    | @faulted e hrest hnext =>
      cases e with
      | unknownOpcode byte offset =>
        refine ⟨congrArg Run.stop hrun, program, ?_, happlied⟩
        rw [offset_eq_of_next hnext]
        exact hreadable
      | cut offset needed remaining =>
        exact ⟨congrArg Run.stop hrun, _, program, hreadable, happlied⟩
      | notUtf8 offset => exact ⟨congrArg Run.stop hrun, _, program, hreadable, happlied⟩
      | operandTooLong size => exact ⟨congrArg Run.stop hrun, _, program, hreadable, happlied⟩
  · intro size program key tail hfront hrest hkey htail
    obtain ⟨hstop, hstore⟩ := execute_of_torn_value store hfront hrest hkey htail
    exact ⟨hstop, congrArg (·.get? key) hstore⟩

/-- Of the second instruction the key is there, but of nine bytes of its value only one. -/
theorem execute_agrees_decode_torn :
    let bytes : Bytes :=
      [0x20, 0x00, 0x01, 0x61, 0x00, 0x01, 0x31, 0x20, 0x00, 0x01, 0x62, 0x00, 0x09, 0x78]
    let store := Store.empty.insert "b" "2"
    let run := execute bytes store
    (∃ e, run.stop = .faulted e) ∧ run.store.get? "b" = some "2" := by
  intro bytes store run
  have hfront : decode (bytes.take 7) = .ok [.store "a" "1"] := by
    refine decode_eq_ok_iff.2 ⟨?_, by decide⟩
    rw [List.forall_mem_singleton]
    exact ⟨by decide, rfl⟩
  have htail (value : String) (hfits : value.utf8ByteSize ≤ maxOperand) :
      ¬ ofOperand value <+: [0x00, 0x09, 0x78] := by
    rintro ⟨rest, hrest⟩
    rw [ofOperand, List.append_assoc] at hrest
    have hfield : ofSize value.utf8ByteSize = [0x00, 0x09] := congrArg (List.take 2) hrest
    have hsize := toSize_ofSize hfits
    have hlength := congrArg List.length hrest
    rw [hfield] at hsize
    simp [← hsize, toSize] at hlength
    omega
  exact (execute_agrees_decode bytes store).2 7 _ "b" _ hfront (by decide) (by decide) htail

end SealedVault
