import SealedVault.Proofs.Appending
import SealedVault.Proofs.Cursor

/-!
This module contains the bounds of reading. Main statements: `round_next`, so a cursor that reads on
moves by no less than three bytes and by no more than the longest instruction has, and
`cursor_bounded`, so reading and running end for all bytes and never reach behind them.
-/

namespace SealedVault

theorem Instruction.three_le_length_bytes (instruction : Instruction) :
    3 ≤ instruction.bytes.length := by
  rw [length_bytes]
  cases instruction with
  | store key value => dsimp only; omega
  | load key target => dsimp only; omega
  | delete key => dsimp only; omega

theorem Instruction.length_bytes_le {instruction : Instruction} (h : instruction.Encodable) :
    instruction.bytes.length ≤ 5 + 2 * 65535 := by
  rw [length_bytes]
  cases instruction with
  | store key value =>
    have hkey : key.utf8ByteSize ≤ 65535 := h key (by simp [operands])
    have hvalue : value.utf8ByteSize ≤ 65535 := h value (by simp [operands])
    dsimp only
    omega
  | load key target =>
    have hkey : key.utf8ByteSize ≤ 65535 := h key (by simp [operands])
    dsimp only
    omega
  | delete key =>
    have hkey : key.utf8ByteSize ≤ 65535 := h key (by simp [operands])
    dsimp only
    omega

theorem Progress.fault_of_stop_eq_halted {progress : Progress} {fault : Option BytecodeError}
    {byte : UInt8} {offset : Nat} (h : (progress.stopped fault).stop = .halted byte offset) :
    fault = some (.unknownOpcode byte offset) := by
  unfold stopped at h
  split at h
  · cases h
  · cases h
    rfl
  · cases h

namespace Bytecode

open Reader

theorem three_mul_length_le (program : List Instruction) :
    3 * program.length ≤ (program.flatMap Instruction.bytes).length := by
  induction program with
  | nil => apply Nat.le_refl
  | cons instruction rest ih =>
    have := instruction.three_le_length_bytes
    rw [List.flatMap_cons, List.length_append, List.length_cons]
    omega

section Reads

variable {bytes : Bytes} {program : List Instruction} {behind : Reader}
  (hreads : (Reader.ofBytes bytes).Reads program behind)
include hreads

theorem three_mul_length_of_reads : 3 * program.length ≤ bytes.length := by
  have hlength := congrArg List.length (reads_iff.1 hreads).2.rest_eq
  have := three_mul_length_le program
  rw [List.length_append] at hlength
  dsimp only [Reader.ofBytes] at hlength
  omega

theorem lt_length_of_unknownOpcode {byte : UInt8} {offset : Nat}
    (hends : behind.Ends (some (.unknownOpcode byte offset))) : offset < bytes.length := by
  cases hends with
  | faulted hrest hnext =>
    have hlength := congrArg List.length (eq_drop_of_reads hreads)
    have hpos := List.length_pos_iff.2 hrest
    rw [offset_eq_of_next hnext]
    rw [List.length_drop] at hlength
    omega

end Reads

namespace Cursor

/-- The strict reading of a program, in no more than the given number of rounds. -/
def decode? (rounds : Nat) (bytes : Bytes) :
    Option (Except BytecodeError (List Instruction) × Cursor) := do
  let (done, fault, cursor) ←
    readAll (fun done _ instruction => instruction :: done) rounds [] (ofBytes bytes)
  return (fault.elim (.ok done.reverse) .error, cursor)

/-- The running of a program, in no more than the given number of rounds. -/
def execute? (rounds : Nat) (bytes : Bytes) (store : Store) : Option (Run × Cursor) := do
  let (progress, fault, cursor) ← readAll Progress.apply rounds (.start store) (ofBytes bytes)
  return (progress.stopped fault, cursor)

theorem handed_apply (progress : Progress) (offset : Nat) (program : List Instruction) :
    handed Progress.apply progress offset program = progress.follow offset program := by
  induction program generalizing progress offset with
  | nil => rfl
  | cons instruction rest ih => apply ih

theorem handed_cons (done : List Instruction) (offset : Nat) (program : List Instruction) :
    handed (fun done _ instruction => instruction :: done) done offset program =
      program.reverse ++ done := by
  induction program generalizing done offset with
  | nil => rfl
  | cons instruction rest ih =>
    rw [handed, ih, List.reverse_cons, List.append_assoc]
    rfl

theorem exists_readAll {σ : Type} (visit : σ → Nat → Instruction → σ) (state : σ) {bytes : Bytes}
    {program : List Instruction} {behind : Reader} {fault : Option BytecodeError}
    (hreads : (Reader.ofBytes bytes).Reads program behind) (hends : behind.Ends fault) :
    ∃ after : Cursor, readAll visit (bytes.length / 3 + 1) state (ofBytes bytes) =
        some (handed visit state 0 program, fault, after) ∧
      after.bytes = bytes ∧ after.InBounds := by
  have := three_mul_length_of_reads hreads
  apply readAll_of_reads visit _ state hreads hends (by omega) (inBounds_ofBytes bytes) rfl

theorem exists_decode? (bytes : Bytes) :
    ∃ after, decode? (bytes.length / 3 + 1) bytes = some (decode bytes, after) ∧
      after.bytes = bytes ∧ after.InBounds := by
  obtain ⟨program, behind, fault, hreads, hends⟩ := exists_reads (Reader.ofBytes bytes)
  obtain ⟨after, hrun, hafter⟩ :=
    exists_readAll (fun done _ instruction => instruction :: done) [] hreads hends
  refine ⟨after, ?_, hafter⟩
  unfold decode?
  rw [decode_of_reads hreads hends, hrun, handed_cons, List.append_nil]
  simp only [Option.bind_eq_bind, Option.bind_some, List.reverse_reverse]
  rfl

theorem exists_execute? (bytes : Bytes) (store : Store) :
    ∃ after, execute? (bytes.length / 3 + 1) bytes store = some (execute bytes store, after) ∧
      after.bytes = bytes ∧ after.InBounds := by
  obtain ⟨program, behind, fault, hreads, hends⟩ := exists_reads (Reader.ofBytes bytes)
  obtain ⟨after, hrun, hafter⟩ := exists_readAll Progress.apply (.start store) hreads hends
  refine ⟨after, ?_, hafter⟩
  unfold execute?
  rw [execute_of_reads store hreads hends, hrun, handed_apply]
  rfl

/-- The scan does not break off, stays in bounds, and if it fails it leaves the cursor like this. -/
def Stays {α : Type} (cursor : Cursor) (scan : Scan α) (left : BytecodeError → Cursor → Prop) :
    Prop :=
  ∃ found after, scan.run cursor = some (found, after) ∧ after.InBounds ∧
    ∀ e, found = .error e → left e after

/-- What becomes of one instruction: it is read, or it is at fault and the cursor rests. -/
inductive Round (cursor : Cursor) : Option (Except BytecodeError Instruction × Cursor) → Prop where
  | read {after : Cursor} (instruction : Instruction) (hbounds : after.InBounds)
    (hleast : cursor.position + 3 ≤ after.position)
    (hmost : after.position ≤ cursor.position + (5 + 2 * 65535)) :
    Round cursor (some (.ok instruction, after))
  | failed {after : Cursor} {e : BytecodeError} (hbounds : after.InBounds)
    (hfault : cursor.reader.InstructionFault e) (hrests : after.Rests e) :
    Round cursor (some (.error e, after))

variable {cursor : Cursor} (h : cursor.InBounds)
include h

theorem stays_take (size : Nat) : cursor.Stays (take size) fun _ after => after = cursor := by
  by_cases hcut : (cursor.bytes.drop cursor.position).length < size
  · exact ⟨_, _, take_of_short h hcut, h, fun _ _ => rfl⟩
  · obtain ⟨front, rest, hrest, rfl⟩ :
        ∃ front rest, cursor.bytes.drop cursor.position = front ++ rest ∧
          front.length = size := by
      refine ⟨_, _, (List.take_append_drop size _).symm, ?_⟩
      rw [List.length_take]
      omega
    exact ⟨_, _, take_of_drop h hrest, h.advance hrest, nofun⟩

theorem stays_operand :
    cursor.Stays operand fun e after => cursor.reader.OperandFault e ∧ after.Rests e := by
  have htracks := follows_operand cursor h
  generalize hread : cursor.reader.operand = expected at htracks
  generalize hrun : operand.run cursor = found at htracks
  cases htracks with
  | ok text hbytes hbounds hbehind => exact ⟨_, _, hrun, hbounds, nofun⟩
  | error hbytes hbounds hrests =>
    refine ⟨_, _, hrun, hbounds, ?_⟩
    rintro e ⟨⟩
    exact ⟨operand_eq_error_iff.1 hread, hrests⟩

theorem exists_byte (hrest : cursor.reader.rest ≠ []) :
    ∃ first, cursor.bytes[cursor.position]? = some first ∧
      byte.run cursor = some (.ok first, cursor.advance 1) := by
  obtain ⟨first, rest, hdrop⟩ := List.exists_cons_of_ne_nil hrest
  have hdrop : cursor.bytes.drop cursor.position = [first] ++ rest := hdrop
  exact ⟨first, getElem?_position hdrop, byte_of_drop h hdrop⟩

theorem round_next (hrest : cursor.reader.rest ≠ []) : cursor.Round (next.run cursor) := by
  have htracks := follows_next cursor h
  generalize hread : cursor.reader.next = expected at htracks
  generalize next.run cursor = found at htracks ⊢
  cases htracks with
  | ok instruction hbytes hbounds hbehind =>
    obtain ⟨hplain, hpasses⟩ := next_eq_ok_iff.1 hread
    have hoffset := hpasses.offset_eq
    have hleast := instruction.three_le_length_bytes
    have hmost := Instruction.length_bytes_le hplain.encodable
    rw [← hbehind] at hoffset
    dsimp only [reader] at hoffset
    exact .read instruction hbounds (by omega) (by omega)
  | error hbytes hbounds hrests =>
    exact .failed hbounds ((next_eq_error_iff hrest).1 hread) hrests

end Cursor

open Cursor

/--
Wherever a cursor stands, no difference, slice or index that a read needs is out of range, and a
read that fails leaves the cursor behind the parts that were read. At the head of a round there is a
byte to read, and a round that reads an instruction moves the cursor by at least three bytes. So
reading and running end in a third as many rounds as there are bytes, and one more.
-/
theorem cursor_bounded (bytes : Bytes) :
    (∀ cursor : Cursor, cursor.bytes = bytes → cursor.InBounds →
      (∀ size, cursor.Stays (take size) fun _ after => after = cursor) ∧
      (cursor.Stays operand fun e after => cursor.reader.OperandFault e ∧ after.Rests e) ∧
      (cursor.isAtEnd = false →
        (∃ first, bytes[cursor.position]? = some first ∧
          byte.run cursor = some (.ok first, cursor.advance 1)) ∧
        cursor.Round (next.run cursor))) ∧
    (∃ after, decode? (bytes.length / 3 + 1) bytes = some (decode bytes, after) ∧
      after.bytes = bytes ∧ after.InBounds) ∧
    (∀ store, ∃ after,
      execute? (bytes.length / 3 + 1) bytes store = some (execute bytes store, after) ∧
        after.bytes = bytes ∧ after.InBounds) ∧
    (∀ program, decode bytes = .ok program → 3 * program.length ≤ bytes.length) ∧
    (∀ store, 3 * (execute bytes store).executed ≤ bytes.length) ∧
    (∀ byte offset, decode bytes = .error (.unknownOpcode byte offset) → offset < bytes.length) ∧
    ∀ store byte offset, (execute bytes store).stop = .halted byte offset →
      offset < bytes.length := by
  obtain ⟨program, behind, fault, hreads, hends⟩ := exists_reads (Reader.ofBytes bytes)
  have hcount := three_mul_length_of_reads hreads
  have hdecode := decode_of_reads hreads hends
  refine ⟨?_, exists_decode? bytes, exists_execute? bytes, ?_, ?_, ?_, ?_⟩
  · rintro cursor rfl h
    refine ⟨stays_take h, stays_operand h, ?_⟩
    intro hend
    have hrest : cursor.reader.rest ≠ [] := by
      intro hnil
      rw [isAtEnd_iff.2 hnil] at hend
      cases hend
    exact ⟨exists_byte h hrest, round_next h hrest⟩
  · intro read hread
    rw [hdecode] at hread
    cases fault with
    | none =>
      cases hread
      exact hcount
    | some e => cases hread
  · intro store
    rw [(applied_execute store hreads hends).executed_eq]
    exact hcount
  · intro byte offset hread
    rw [hdecode] at hread
    cases fault with
    | none => cases hread
    | some e =>
      cases hread
      apply lt_length_of_unknownOpcode hreads hends
  · intro store byte offset hstop
    rw [execute_of_reads store hreads hends] at hstop
    rw [Progress.fault_of_stop_eq_halted hstop] at hends
    apply lt_length_of_unknownOpcode hreads hends

/-- Behind the first instruction, of the second the key is missing. -/
theorem cursor_bounded_torn :
    let bytes : Bytes := [0x21, 0x00, 0x01, 0x6B, 0x20, 0x00, 0x01]
    let cursor : Cursor := ⟨bytes, 4, [3, 1, 0]⟩
    cursor.InBounds ∧ cursor.isAtEnd = false ∧ cursor.Round (next.run cursor) ∧
      (decode (bytes.take 4) = .ok [.load "k" none] ∧ 3 * 1 ≤ 4) ∧
      (decode (bytes.drop 3) = .error (.unknownOpcode 0x6B 0) ∧ 0 < 4) ∧
      (execute (bytes.drop 3) .empty).stop = .halted 0x6B 0 := by
  intro bytes cursor
  have hbounds : cursor.InBounds := ⟨by decide, by decide⟩
  have hend : cursor.isAtEnd = false := by decide
  have hread : decode (bytes.take 4) = .ok [.load "k" none] := by cbv
  have hunknown : decode (bytes.drop 3) = .error (.unknownOpcode 0x6B 0) := by cbv
  have hhalted : (execute (bytes.drop 3) .empty).stop = .halted 0x6B 0 := by cbv
  refine ⟨hbounds, hend, ((cursor_bounded bytes).1 cursor rfl hbounds).2.2 hend |>.2,
    ⟨hread, ?_⟩, ⟨hunknown, ?_⟩, hhalted⟩
  · exact (cursor_bounded (bytes.take 4)).2.2.2.1 _ hread
  · exact (cursor_bounded (bytes.drop 3)).2.2.2.2.2.1 _ _ hunknown

end Bytecode

end SealedVault
