import Mathlib.Data.List.Forall2
import SealedVault.Proofs.Reading

/-!
This module contains the writing of instructions behind what a buffer holds. Main statements:
`encodeInto_eq`, so an instruction is appended whole or not at all, `encode_eq`, so a program is
refused for the first of all its operands that is too long, `run_forM_write`, so writing a program
leaves whole instructions behind even if it fails, and `encodeInto_exact`, which joins them.
-/

namespace SealedVault

namespace Bytecode

/-- The first of some operands that is too long for a length field. -/
def FirstOversized (operands : List String) (operand : String) : Prop :=
  ∃ before after, operands = before ++ operand :: after ∧
    (∀ earlier ∈ before, earlier.utf8ByteSize ≤ 65535) ∧ 65535 < operand.utf8ByteSize

theorem isOversized_iff {operand : String} :
    isOversized operand = true ↔ 65535 < operand.utf8ByteSize := by
  unfold isOversized maxOperand
  apply decide_eq_true_iff

theorem find?_isOversized_eq_some_iff {operands : List String} {operand : String} :
    operands.find? isOversized = some operand ↔ FirstOversized operands operand := by
  simp only [List.find?_eq_some_iff_append, FirstOversized, isOversized_iff, Bool.not_eq_true',
    ← Bool.not_eq_true, Nat.not_lt]
  constructor
  · rintro ⟨hlong, before, after, hoperands, hbefore⟩
    exact ⟨before, after, hoperands, hbefore, hlong⟩
  · rintro ⟨before, after, hoperands, hbefore, hlong⟩
    exact ⟨hlong, before, after, hoperands, hbefore⟩

theorem find?_isOversized_eq_none_iff {operands : List String} :
    operands.find? isOversized = none ↔ ∀ operand ∈ operands, operand.utf8ByteSize ≤ 65535 := by
  simp only [List.find?_eq_none, isOversized_iff, Nat.not_lt]

section Writer

variable {α β : Type}

theorem run_bind (first : Writer α) (more : α → Writer β) (buffer : Bytes) :
    (first >>= more).run buffer =
      match first.run buffer with
      | (.ok a, middle) => (more a).run middle
      | (.error e, middle) => (.error e, middle) := by
  rw [ExceptT.run_bind]
  simp only [bind, StateT.bind]
  cases first.run buffer with
  | mk found middle =>
    cases found with
    | ok a => rfl
    | error e => rfl

theorem run_forM_check (operands : List String) (buffer : Bytes) :
    (operands.forM check).run buffer =
      match operands.find? isOversized with
      | some operand => (.error (.operandTooLong operand.utf8ByteSize), buffer)
      | none => (.ok (), buffer) := by
  induction operands with
  | nil => rfl
  | cons operand rest ih =>
    rw [List.forM, run_bind, List.find?_cons]
    cases hlong : isOversized operand with
    | false =>
      have hcheck : (check operand).run buffer = (.ok (), buffer) := by
        unfold check
        rw [hlong]
        rfl
      rw [hcheck]
      apply ih
    | true =>
      have hcheck : (check operand).run buffer =
          (.error (.operandTooLong operand.utf8ByteSize), buffer) := by
        unfold check
        rw [hlong]
        rfl
      rw [hcheck]

theorem run_forM_put (operands : List String) (buffer : Bytes) :
    (operands.forM fun operand => do
      put (ofSize operand.utf8ByteSize)
      put (utf8 operand)).run buffer = (.ok (), buffer ++ operands.flatMap ofOperand) := by
  induction operands generalizing buffer with
  | nil =>
    rw [List.flatMap_nil, List.append_nil]
    rfl
  | cons operand rest ih =>
    have hput : (do
        put (ofSize operand.utf8ByteSize)
        put (utf8 operand)).run buffer = (.ok (), buffer ++ ofOperand operand) := by
      unfold ofOperand
      rw [← List.append_assoc]
      rfl
    rw [List.forM, run_bind, hput, List.flatMap_cons, ← List.append_assoc]
    apply ih

end Writer

end Bytecode

open Bytecode

namespace Instruction

theorem encodeInto_eq (instruction : Instruction) (buffer : Bytes) :
    instruction.encodeInto buffer =
      match instruction.encode with
      | .ok bytes => (.ok (), buffer ++ bytes)
      | .error e => (.error e, buffer) := by
  unfold encodeInto write encode
  rw [run_bind, run_forM_check]
  cases instruction.operands.find? isOversized with
  | some operand => rfl
  | none =>
    have hput : (put [instruction.opcode.toByte]).run buffer =
        (.ok (), buffer ++ [instruction.opcode.toByte]) := rfl
    dsimp only
    rw [run_bind, hput]
    dsimp only
    rw [run_forM_put, List.append_assoc]
    rfl

theorem length_bytes (instruction : Instruction) :
    instruction.bytes.length =
      match instruction with
      | store key value => 3 + key.utf8ByteSize + (2 + value.utf8ByteSize)
      | load key _ => 3 + key.utf8ByteSize
      | delete key => 3 + key.utf8ByteSize := by
  unfold bytes
  cases instruction with
  | store key value => simp [operands, lengthSize]; omega
  | load key target => simp [operands, lengthSize]; omega
  | delete key => simp [operands, lengthSize]; omega

theorem encode_of_firstOversized {instruction : Instruction} {operand : String}
    (h : FirstOversized instruction.operands operand) :
    instruction.encode = .error (.operandTooLong operand.utf8ByteSize) := by
  unfold encode
  rw [find?_isOversized_eq_some_iff.2 h]

theorem encodable_or_firstOversized (instruction : Instruction) :
    instruction.Encodable ∨ ∃ operand, FirstOversized instruction.operands operand := by
  cases hlong : instruction.operands.find? isOversized with
  | none => exact .inl (find?_isOversized_eq_none_iff.1 hlong)
  | some operand => exact .inr ⟨operand, find?_isOversized_eq_some_iff.1 hlong⟩

end Instruction

namespace Bytecode

theorem encode_eq (program : List Instruction) :
    encode program =
      match (program.flatMap Instruction.operands).find? isOversized with
      | some operand => .error (.operandTooLong operand.utf8ByteSize)
      | none => .ok (program.flatMap Instruction.bytes) := by
  induction program with
  | nil => rfl
  | cons instruction rest ih =>
    rw [encode_cons, ih, List.flatMap_cons, List.find?_append, Instruction.encode]
    cases instruction.operands.find? isOversized with
    | some operand => rfl
    | none =>
      rw [Option.none_or]
      cases (rest.flatMap Instruction.operands).find? isOversized with
      | some operand => rfl
      | none => rfl

theorem run_forM_write (program : List Instruction) (buffer : Bytes) :
    match encode program with
    | .ok bytes => (program.forM Instruction.write).run buffer = (.ok (), buffer ++ bytes)
    | .error e =>
      ∃ done instruction rest front, program = done ++ instruction :: rest ∧
        encode done = .ok front ∧ instruction.encode = .error e ∧
        (program.forM Instruction.write).run buffer = (.error e, buffer ++ front) := by
  induction program generalizing buffer with
  | nil =>
    show (List.forM [] Instruction.write).run buffer = (.ok (), buffer ++ [])
    rw [List.append_nil]
    rfl
  | cons instruction rest ih =>
    have hwrite := instruction.encodeInto_eq buffer
    unfold Instruction.encodeInto at hwrite
    rw [encode_cons, List.forM, run_bind, hwrite]
    cases hfirst : instruction.encode with
    | error e => exact ⟨[], instruction, rest, [], rfl, rfl, hfirst, by rw [List.append_nil]⟩
    | ok first =>
      dsimp only [Except.bind]
      specialize ih (buffer ++ first)
      cases hrest : encode rest with
      | ok more =>
        rw [hrest] at ih
        dsimp only [Except.map] at ih ⊢
        rw [ih, List.append_assoc]
      | error e =>
        rw [hrest] at ih
        obtain ⟨done, failed, after, front, hprogram, hdone, hfailed, hrun⟩ := ih
        refine ⟨instruction :: done, failed, after, first ++ front, ?_, ?_, hfailed, ?_⟩
        · rw [hprogram, List.cons_append]
        · rw [encode_cons, hfirst, hdone]
          rfl
        · rw [hrun, List.append_assoc]

theorem exists_parts {program : List Instruction}
    (h : ∀ operand ∈ program.flatMap Instruction.operands, operand.utf8ByteSize ≤ 65535) :
    ∃ parts, List.Forall₂ (fun instruction part => instruction.encode = .ok part) program parts ∧
      encode program = .ok parts.flatten := by
  refine ⟨program.map Instruction.bytes, ?_, ?_⟩
  · rw [List.forall₂_map_right_iff, List.forall₂_same]
    intro instruction hmem
    apply Instruction.encode_of_encodable
    intro operand hoperand
    apply h operand (List.mem_flatMap_of_mem hmem hoperand)
  · rw [encode_eq, find?_isOversized_eq_none_iff.2 h, List.flatMap_def]

/--
An instruction is appended whole, as the bytes that it is written as on its own, or else the buffer
stays as it is. A program is written as its instructions one behind the other, with the same bytes
whether or not they share a buffer. Both are refused for the first operand that is too long.
-/
theorem encodeInto_exact :
    (∀ (instruction : Instruction) (buffer : Bytes),
      ((∀ operand ∈ instruction.operands, operand.utf8ByteSize ≤ 65535) ∧
        ∃ bytes, instruction.encode = .ok bytes ∧
        instruction.encodeInto buffer = (.ok (), buffer ++ bytes) ∧
        bytes.length =
          match instruction with
          | .store key value => 3 + key.utf8ByteSize + (2 + value.utf8ByteSize)
          | .load key _ => 3 + key.utf8ByteSize
          | .delete key => 3 + key.utf8ByteSize) ∨
      ∃ operand, FirstOversized instruction.operands operand ∧
        instruction.encode = .error (.operandTooLong operand.utf8ByteSize) ∧
        instruction.encodeInto buffer =
          (.error (.operandTooLong operand.utf8ByteSize), buffer)) ∧
    ∀ program : List Instruction,
      ((∀ operand ∈ program.flatMap Instruction.operands, operand.utf8ByteSize ≤ 65535) ∧
        ∃ parts,
          List.Forall₂ (fun instruction part => instruction.encode = .ok part) program parts ∧
          encode program = .ok parts.flatten ∧
          ∀ buffer,
            (program.forM Instruction.write).run buffer = (.ok (), buffer ++ parts.flatten)) ∨
      ∃ operand, FirstOversized (program.flatMap Instruction.operands) operand ∧
        encode program = .error (.operandTooLong operand.utf8ByteSize) ∧
        ∀ buffer, ∃ done instruction rest front, program = done ++ instruction :: rest ∧
          encode done = .ok front ∧ (program.forM Instruction.write).run buffer =
            (.error (.operandTooLong operand.utf8ByteSize), buffer ++ front) := by
  constructor
  · intro instruction buffer
    rw [instruction.encodeInto_eq]
    obtain hfits | ⟨operand, hlong⟩ := instruction.encodable_or_firstOversized
    · rw [Instruction.encode_of_encodable hfits]
      exact .inl ⟨hfits, _, rfl, rfl, instruction.length_bytes⟩
    · rw [Instruction.encode_of_firstOversized hlong]
      exact .inr ⟨operand, hlong, rfl, rfl⟩
  · intro program
    have hrun := run_forM_write program
    cases hlong : (program.flatMap Instruction.operands).find? isOversized with
    | none =>
      have hfits := find?_isOversized_eq_none_iff.1 hlong
      obtain ⟨parts, hparts, hencode⟩ := exists_parts hfits
      simp only [hencode] at hrun
      exact .inl ⟨hfits, parts, hparts, hencode, hrun⟩
    | some operand =>
      have hencode := encode_eq program
      rw [hlong] at hencode
      simp only [hencode] at hrun
      refine .inr ⟨operand, find?_isOversized_eq_some_iff.1 hlong, hencode, ?_⟩
      intro buffer
      obtain ⟨done, instruction, rest, front, hprogram, hdone, -, hbuffer⟩ := hrun buffer
      exact ⟨done, instruction, rest, front, hprogram, hdone, hbuffer⟩

end Bytecode

end SealedVault
