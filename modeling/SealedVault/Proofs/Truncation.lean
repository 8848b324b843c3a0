import SealedVault.Proofs.Faults

/-!
This module contains programs whose last bytes are missing. Main statements: `cut_of_prefix`, so
what is left ends behind an instruction or within one, `exists_next_of_torn`, so an instruction
that is not complete is refused as cut, and `decode_take_exact`, so the front of a program is read
as the instructions in it or refused as cut.
-/

namespace SealedVault

theorem Instruction.length_operands (instruction : Instruction) :
    instruction.operands.length = instruction.opcode.arity := by
  cases instruction
  all_goals rfl

namespace Bytecode

/-- The offset where the first `count` instructions of a program end. -/
def boundary (program : List Instruction) (count : Nat) : Nat :=
  ((program.take count).flatMap Instruction.bytes).length

theorem boundary_append (done rest : List Instruction) :
    boundary (done ++ rest) done.length = (done.flatMap Instruction.bytes).length := by
  unfold boundary
  rw [List.take_left]

theorem boundary_append_cons (done rest : List Instruction) (instruction : Instruction) :
    boundary (done ++ instruction :: rest) (done.length + 1) =
      (done.flatMap Instruction.bytes).length + instruction.bytes.length := by
  have := boundary_append (done ++ [instruction]) rest
  simpa using this

/-- Some bytes are the front of a program and end behind an instruction or within one. -/
inductive Cut (program : List Instruction) (bytes : Bytes) : Prop where
  | between (done rest : List Instruction) (hprogram : program = done ++ rest)
    (hbytes : bytes = done.flatMap Instruction.bytes) : Cut program bytes
  | within (done rest : List Instruction) (instruction : Instruction) (front missing : Bytes)
    (hprogram : program = done ++ instruction :: rest)
    (hbytes : bytes = done.flatMap Instruction.bytes ++ front)
    (htorn : instruction.bytes = front ++ missing) (hfront : front ≠ [])
    (hmissing : missing ≠ []) : Cut program bytes

theorem Cut.cons {program : List Instruction} {bytes : Bytes} (first : Instruction)
    (h : Cut program bytes) : Cut (first :: program) (first.bytes ++ bytes) := by
  cases h with
  | between done rest hprogram hbytes =>
    apply Cut.between (first :: done) rest
    · simp [hprogram]
    · simp [hbytes]
  | within done rest instruction front missing hprogram hbytes htorn hfront hmissing =>
    refine .within (first :: done) rest instruction front missing ?_ ?_ htorn hfront hmissing
    · simp [hprogram]
    · simp [hbytes]

theorem cut_of_prefix {program : List Instruction} {bytes : Bytes}
    (h : bytes <+: program.flatMap Instruction.bytes) : Cut program bytes := by
  induction program generalizing bytes with
  | nil =>
    apply Cut.between [] [] rfl
    simpa using h
  | cons first program ih =>
    obtain ⟨missing, h⟩ := h
    rw [List.flatMap_cons] at h
    rcases List.append_eq_append_iff.1 h with ⟨lost, hfirst, -⟩ | ⟨more, hbytes, hmore⟩
    · by_cases hempty : bytes = []
      · apply Cut.between [] (first :: program) rfl hempty
      · by_cases hlost : lost = []
        · apply Cut.between [first] program rfl
          simp [hfirst, hlost]
        · exact .within [] program first bytes lost rfl rfl hfirst hempty hlost
    · rw [hbytes]
      apply Cut.cons
      apply ih
      exact ⟨missing, hmore.symm⟩

open Reader

/-- Of an operand some bytes at the end are missing. -/
theorem exists_operandFault_of_torn {front missing : Bytes} {text : String} (offset : Nat)
    (hfits : text.utf8ByteSize ≤ maxOperand) (h : ofOperand text = front ++ missing)
    (hmissing : missing ≠ []) :
    ∃ start needed remaining, OperandFault ⟨offset, front⟩ (.cut start needed remaining) := by
  match front with
  | [] | [_] => exact ⟨_, _, _, .field (by simp)⟩
  | high :: low :: body =>
    have hfield : ofSize text.utf8ByteSize = [high, low] := congrArg (List.take 2) h
    have hbody : utf8 text = body ++ missing := congrArg (List.drop 2) h
    have hsize : high.toNat * 256 + low.toNat = text.utf8ByteSize := by
      rw [← toSize_pair, ← hfield, toSize_ofSize hfits]
    have hlength := congrArg List.length hbody
    have := List.length_pos_iff.2 hmissing
    rw [length_utf8, List.length_append] at hlength
    exact ⟨_, _, _, .body rfl (by omega)⟩

theorem exists_operandsFault_of_torn {front missing : Bytes} {texts : List String} (offset : Nat)
    (hfits : ∀ text ∈ texts, text.utf8ByteSize ≤ maxOperand)
    (h : texts.flatMap ofOperand = front ++ missing) (hmissing : missing ≠ []) :
    ∃ start needed remaining,
      OperandsFault texts.length ⟨offset, front⟩ (.cut start needed remaining) := by
  induction texts generalizing offset front with
  | nil =>
    rw [List.flatMap_nil] at h
    have := List.append_eq_nil_iff.1 h.symm
    exact absurd this.2 hmissing
  | cons text texts ih =>
    rw [List.forall_mem_cons] at hfits
    obtain ⟨hfirst, hrest⟩ := hfits
    rw [List.flatMap_cons] at h
    have hlater (behind : Bytes) (hfront : front = ofOperand text ++ behind)
        (hbehind : texts.flatMap ofOperand = behind ++ missing) :
        ∃ start needed remaining,
          OperandsFault (texts.length + 1) ⟨offset, front⟩ (.cut start needed remaining) := by
      obtain ⟨start, needed, remaining, hfault⟩ :=
        ih (offset + (ofOperand text).length) hrest hbehind
      exact ⟨start, needed, remaining, .later hfirst ⟨hfront, rfl⟩ hfault⟩
    rcases List.append_eq_append_iff.1 h with ⟨behind, hfront, hbehind⟩ | ⟨lost, htext, hlost⟩
    · apply hlater behind hfront hbehind
    · by_cases hnone : lost = []
      · -- The front ends right behind the operand, so that the next one lacks all its bytes
        rw [hnone, List.append_nil] at htext
        rw [hnone, List.nil_append] at hlost
        apply hlater []
        · rw [htext, List.append_nil]
        · rw [hlost, List.nil_append]
      · obtain ⟨start, needed, remaining, hfault⟩ :=
          exists_operandFault_of_torn offset hfirst htext hnone
        exact ⟨start, needed, remaining, .here hfault⟩

theorem exists_next_of_torn {instruction : Instruction} {front missing : Bytes} (offset : Nat)
    (hfits : instruction.Encodable) (htorn : instruction.bytes = front ++ missing)
    (hfront : front ≠ []) (hmissing : missing ≠ []) :
    ∃ start needed remaining,
      Reader.next ⟨offset, front⟩ = .error (.cut start needed remaining) ∧
        start + remaining = offset + front.length ∧ remaining < needed := by
  match front with
  | [] => exact absurd rfl hfront
  | byte :: rest =>
    rw [Instruction.bytes, List.cons_append, List.cons.injEq] at htorn
    obtain ⟨hbyte, htorn⟩ := htorn
    obtain ⟨start, needed, remaining, hfault⟩ :=
      exists_operandsFault_of_torn (offset + 1) hfits htorn hmissing
    rw [instruction.length_operands] at hfault
    have hknown : Opcode.ofByte? byte = some instruction.opcode := by
      rw [← hbyte, Opcode.ofByte?_toByte]
    refine ⟨start, needed, remaining, ?_, ?_⟩
    · apply (next_eq_error_iff hfront).2
      exact .operands rfl hknown hfault
    · cases hfault.locates with
      | cut hoffset hend hcut =>
        dsimp only at hend
        rw [List.length_cons]
        exact ⟨by omega, hcut⟩

theorem exists_cut_of_torn {done : List Instruction} {instruction : Instruction}
    {bytes front missing : Bytes} (hplain : ∀ instruction ∈ done, instruction.IsPlain)
    (hfits : instruction.Encodable) (hbytes : bytes = done.flatMap Instruction.bytes ++ front)
    (htorn : instruction.bytes = front ++ missing) (hfront : front ≠ []) (hmissing : missing ≠ []) :
    ∃ offset needed remaining,
      decode bytes = .error (.cut offset needed remaining) ∧
      offset + remaining = bytes.length ∧ remaining < needed ∧
      ∀ store, (execute bytes store).stop = .faulted (.cut offset needed remaining) ∧
        (execute bytes store).Applied store done := by
  obtain ⟨offset, needed, remaining, hnext, hend, hcut⟩ :=
    exists_next_of_torn (0 + (done.flatMap Instruction.bytes).length) hfits htorn hfront hmissing
  have hreads : (ofBytes bytes).Reads done ⟨0 + (done.flatMap Instruction.bytes).length, front⟩ :=
    reads_iff.2 ⟨hplain, hbytes, rfl⟩
  have hends := Ends.faulted hfront hnext
  refine ⟨offset, needed, remaining, decode_of_reads hreads hends, ?_, hcut, ?_⟩
  · rw [hend, hbytes, List.length_append, Nat.zero_add]
  · intro store
    constructor
    · rw [execute_of_reads store hreads hends]
      rfl
    · apply applied_execute store hreads hends

/--
The front of a program that ends with an instruction is read as the instructions up to there. Any
other front is refused as cut by its end, and a run of it does what the complete instructions in it
ask for.
-/
theorem decode_take_exact {bytes : Bytes} {program : List Instruction}
    (h : decode bytes = .ok program) {size : Nat} (hsize : size ≤ bytes.length) :
    (∀ count ≤ program.length, size = boundary program count →
      decode (bytes.take size) = .ok (program.take count)) ∧
    ((∀ count ≤ program.length, size ≠ boundary program count) →
      ∃ offset needed remaining,
        decode (bytes.take size) = .error (.cut offset needed remaining) ∧
        offset ≤ size ∧ offset + remaining = size ∧ remaining < needed ∧
        ∃ count < program.length,
          boundary program count < size ∧ size < boundary program (count + 1) ∧
          ∀ store,
            let run := execute (bytes.take size) store
            run.stop = .faulted (.cut offset needed remaining) ∧
              run.Applied store (program.take count)) := by
  obtain ⟨hplain, hbytes⟩ := decode_eq_ok_iff.1 h
  constructor
  · intro count _ hboundary
    apply decode_eq_ok_iff.2
    constructor
    · intro instruction hmem
      apply hplain instruction (List.mem_of_mem_take hmem)
    · rw [hbytes, ← List.take_append_drop count program, List.flatMap_append, hboundary]
      simp [boundary]
  · intro hboundary
    have hprefix : bytes.take size <+: program.flatMap Instruction.bytes := by
      rw [← hbytes]
      apply List.take_prefix
    have hlength : (bytes.take size).length = size := by
      simp
      omega
    cases cut_of_prefix hprefix with
    | between done rest hprogram hdone =>
      subst hprogram
      rw [hdone] at hlength
      apply absurd _ (hboundary done.length (by simp))
      rw [boundary_append, hlength]
    | within done rest instruction front missing hprogram hdone htorn hfront hmissing =>
      subst hprogram
      rw [List.forall_mem_append, List.forall_mem_cons] at hplain
      obtain ⟨hplain, hinstruction, -⟩ := hplain
      obtain ⟨offset, needed, remaining, hdecode, hend, hcut, hrun⟩ :=
        exists_cut_of_torn hplain hinstruction.encodable hdone htorn hfront hmissing
      rw [hlength] at hend
      refine ⟨offset, needed, remaining, hdecode, by omega, hend, hcut, done.length, ?_, ?_, ?_, ?_⟩
      · simp
      · have := List.length_pos_iff.2 hfront
        rw [boundary_append, ← hlength, hdone, List.length_append]
        omega
      · have := List.length_pos_iff.2 hmissing
        rw [boundary_append_cons, ← hlength, hdone, htorn, List.length_append, List.length_append]
        omega
      · rw [List.take_left]
        exact hrun

/-- The cut goes through a character of the value, behind the key of a store. -/
theorem decode_take_exact_character :
    let bytes : Bytes := [0x22, 0x00, 0x01, 0x6B, 0x20, 0x00, 0x01, 0x61, 0x00, 0x02, 0xC3, 0xA9]
    let program : List Instruction := [.delete "k", .store "a" "é"]
    decode bytes = .ok program ∧ decode (bytes.take 4) = .ok (program.take 1) ∧
      ∃ offset needed remaining,
        decode (bytes.take 11) = .error (.cut offset needed remaining) ∧
        offset + remaining = 11 ∧ remaining < needed := by
  intro bytes program
  have hread :
      decode [0x22, 0x00, 0x01, 0x6B, 0x20, 0x00, 0x01, 0x61, 0x00, 0x02, 0xC3, 0xA9] =
        .ok [.delete "k", .store "a" "é"] := by cbv
  have hcut : ∀ count ≤ program.length, 11 ≠ boundary program count := by decide
  obtain ⟨offset, needed, remaining, hdecode, -, hend, hlack, -⟩ :=
    (decode_take_exact hread (by decide : 11 ≤ bytes.length)).2 hcut
  refine ⟨hread, ?_, offset, needed, remaining, hdecode, hend, hlack⟩
  exact (decode_take_exact hread (by decide : 4 ≤ bytes.length)).1 1 (by decide) (by decide)

end Bytecode

end SealedVault
