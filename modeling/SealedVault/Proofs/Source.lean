import SealedVault.Proofs.Running
import SealedVault.Source.Parse

/-!
This module contains what reading source text promises about the instructions. Main statements:
`encodable_of_parse`, so every instruction of a program fits the length fields of bytecode, and
`compile_exact`, so compiling fails only where reading does, and its bytes are the written program.
-/

namespace SealedVault.Source

theorem mem_of_mapM_eq_ok {f : α → Except ε β} {inputs : List α} {outputs : List β}
    (h : inputs.mapM f = .ok outputs) {output : β} (hmem : output ∈ outputs) :
    ∃ input ∈ inputs, f input = .ok output := by
  induction inputs generalizing outputs with
  | nil =>
    cases h
    cases hmem
  | cons input rest ih =>
    rw [List.mapM_cons] at h
    simp only [bind, Except.bind, pure, Except.pure] at h
    split at h
    · cases h
    · next first hfirst =>
      split at h
      · cases h
      · next more hmore =>
        cases h
        rw [List.mem_cons] at hmem
        cases hmem with
        | inl heq => exact ⟨input, List.mem_cons_self, heq ▸ hfirst⟩
        | inr hmem =>
          obtain ⟨found, hfound, hf⟩ := ih hmore hmem
          exact ⟨found, List.mem_cons_of_mem _ hfound, hf⟩

theorem le_maxOperand_of_operand {line : Nat} {role : Role} {word : List Char} {text : String}
    (h : operand line role word = .ok text) : text.utf8ByteSize ≤ Bytecode.maxOperand := by
  unfold operand at h
  dsimp only at h
  split at h
  · cases h
  · next hfits =>
    cases h
    simpa [Bytecode.isOversized] using hfits

theorem encodable_of_instruction {line : Nat} {opcode : Opcode} {words : List (List Char)}
    {found : Instruction} (h : instruction line opcode words = .ok found) : found.Encodable := by
  unfold instruction at h
  split at h
  · cases h
  · simp only [bind, Except.bind, pure, Except.pure] at h
    split at h
    · cases h
    · next key hkey =>
      have hkey := le_maxOperand_of_operand hkey
      split at h
      · split at h
        · cases h
        · next value hvalue =>
          have hvalue := le_maxOperand_of_operand hvalue
          cases h
          intro text hmem
          simp only [Instruction.operands, List.mem_cons, List.not_mem_nil, or_false] at hmem
          rcases hmem with rfl | rfl
          · exact hkey
          · exact hvalue
      · cases h
        intro text hmem
        rw [List.mem_singleton.1 hmem]
        exact hkey
      · cases h
        intro text hmem
        rw [List.mem_singleton.1 hmem]
        exact hkey

theorem encodable_of_parseLine {line : Nat} {text : List Char} {found : Instruction}
    (h : parseLine line text = .ok (some found)) : found.Encodable := by
  unfold parseLine at h
  split at h
  · cases h
  · split at h
    · cases h
    · next opcode _ =>
      cases hread : instruction line opcode _ with
      | error e =>
        rw [hread] at h
        cases h
      | ok read =>
        rw [hread] at h
        cases h
        exact encodable_of_instruction hread

theorem encodable_of_parse {maxLines : Nat} {source : String} {program : List Instruction}
    (h : parse maxLines source = .ok program) {found : Instruction} (hmem : found ∈ program) :
    found.Encodable := by
  unfold parse at h
  dsimp only at h
  split at h
  · cases h
  · simp only [bind, Except.bind, pure, Except.pure] at h
    split at h
    · cases h
    · next read hread =>
      cases h
      simp only [List.mem_filterMap, id_eq, exists_eq_right] at hmem
      obtain ⟨⟨text, line⟩, -, hline⟩ := mem_of_mapM_eq_ok hread hmem
      exact encodable_of_parseLine hline

section Compile

variable {maxLines : Nat} {source : String} {program : List Instruction}

theorem compile_of_parse (h : parse maxLines source = .ok program) :
    compile maxLines source = .ok (program.flatMap Instruction.bytes) := by
  unfold compile
  rw [h]
  rfl

theorem compile_eq_error_iff {e : SourceError} :
    compile maxLines source = .error e ↔ parse maxLines source = .error e := by
  unfold compile
  cases parse maxLines source with
  | error e' => simp [bind, Except.bind]
  | ok program => simp [bind, Except.bind, pure, Except.pure]

theorem encode_of_parse (h : parse maxLines source = .ok program) :
    Bytecode.encode program = .ok (program.flatMap Instruction.bytes) := by
  apply Bytecode.encode_eq_ok_iff.2
  constructor
  · intro found hmem
    apply encodable_of_parse h hmem
  · rfl

end Compile

/--
Compiling fails exactly if parsing does, and with the same error. The bytes of a program are those
that the checked writer makes, they are read as the program without the targets of loads, and they
run to their end.
-/
theorem compile_exact (maxLines : Nat) (source : String) :
    (∀ e, compile maxLines source = .error e ↔ parse maxLines source = .error e) ∧
    ∀ program, parse maxLines source = .ok program →
      (∀ found ∈ program, ∀ operand ∈ found.operands, operand.utf8ByteSize ≤ 65535) ∧
      ∃ bytes, compile maxLines source = .ok bytes ∧ Bytecode.encode program = .ok bytes ∧
        Bytecode.decode bytes = .ok (program.map Instruction.withoutTarget) ∧
        ∀ store,
          let run := execute bytes store
          run.stop = .completed ∧ run.Applied store program := by
  constructor
  · intro e
    apply compile_eq_error_iff
  · intro program h
    have hfits : ∀ found ∈ program, found.Encodable := by
      intro found hmem
      apply encodable_of_parse h hmem
    refine ⟨hfits, _, compile_of_parse h, encode_of_parse h, ?_, ?_⟩
    · apply Bytecode.decode_flatMap_bytes hfits
    · intro store
      apply execute_flatMap_bytes store hfits

/-- A comment, a value of two words and a target that bytecode does not carry. -/
theorem compile_exact_target :
    let program : List Instruction := [.store "k" "a b", .load "k" (some "slot"), .delete "k"]
    ∃ bytes, compile 3 "storefav k a  b // c\nLOADFAV k slot\nDelFav k" = .ok bytes ∧
      Bytecode.encode program = .ok bytes ∧
      Bytecode.decode bytes = .ok [.store "k" "a b", .load "k" none, .delete "k"] ∧
      (execute bytes .empty).stop = .completed ∧ (execute bytes .empty).executed = 3 := by
  intro program
  have hparse : parse 3 "storefav k a  b // c\nLOADFAV k slot\nDelFav k" = .ok program := rfl
  obtain ⟨-, bytes, hcompile, hencode, hdecode, hrun⟩ := (compile_exact _ _).2 program hparse
  obtain ⟨hstop, happlied⟩ := hrun .empty
  exact ⟨bytes, hcompile, hencode, hdecode, hstop, happlied.executed_eq⟩

end SealedVault.Source
