import SealedVault.Bytecode.Decode
import SealedVault.Proofs.Bytecode

/-!
This module contains the reading of whole programs. Main statements: `exists_reads`, so a reader
reads on to the end of its bytes or to a first fault, and `encode_decode_inverse`, so the programs
that can be read are exactly the ones that were written.
-/

namespace SealedVault.Bytecode

namespace Reader

/-- One instruction after the other is read. -/
inductive Reads : Reader → List Instruction → Reader → Prop where
  | nil (reader : Reader) : Reads reader [] reader
  | cons {reader next behind : Reader} {instruction : Instruction} {rest : List Instruction}
    (head : reader.next = .ok (instruction, next)) (tail : Reads next rest behind) :
    Reads reader (instruction :: rest) behind

/-- No instruction can be read, be it that no bytes are left. -/
inductive Ends (reader : Reader) : Option BytecodeError → Prop where
  | completed (hrest : reader.rest = []) : Ends reader none
  | faulted {e : BytecodeError} (hrest : reader.rest ≠ []) (hnext : reader.next = .error e) :
    Ends reader (some e)

variable {reader behind : Reader} {program : List Instruction}

theorem exists_reads (reader : Reader) :
    ∃ program behind fault, reader.Reads program behind ∧ behind.Ends fault := by
  by_cases hrest : reader.rest = []
  · exact ⟨[], reader, none, .nil reader, .completed hrest⟩
  · cases hnext : reader.next with
    | error e => exact ⟨[], reader, some e, .nil reader, .faulted hrest hnext⟩
    | ok read =>
      obtain ⟨instruction, next⟩ := read
      have := rest_lt_of_next hnext
      obtain ⟨program, behind, fault, hreads, hends⟩ := exists_reads next
      exact ⟨instruction :: program, behind, fault, .cons hnext hreads, hends⟩
termination_by reader.rest.length

theorem passes_nil_iff : reader.Passes [] behind ↔ reader = behind := by
  constructor
  · intro h
    obtain ⟨hreader, hbehind⟩ := h.eq
    rw [hreader, hbehind]
    rfl
  · rintro rfl
    exact ⟨rfl, rfl⟩

/-- What is read is what the bytes up to the end of the reading were written for. -/
theorem reads_iff :
    reader.Reads program behind ↔
      (∀ instruction ∈ program, instruction.IsPlain) ∧
        reader.Passes (program.flatMap Instruction.bytes) behind := by
  constructor
  · intro h
    induction h with
    | nil reader => exact ⟨nofun, passes_nil_iff.2 rfl⟩
    | cons head tail ih =>
      obtain ⟨hplain, hfirst⟩ := next_eq_ok_iff.1 head
      obtain ⟨hrest, hpasses⟩ := ih
      rw [List.flatMap_cons]
      exact ⟨List.forall_mem_cons.2 ⟨hplain, hrest⟩, hfirst.append hpasses⟩
  · rintro ⟨hplain, hpasses⟩
    -- The bytes of the first instruction come next, and where they end the others start
    induction program generalizing reader with
    | nil =>
      rw [passes_nil_iff.1 hpasses]
      exact .nil behind
    | cons instruction rest ih =>
      rw [List.forall_mem_cons] at hplain
      obtain ⟨hfirst, hrest⟩ := hplain
      obtain ⟨hreader, hbehind⟩ := hpasses.eq
      rw [List.flatMap_cons] at hreader hbehind
      let next : Reader :=
        ⟨reader.offset + instruction.bytes.length,
          rest.flatMap Instruction.bytes ++ behind.rest⟩
      have hnext : reader.next = .ok (instruction, next) := by
        refine next_eq_ok_iff.2 ⟨hfirst, ?_, rfl⟩
        rw [hreader, List.append_assoc]
      refine .cons hnext (ih hrest ⟨rfl, ?_⟩)
      rw [hbehind, List.length_append, Nat.add_assoc]

theorem Ends.not_prefix {fault : Option BytecodeError} (h : behind.Ends fault)
    {instruction : Instruction} (hfits : instruction.Encodable) :
    ¬ instruction.bytes <+: behind.rest := by
  rintro ⟨rest, hrest⟩
  cases h with
  | completed hnil =>
    rw [hnil] at hrest
    cases hrest
  | faulted _ hnext =>
    have := next_bytes hfits behind.offset rest
    rw [hrest, hnext] at this
    cases this

end Reader

open Reader

variable {reader behind : Reader} {program : List Instruction} {bytes : Bytes}

theorem decode.go_of_next {instruction : Instruction} (done : List Instruction)
    (h : reader.next = .ok (instruction, behind)) :
    go done reader = go (instruction :: done) behind := by
  rw [go, if_neg (by simpa using rest_ne_nil_of_next h)]
  split
  · next hread =>
    rw [h] at hread
    cases hread
  · next hread =>
    rw [h] at hread
    cases hread
    rfl

theorem decode.go_of_reads (done : List Instruction) (h : reader.Reads program behind) :
    go done reader = go (program.reverse ++ done) behind := by
  induction h generalizing done with
  | nil reader => rfl
  | cons head tail ih =>
    rw [go_of_next done head, ih, List.reverse_cons, List.append_assoc]
    rfl

theorem decode.go_of_ends {fault : Option BytecodeError} (done : List Instruction)
    (h : behind.Ends fault) : go done behind = fault.elim (.ok done.reverse) .error := by
  cases h with
  | completed hrest =>
    rw [go, if_pos (by simpa using hrest)]
    rfl
  | faulted hrest hnext =>
    rw [go, if_neg (by simpa using hrest)]
    split
    · next hread =>
      rw [hnext] at hread
      cases hread
      rfl
    · next hread =>
      rw [hnext] at hread
      cases hread

theorem decode_of_reads {fault : Option BytecodeError}
    (hreads : (ofBytes bytes).Reads program behind) (hends : behind.Ends fault) :
    decode bytes = fault.elim (.ok program) .error := by
  unfold decode
  rw [decode.go_of_reads [] hreads, decode.go_of_ends _ hends, List.append_nil,
    List.reverse_reverse]

theorem decode_eq_ok_iff :
    decode bytes = .ok program ↔
      (∀ instruction ∈ program, instruction.IsPlain) ∧
        bytes = program.flatMap Instruction.bytes := by
  constructor
  · intro h
    obtain ⟨read, behind, fault, hreads, hends⟩ := exists_reads (ofBytes bytes)
    rw [decode_of_reads hreads hends] at h
    cases hends with
    | faulted => cases h
    | completed hrest =>
      cases h
      obtain ⟨hplain, hbytes, -⟩ := reads_iff.1 hreads
      rw [hrest, List.append_nil] at hbytes
      exact ⟨hplain, hbytes⟩
  · rintro ⟨hplain, hbytes⟩
    have hreads : (ofBytes bytes).Reads program ⟨0 + bytes.length, []⟩ := by
      rw [reads_iff, ← hbytes]
      exact ⟨hplain, (List.append_nil bytes).symm, rfl⟩
    exact decode_of_reads hreads (.completed rfl)

theorem encode_cons (instruction : Instruction) (rest : List Instruction) :
    encode (instruction :: rest) =
      instruction.encode.bind fun front => (encode rest).map (front ++ ·) := by
  unfold encode
  rw [List.mapM_cons]
  cases instruction.encode with
  | error e => rfl
  | ok front =>
    cases rest.mapM Instruction.encode with
    | error e => rfl
    | ok more => rfl

theorem encode_eq_ok_iff :
    encode program = .ok bytes ↔
      (∀ instruction ∈ program, instruction.Encodable) ∧
        bytes = program.flatMap Instruction.bytes := by
  induction program generalizing bytes with
  | nil =>
    constructor
    · intro h
      cases h
      exact ⟨nofun, rfl⟩
    · rintro ⟨-, rfl⟩
      rfl
  | cons instruction rest ih =>
    rw [encode_cons, List.forall_mem_cons, List.flatMap_cons]
    constructor
    · intro h
      cases hfirst : instruction.encode with
      | error e =>
        rw [hfirst] at h
        cases h
      | ok front =>
        cases hmore : encode rest with
        | error e =>
          rw [hfirst, hmore] at h
          cases h
        | ok more =>
          rw [hfirst, hmore] at h
          cases h
          obtain ⟨hfits, rfl⟩ := Instruction.encode_eq_ok_iff.1 hfirst
          obtain ⟨hrest, rfl⟩ := ih.1 hmore
          exact ⟨⟨hfits, hrest⟩, rfl⟩
    · rintro ⟨⟨hfits, hrest⟩, rfl⟩
      rw [Instruction.encode_of_encodable hfits, ih.2 ⟨hrest, rfl⟩]
      rfl

theorem flatMap_bytes_withoutTarget (program : List Instruction) :
    (program.map Instruction.withoutTarget).flatMap Instruction.bytes =
      program.flatMap Instruction.bytes := by
  rw [List.flatMap_map]
  congr 1
  funext instruction
  rw [Instruction.bytes, Instruction.opcode_withoutTarget, Instruction.operands_withoutTarget,
    Instruction.bytes]

theorem decode_flatMap_bytes (h : ∀ instruction ∈ program, instruction.Encodable) :
    decode (program.flatMap Instruction.bytes) =
      .ok (program.map Instruction.withoutTarget) := by
  rw [decode_eq_ok_iff, flatMap_bytes_withoutTarget]
  refine ⟨?_, rfl⟩
  intro instruction hmem
  obtain ⟨written, hwritten, rfl⟩ := List.mem_map.1 hmem
  exact Instruction.isPlain_withoutTarget (h written hwritten)

theorem encode_of_decode (h : decode bytes = .ok program) : encode program = .ok bytes := by
  obtain ⟨hplain, hbytes⟩ := decode_eq_ok_iff.1 h
  exact encode_eq_ok_iff.2 ⟨fun instruction hmem => (hplain instruction hmem).encodable, hbytes⟩

theorem encode_eq_encode_iff {other : List Instruction}
    (h : ∀ instruction ∈ program, instruction.Encodable)
    (hother : ∀ instruction ∈ other, instruction.Encodable) :
    encode program = encode other ↔
      program.map Instruction.withoutTarget = other.map Instruction.withoutTarget := by
  rw [encode_eq_ok_iff.2 ⟨h, rfl⟩, encode_eq_ok_iff.2 ⟨hother, rfl⟩, Except.ok.injEq]
  constructor
  · intro heq
    have hread := decode_flatMap_bytes h
    rw [heq, decode_flatMap_bytes hother] at hread
    exact (Except.ok.inj hread).symm
  · intro heq
    rw [← flatMap_bytes_withoutTarget, heq, flatMap_bytes_withoutTarget]

/--
Writing and reading undo each other up to the targets of loads, which bytecode does not carry. So
the bytes that can be read are the ones that are written for some program.
-/
theorem encode_decode_inverse :
    (∀ program : List Instruction, (∀ instruction ∈ program, instruction.Encodable) →
      ∃ bytes, encode program = .ok bytes ∧
        decode bytes = .ok (program.map Instruction.withoutTarget)) ∧
    (∀ (bytes : Bytes) (program : List Instruction), decode bytes = .ok program →
      (∀ instruction ∈ program, instruction.Encodable ∧
        ∀ key target, instruction = .load key target → target = none) ∧
        encode program = .ok bytes) ∧
    (∀ bytes : Bytes,
      (∃ program, decode bytes = .ok program) ↔ ∃ program, encode program = .ok bytes) ∧
    ∀ program other : List Instruction, (∀ instruction ∈ program, instruction.Encodable) →
      (∀ instruction ∈ other, instruction.Encodable) →
      (encode program = encode other ↔
        program.map Instruction.withoutTarget = other.map Instruction.withoutTarget) := by
  refine ⟨?_, ?_, ?_, ?_⟩
  · intro program h
    exact ⟨_, encode_eq_ok_iff.2 ⟨h, rfl⟩, decode_flatMap_bytes h⟩
  · intro bytes program h
    refine ⟨?_, encode_of_decode h⟩
    intro instruction hmem
    have hplain := (decode_eq_ok_iff.1 h).1 instruction hmem
    refine ⟨hplain.encodable, ?_⟩
    rintro key target rfl
    cases hplain.withoutTarget_eq
    rfl
  · intro bytes
    constructor
    · rintro ⟨program, h⟩
      exact ⟨program, encode_of_decode h⟩
    · rintro ⟨program, h⟩
      obtain ⟨hfits, rfl⟩ := encode_eq_ok_iff.1 h
      exact ⟨_, decode_flatMap_bytes hfits⟩
  · intro program other h hother
    exact encode_eq_encode_iff h hother

/-- Operands that look like opcodes and length fields. -/
theorem encode_decode_inverse_opcodes :
    let program : List Instruction := [.store " " "!\x00\x01\"", .load "" (some "é"), .delete "\""]
    (∀ instruction ∈ program, instruction.Encodable) ∧
      ∃ bytes, encode program = .ok bytes ∧
        decode bytes = .ok [.store " " "!\x00\x01\"", .load "" none, .delete "\""] := by
  intro program
  have h : ∀ instruction ∈ program, instruction.Encodable := by decide
  exact ⟨h, encode_decode_inverse.1 program h⟩

end SealedVault.Bytecode
