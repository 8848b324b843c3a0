import SealedVault.Proofs.Grammar
import SealedVault.Source.Print

/-!
This module contains the writing of programs as source text. Main statements: `means_sourceLine`, so
the line of an instruction is read as that instruction, `normal_of_parse`, so parsing finds no other
instructions than such lines express, and `parse_print_inverse`, which joins the two.
-/

namespace SealedVault

theorem words_intercalate {parts : List (List Char)}
    (h : ∀ part ∈ parts, part ≠ [] ∧ ∀ c ∈ part, isBlank c = false) :
    words (List.intercalate [' '] parts) = parts := by
  induction parts with
  | nil => rfl
  | cons part rest ih =>
    rw [List.forall_mem_cons] at h
    obtain ⟨⟨hne, hpart⟩, hrest⟩ := h
    cases rest with
    | nil =>
      rw [List.intercalate_singleton]
      apply words_of_word hne hpart
    | cons next more =>
      rw [List.intercalate_cons_cons, List.append_assoc, List.singleton_append,
        words_append_blank (by decide), words_of_word hne hpart, ih hrest]
      rfl

theorem Spaced.infix_of_mem {text word : List Char} {found : List (List Char)}
    (h : Spaced text found) (hmem : word ∈ found) :
    word ≠ [] ∧ (∀ c ∈ word, isBlank c = false) ∧ word <:+: text := by
  induction h with
  | blank hgap => cases hmem
  | @word gap first rest more hgap hne hword hrest tail ih =>
    rw [List.mem_cons] at hmem
    cases hmem with
    | inl heq =>
      subst heq
      exact ⟨hne, hword, gap, rest, rfl⟩
    | inr hmem =>
      obtain ⟨hne, hword, hwithin⟩ := ih hmem
      refine ⟨hne, hword, hwithin.trans ?_⟩
      apply (List.suffix_append (gap ++ first) rest).isInfix

namespace Opcode

theorem isNamed_mnemonic (opcode : Opcode) : opcode.IsNamed opcode.mnemonic.toList := by
  rfl

theorem eq_of_isNamed {word : List Char} {opcode other : Opcode} (h : opcode.IsNamed word)
    (hother : other.IsNamed word) : opcode = other := by
  rw [← ofMnemonic?_eq_some_iff] at h hother
  rw [h] at hother
  apply Option.some.inj hother

end Opcode

namespace Source

theorem isWord_mnemonic (opcode : Opcode) : IsWord opcode.mnemonic.toList := by
  have hblank : opcode.mnemonic.toList.all (!isBlank ·) = true := by
    cases opcode
    all_goals rfl
  have hslash : '/' ∉ opcode.mnemonic.toList := by
    cases opcode
    all_goals decide
  refine ⟨?_, by simpa using hblank, ?_⟩
  · cases opcode
    all_goals decide
  · intro hwithin
    apply hslash (hwithin.subset List.mem_cons_self)

/-- A space between two slashes keeps them from being a comment. -/
theorem not_infix_append_space {front rest : List Char} (hfront : ¬ ['/', '/'] <:+: front)
    (hrest : ¬ ['/', '/'] <:+: rest) : ¬ ['/', '/'] <:+: front ++ ' ' :: rest := by
  rw [List.infix_append_iff_ne_nil, List.infix_cons_iff]
  rintro (h | (h | h) | ⟨first, second, -, hne, heq, -, h⟩)
  · exact hfront h
  · exact absurd (List.cons_prefix_cons.1 h).1 (by decide)
  · exact hrest h
  · obtain ⟨c, more, rfl⟩ := List.exists_cons_of_ne_nil hne
    have hslash : c ∈ ['/', '/'] := heq ▸ List.mem_append_right first List.mem_cons_self
    rw [(List.cons_prefix_cons.1 h).1] at hslash
    exact absurd hslash (by decide)

theorem not_infix_intercalate {parts : List (List Char)} (h : ∀ part ∈ parts, IsWord part) :
    ¬ ['/', '/'] <:+: List.intercalate [' '] parts := by
  induction parts with
  | nil => decide
  | cons part rest ih =>
    rw [List.forall_mem_cons] at h
    obtain ⟨⟨-, -, hpart⟩, hrest⟩ := h
    cases rest with
    | nil =>
      rw [List.intercalate_singleton]
      exact hpart
    | cons next more =>
      rw [List.intercalate_cons_cons, List.append_assoc, List.singleton_append]
      apply not_infix_append_space hpart (ih hrest)

theorem not_infix_code (line : List Char) : ¬ ['/', '/'] <:+: code line := by
  obtain ⟨front, h⟩ := exists_uncommented line
  rw [code_of_uncommented h]
  cases h with
  | plain hline => exact hline
  | comment remark hfront =>
    intro hwithin
    apply hfront
    apply hwithin.trans (List.prefix_append front _).isInfix

theorem isWord_of_mem_words {line word : List Char} (h : word ∈ words (code line)) :
    IsWord word := by
  obtain ⟨hne, hword, hwithin⟩ := (spaced_iff.2 rfl : Spaced (code line) _).infix_of_mem h
  refine ⟨hne, hword, ?_⟩
  intro hslashes
  apply not_infix_code line (hslashes.trans hwithin)

/-- Words with one space between neighbours are read as these words. -/
theorem words_code_intercalate {parts : List (List Char)} (h : ∀ part ∈ parts, IsWord part) :
    words (code (List.intercalate [' '] parts)) = parts := by
  rw [code_of_plain (not_infix_intercalate h), words_intercalate]
  intro part hmem
  exact ⟨(h part hmem).1, (h part hmem).2.1⟩

theorem not_mem_intercalate {parts : List (List Char)} (h : ∀ part ∈ parts, IsWord part) {c : Char}
    (hblank : isBlank c = true) (hspace : c ≠ ' ') : c ∉ List.intercalate [' '] parts := by
  induction parts with
  | nil => exact List.not_mem_nil
  | cons part rest ih =>
    rw [List.forall_mem_cons] at h
    obtain ⟨⟨-, hword, -⟩, hrest⟩ := h
    have hpart : c ∉ part := by
      intro hmem
      rw [hword c hmem] at hblank
      cases hblank
    cases rest with
    | nil =>
      rw [List.intercalate_singleton]
      exact hpart
    | cons next more =>
      rw [List.intercalate_cons_cons, List.append_assoc, List.singleton_append, List.mem_append,
        List.mem_cons, not_or, not_or]
      exact ⟨hpart, hspace, ih hrest⟩

section Line

variable {instruction : Instruction} {found : List (List Char)}

/-- Nothing is refused about the words of an instruction that fits bytecode. -/
theorem valid_of_means (h : Means found (some instruction)) (hfits : instruction.Encodable) :
    Valid found := by
  intro number e hoffends
  cases h with
  | store key more hname =>
    have hkey : (String.ofList key).utf8ByteSize ≤ 65535 := hfits _ List.mem_cons_self
    have hvalue : (String.ofList (List.intercalate [' '] more)).utf8ByteSize ≤ 65535 :=
      hfits _ (List.mem_cons_of_mem _ List.mem_cons_self)
    cases hoffends with
    | unknown _ hnone => exact hnone _ hname
    | longKey _ _ hlong => omega
    | longValue _ _ hlong => omega
  | load key more hname =>
    have hkey : (String.ofList key).utf8ByteSize ≤ 65535 := hfits _ List.mem_cons_self
    cases hoffends with
    | unknown _ hnone => exact hnone _ hname
    | longKey _ _ hlong => omega
    | longValue hstore _ _ => cases Opcode.eq_of_isNamed hname hstore
  | delete key more hname =>
    have hkey : (String.ofList key).utf8ByteSize ≤ 65535 := hfits _ List.mem_cons_self
    cases hoffends with
    | unknown _ hnone => exact hnone _ hname
    | longKey _ _ hlong => omega
    | longValue hstore _ _ => cases Opcode.eq_of_isNamed hname hstore

theorem sourceLine_store {key value : String} {parts : List (List Char)}
    (hparts : ∀ part ∈ parts, IsWord part) (hvalue : value.toList = List.intercalate [' '] parts) :
    (Instruction.store key value).sourceLine =
      List.intercalate [' '] (Opcode.store.mnemonic.toList :: key.toList :: parts) := by
  have hline : (Instruction.store key value).sourceLine =
      List.intercalate [' '] ([Opcode.store.mnemonic.toList, key.toList] ++
        if value = "" then [] else [value.toList]) := rfl
  rw [hline]
  cases parts with
  | nil =>
    rw [List.intercalate_nil, String.toList_eq_nil_iff] at hvalue
    rw [if_pos hvalue]
    rfl
  | cons part rest =>
    have hne : value ≠ "" := by
      rintro rfl
      have hwords := words_code_intercalate hparts
      rw [← hvalue] at hwords
      cases hwords
    rw [if_neg hne, hvalue]
    simp only [List.cons_append, List.nil_append, List.intercalate_cons_cons,
      List.intercalate_singleton]

theorem exists_words_of_normal (h : Normal instruction) :
    ∃ found, instruction.sourceLine = List.intercalate [' '] found ∧
      (∀ word ∈ found, IsWord word) ∧ Means found (some instruction) := by
  obtain ⟨-, hkey, hrest⟩ := h
  cases instruction with
  | store key value =>
    obtain ⟨parts, hparts, hvalue⟩ := hrest
    refine ⟨_, sourceLine_store hparts hvalue, ?_, ?_⟩
    · simp only [List.forall_mem_cons]
      exact ⟨isWord_mnemonic .store, hkey, hparts⟩
    · have hmeans := Means.store key.toList parts (Opcode.isNamed_mnemonic .store)
      rw [← hvalue, String.ofList_toList, String.ofList_toList] at hmeans
      exact hmeans
  | load key target =>
    refine ⟨_, rfl, ?_, ?_⟩
    · simp only [Instruction.sourceWords, List.cons_append, List.nil_append, List.forall_mem_cons]
      refine ⟨isWord_mnemonic .load, hkey, ?_⟩
      intro word hmem
      obtain ⟨text, htext, rfl⟩ := Option.map_eq_some_iff.1 (Option.mem_toList.1 hmem)
      apply hrest text htext
    · have hmeans := Means.load key.toList (target.map String.toList).toList
        (Opcode.isNamed_mnemonic .load)
      rw [String.ofList_toList] at hmeans
      cases target with
      | none => exact hmeans
      | some text =>
        dsimp only [Option.map_some, Option.toList_some, List.head?_cons] at hmeans
        rw [String.ofList_toList] at hmeans
        exact hmeans
  | delete key =>
    refine ⟨_, rfl, ?_, ?_⟩
    · simp only [Instruction.sourceWords, List.forall_mem_cons]
      exact ⟨isWord_mnemonic .delete, hkey, nofun⟩
    · have hmeans := Means.delete key.toList [] (Opcode.isNamed_mnemonic .delete)
      rw [String.ofList_toList] at hmeans
      exact hmeans

theorem means_sourceLine (h : Normal instruction) :
    Means (words (code instruction.sourceLine)) (some instruction) := by
  obtain ⟨found, hline, hwords, hmeans⟩ := exists_words_of_normal h
  rw [hline, words_code_intercalate hwords]
  exact hmeans

theorem not_mem_sourceLine (h : Normal instruction) {c : Char} (hblank : isBlank c = true)
    (hspace : c ≠ ' ') : c ∉ instruction.sourceLine := by
  obtain ⟨found, hline, hwords, -⟩ := exists_words_of_normal h
  rw [hline]
  apply not_mem_intercalate hwords hblank hspace

/-- What the words of a line stand for has no other form than the words have. -/
theorem normal_of_means (h : Means found (some instruction)) (hwords : ∀ word ∈ found, IsWord word)
    (hfits : instruction.Encodable) : Normal instruction := by
  refine ⟨hfits, ?_⟩
  cases h with
  | store key more hname =>
    simp only [List.forall_mem_cons] at hwords
    obtain ⟨-, hkey, hmore⟩ := hwords
    simp only [Instruction.key, String.toList_ofList]
    exact ⟨hkey, more, hmore, rfl⟩
  | load key more hname =>
    simp only [List.forall_mem_cons] at hwords
    obtain ⟨-, hkey, hmore⟩ := hwords
    simp only [Instruction.key, String.toList_ofList]
    refine ⟨hkey, ?_⟩
    intro text htext
    obtain ⟨word, hword, rfl⟩ := Option.map_eq_some_iff.1 htext
    rw [String.toList_ofList]
    apply hmore word (List.mem_of_mem_head? hword)
  | delete key more hname =>
    simp only [List.forall_mem_cons] at hwords
    simp only [Instruction.key, String.toList_ofList]
    exact ⟨hwords.2.1, trivial⟩

end Line

section Program

variable {maxLines : Nat} {source : String} {program : List Instruction}

theorem lined_print (h : ∀ instruction ∈ program, Normal instruction) :
    Lined (print program).toList (program.map Instruction.sourceLine) := by
  unfold print
  rw [String.toList_ofList]
  induction program with
  | nil => exact .nil
  | cons instruction rest ih =>
    rw [List.forall_mem_cons] at h
    obtain ⟨hfirst, hrest⟩ := h
    rw [List.flatMap_cons, List.append_assoc, List.map_cons]
    apply Lined.feed
    · apply not_mem_sourceLine hfirst (by decide) (by decide)
    · intro hreturn
      apply not_mem_sourceLine hfirst (c := '\r') (by decide) (by decide)
      apply List.mem_of_getLast? hreturn
    · apply ih hrest

theorem parse_of_lined (h : ∀ instruction ∈ program, Normal instruction)
    (hlimit : program.length ≤ maxLines)
    (hlined : Lined source.toList (program.map Instruction.sourceLine)) :
    parse maxLines source = .ok program := by
  have htokens : tokensOf (lines source.toList) =
      program.map fun instruction => words (code instruction.sourceLine) := by
    unfold tokensOf
    rw [words_code_lines hlined, List.map_map]
    rfl
  rw [parse_eq_ok_iff, htokens, List.length_map]
  refine ⟨hlimit, ?_, program.map some, ?_, ?_⟩
  · intro found hmem
    obtain ⟨instruction, hinstruction, rfl⟩ := List.mem_map.1 hmem
    have hnormal := h instruction hinstruction
    apply valid_of_means (means_sourceLine hnormal) hnormal.1
  · rw [List.forall₂_map_left_iff, List.forall₂_map_right_iff, List.forall₂_same]
    intro instruction hmem
    apply means_sourceLine (h instruction hmem)
  · simp

theorem parse_print (h : ∀ instruction ∈ program, Normal instruction)
    (hlimit : program.length ≤ maxLines) : parse maxLines (print program) = .ok program :=
  parse_of_lined h hlimit (lined_print h)

theorem normal_of_parse (h : parse maxLines source = .ok program) {instruction : Instruction}
    (hmem : instruction ∈ program) : Normal instruction := by
  have hfits := encodable_of_parse h hmem
  obtain ⟨-, -, reads, hmeans, rfl⟩ := parse_eq_ok_iff.1 h
  simp only [List.mem_filterMap, id_eq, exists_eq_right] at hmem
  obtain ⟨i, hi, hread⟩ := List.mem_iff_getElem.1 hmem
  have hlength := hmeans.length_eq
  have hline := hmeans.get (hlength ▸ hi) hi
  rw [List.get_eq_getElem, List.get_eq_getElem, hread] at hline
  refine normal_of_means hline ?_ hfits
  intro word hword
  simp only [tokensOf, List.getElem_map] at hword
  apply isWord_of_mem_words hword

theorem length_le_of_parse (h : parse maxLines source = .ok program) :
    program.length ≤ (lines source.toList).length := by
  obtain ⟨-, -, reads, hmeans, rfl⟩ := parse_eq_ok_iff.1 h
  have hlength := hmeans.length_eq
  rw [tokensOf, List.length_map] at hlength
  rw [hlength]
  apply List.length_filterMap_le

end Program

/--
Printing and parsing undo each other. A program of normal instructions is what is read from its
lines, whether line feeds end them or carriage returns and line feeds, and whether or not the last
line is ended. All programs that are read are of this kind, with no more instructions than lines.
-/
theorem parse_print_inverse (maxLines : Nat) :
    (∀ program : List Instruction, (∀ instruction ∈ program, Normal instruction) →
      program.length ≤ maxLines →
      parse maxLines (print program) = .ok program ∧
        ∀ source : String, Lined source.toList (program.map Instruction.sourceLine) →
          parse maxLines source = .ok program) ∧
    ∀ (source : String) (program : List Instruction), parse maxLines source = .ok program →
      (∀ instruction ∈ program, Normal instruction) ∧
        program.length ≤ (lines source.toList).length ∧
        parse maxLines (print program) = .ok program := by
  constructor
  · intro program h hlimit
    refine ⟨parse_print h hlimit, ?_⟩
    intro source hlined
    apply parse_of_lined h hlimit hlined
  · intro source program h
    have hnormal : ∀ instruction ∈ program, Normal instruction := by
      intro instruction hmem
      apply normal_of_parse h hmem
    have hlines := length_le_of_parse h
    have hlimit := (parse_eq_ok_iff.1 h).1
    rw [tokensOf, List.length_map] at hlimit
    exact ⟨hnormal, hlines, parse_print hnormal (Nat.le_trans hlines hlimit)⟩

/-- Slashes at the ends of neighbouring words, and a last line that no line feed ends. -/
theorem parse_print_inverse_slashes :
    let program : List Instruction := [.store "a/" "/ b/ /c", .load "/" (some "é/"), .delete "k"]
    let source := "STOREFAV a/ / b/ /c\r\nLOADFAV / é/\nDELFAV k"
    (∀ instruction ∈ program, Normal instruction) ∧ program.length ≤ 3 ∧
      Lined source.toList (program.map Instruction.sourceLine) ∧
      parse 3 (print program) = .ok program ∧ parse 3 source = .ok program := by
  intro program source
  have hsource : parse 3 "STOREFAV a/ / b/ /c\r\nLOADFAV / é/\nDELFAV k" =
      .ok [.store "a/" "/ b/ /c", .load "/" (some "é/"), .delete "k"] := rfl
  obtain ⟨hnormal, -, hprint⟩ := (parse_print_inverse 3).2 source program hsource
  have hlined : Lined source.toList (program.map Instruction.sourceLine) := by
    have hchars : source.toList = "STOREFAV a/ / b/ /c".toList ++ '\r' :: '\n' ::
        ("LOADFAV / é/".toList ++ '\n' :: "DELFAV k".toList) := by decide
    have htexts : program.map Instruction.sourceLine =
        ["STOREFAV a/ / b/ /c".toList, "LOADFAV / é/".toList, "DELFAV k".toList] := by decide
    rw [hchars, htexts]
    apply Lined.returnFeed (by decide)
    apply Lined.feed (by decide) (by decide)
    apply Lined.last (by decide) (by decide)
  have hlimit : program.length ≤ 3 := Nat.le_refl 3
  obtain ⟨-, hlayout⟩ := (parse_print_inverse 3).1 program hnormal hlimit
  exact ⟨hnormal, hlimit, hlined, hprint, hlayout source hlined⟩

end Source

end SealedVault
