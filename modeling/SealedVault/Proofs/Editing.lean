import Mathlib.Logic.Relation
import SealedVault.Proofs.Joining
import SealedVault.Proofs.Printing

/-!
This module contains changes to the layout of source text. Main statements: `sameReading_of_edit`,
so a change of line ends, blanks, comments or letter case leaves what is read, `exists_inserted`,
so a line that is put in stands between the lines of the text, and `parse_layout`, which tells what
parsing makes of both.
-/

namespace SealedVault

/-- A line starts behind the text. -/
def StartsLine (front : List Char) : Prop :=
  ∀ c ∈ front.getLast?, c = '\n'

/-- A line of a text, between what is in front of it and its line feed, if it has any. -/
structure IsLine (front line back : List Char) : Prop where
  starts : StartsLine front
  unbroken : '\n' ∉ line
  ends : back = [] ∨ ∃ rest, back = '\n' :: rest
  present : line ≠ [] ∨ back ≠ []

theorem StartsLine.eq_nil_or_append {front : List Char} (h : StartsLine front) :
    front = [] ∨ ∃ text, front = text ++ ['\n'] := by
  cases hlast : front.getLast? with
  | none => exact .inl (List.getLast?_eq_none_iff.1 hlast)
  | some c =>
    cases h c hlast
    exact .inr (List.getLast?_eq_some_iff.1 hlast)

theorem lines_append_of_startsLine {front : List Char} (h : StartsLine front) (rest : List Char) :
    lines (front ++ rest) = lines front ++ lines rest := by
  obtain rfl | ⟨text, rfl⟩ := h.eq_nil_or_append
  · rfl
  · have hnone : lines [] = [] := rfl
    have hfront := lines_append_cons_feed text []
    rw [hnone, List.append_nil] at hfront
    rw [List.append_assoc, List.singleton_append, lines_append_cons_feed, hfront]

theorem length_lines_of_startsLine {front : List Char} (h : StartsLine front) :
    (lines front).length = front.count '\n' := by
  obtain rfl | ⟨text, rfl⟩ := h.eq_nil_or_append
  · rfl
  · rw [length_lines_append_feed, List.count_append]
    rfl

theorem exists_startsLine_append (text : List Char) :
    ∃ front line, text = front ++ line ∧ StartsLine front ∧ '\n' ∉ line := by
  induction text with
  | nil => exact ⟨[], [], rfl, nofun, nofun⟩
  | cons c rest ih =>
    obtain ⟨front, line, rfl, hfront, hline⟩ := ih
    cases front with
    | nil =>
      by_cases hc : c = '\n'
      · refine ⟨[c], line, rfl, ?_, hline⟩
        rintro d ⟨⟩
        exact hc
      · refine ⟨[], c :: line, rfl, nofun, ?_⟩
        rw [List.mem_cons, not_or]
        exact ⟨Ne.symm hc, hline⟩
    | cons d front => exact ⟨c :: d :: front, line, rfl, hfront, hline⟩

theorem exists_append_feed (text : List Char) :
    ∃ line back, text = line ++ back ∧ '\n' ∉ line ∧ (back = [] ∨ ∃ rest, back = '\n' :: rest) := by
  by_cases hfeed : '\n' ∈ text
  · obtain ⟨line, rest, htext, hline⟩ := List.eq_append_cons_of_mem hfeed
    exact ⟨line, _, htext, hline, .inr ⟨rest, rfl⟩⟩
  · exact ⟨text, [], (List.append_nil text).symm, hfeed, .inl rfl⟩

/-- Whatever a line is replaced by, the other lines stay. -/
theorem exists_lines_eq {front line back : List Char} (h : IsLine front line back) :
    ∃ before after, before.length = front.count '\n' ∧
      ∀ {other : List Char}, IsLine front other back →
        lines (front ++ other ++ back) = before ++ other :: after := by
  obtain ⟨hstarts, -, hends, -⟩ := h
  obtain rfl | ⟨rest, rfl⟩ := hends
  · refine ⟨lines front, [], length_lines_of_startsLine hstarts, ?_⟩
    intro other hother
    have hne : other ≠ [] := hother.present.resolve_right (· rfl)
    rw [List.append_nil, lines_append_of_startsLine hstarts, lines_of_not_mem hne hother.unbroken]
  · refine ⟨lines front, lines rest, length_lines_of_startsLine hstarts, ?_⟩
    intro other hother
    rw [List.append_assoc, lines_append_of_startsLine hstarts, lines_append_feed hother.unbroken]

namespace Opcode

theorem toUpper_of_isBlank {c : Char} (hc : isBlank c = true) : c.toUpper = c := by
  unfold Char.toUpper
  split
  · next h =>
    have hlow : 97 ≤ c.toNat := h.1
    have hhigh : c.toNat ≤ 122 := h.2
    simp [isBlank, blankRanges] at hc
    omega
  · rfl

theorem not_mem_of_isNamed {word : List Char} {opcode : Opcode} (h : opcode.IsNamed word)
    {c : Char} (hupper : c.toUpper = c) (hc : c ∉ opcode.mnemonic.toList) : c ∉ word := by
  intro hmem
  apply hc
  rw [← hupper, ← map_toUpper_mnemonic, ← h]
  apply List.mem_map_of_mem hmem

/-- Whatever its capitals, the name of an operation is a word. -/
theorem isWord_of_isNamed {word : List Char} {opcode : Opcode} (h : opcode.IsNamed word) :
    word ≠ [] ∧ (∀ c ∈ word, isBlank c = false) ∧ '/' ∉ word := by
  obtain ⟨hne, hblank, -⟩ := Source.isWord_mnemonic opcode
  refine ⟨?_, ?_, ?_⟩
  · rintro rfl
    apply hne
    rw [← map_toUpper_mnemonic, ← h]
    rfl
  · intro c hmem
    rw [← Bool.not_eq_true]
    intro hc
    apply not_mem_of_isNamed h (toUpper_of_isBlank hc) _ hmem
    intro hname
    rw [hblank c hname] at hc
    cases hc
  · apply not_mem_of_isNamed h (by decide)
    cases opcode
    all_goals decide

end Opcode

namespace Source

/-- The characters are blank, and none of them ends a line. -/
def IsGap (gap : List Char) : Prop :=
  ∀ c ∈ gap, isBlank c = true ∧ c ≠ '\n'

/-- A word in front of the text ends there: at a blank, at a comment, or with the text. -/
def EndsWord (rest : List Char) : Prop :=
  ['/', '/'] <+: rest ∨ ∀ c ∈ rest.head?, isBlank c = true

/-- The text with a carriage return in front of every line feed. -/
def withReturns (text : List Char) : List Char :=
  text.flatMap fun c => if c = '\n' then ['\r', '\n'] else [c]

/-- A change of the layout of a source text. -/
inductive LayoutEdit : List Char → List Char → Prop where
  | returns (text : List Char) : LayoutEdit text (withReturns text)
  /-- Other blanks take the place of a blank, which does not end a line. -/
  | blank {c : Char} {gap : List Char} (front back : List Char) (hc : isBlank c = true)
    (hfeed : c ≠ '\n') (hne : gap ≠ []) (hgap : IsGap gap) :
    LayoutEdit (front ++ c :: back) (front ++ gap ++ back)
  /-- A line gets a space and a comment, in front of the carriage return that belongs to its end. -/
  | comment {front line ending remark back : List Char} (hline : IsLine front (line ++ ending) back)
    (hending : ending = [] ∨ ending = ['\r']) (hremark : '\n' ∉ remark) :
    LayoutEdit (front ++ (line ++ ending) ++ back)
      (front ++ (line ++ [' ', '/', '/'] ++ remark ++ ending) ++ back)
  /-- The name of an operation is written with other capitals. -/
  | mnemonic {front gap word other rest back : List Char} {opcode : Opcode}
    (hline : IsLine front (gap ++ word ++ rest) back) (hgap : IsGap gap)
    (hword : opcode.IsNamed word) (hother : opcode.IsNamed other) (hrest : EndsWord rest) :
    LayoutEdit (front ++ (gap ++ word ++ rest) ++ back) (front ++ (gap ++ other ++ rest) ++ back)

/-- A line without words: blanks, and then a comment or nothing. -/
inductive Idle : List Char → Prop where
  | blank {gap : List Char} (hgap : IsGap gap) : Idle gap
  | comment {gap remark : List Char} (hgap : IsGap gap) (hremark : '\n' ∉ remark) :
    Idle (gap ++ '/' :: '/' :: remark)

/-- A line without words is put into a text and gets a number there. -/
inductive Inserted : Nat → List Char → List Char → Prop where
  /-- The line stands in front of another one, or ends the text with a line feed of its own. -/
  | before {front line back : List Char} (hfront : StartsLine front) (hline : Idle line) :
    Inserted (front.count '\n' + 1) (front ++ back) (front ++ line ++ '\n' :: back)
  /-- The line stands behind the last line feed and has none of its own. -/
  | last {front line : List Char} (hfront : StartsLine front) (hline : Idle line)
    (hne : line ≠ []) : Inserted (front.count '\n' + 1) front (front ++ line)
  /-- The line stands behind a last line that had no line feed. -/
  | behind {front last feed line ending : List Char} (hlast : IsLine front last [])
    (hfeed : feed = ['\n'] ∨ feed = ['\r', '\n']) (hline : Idle line)
    (hending : ending = [] ∧ line ≠ [] ∨ ending = ['\n']) :
    Inserted (front.count '\n' + 2) (front ++ last) (front ++ last ++ feed ++ line ++ ending)

/-- As many lines, and the same is read from them. -/
structure SameReading (texts others : List (List Char)) : Prop where
  length_eq : texts.length = others.length
  readLines_eq : ∀ line, readLines line texts = readLines line others

section SameReading

variable {texts others : List (List Char)}

theorem SameReading.refl (texts : List (List Char)) : SameReading texts texts :=
  ⟨rfl, fun _ => rfl⟩

theorem SameReading.trans {more : List (List Char)} (h : SameReading texts others)
    (hmore : SameReading others more) : SameReading texts more :=
  ⟨h.length_eq.trans hmore.length_eq,
    fun line => (h.readLines_eq line).trans (hmore.readLines_eq line)⟩

theorem SameReading.cons {text other : List Char}
    (hfirst : ∀ line, parseLine line text = parseLine line other) (h : SameReading texts others) :
    SameReading (text :: texts) (other :: others) where
  length_eq := by rw [List.length_cons, List.length_cons, h.length_eq]
  readLines_eq := by
    intro line
    rw [readLines_cons, readLines_cons, hfirst, h.readLines_eq]

theorem sameReading_replace {text other : List Char}
    (h : ∀ line, parseLine line text = parseLine line other) (before after : List (List Char)) :
    SameReading (before ++ text :: after) (before ++ other :: after) := by
  induction before with
  | nil => exact .cons h (.refl after)
  | cons first before ih => exact .cons (fun _ => rfl) ih

theorem parseLine_congr {text other : List Char}
    (h : words (code text) = words (code other)) (line : Nat) :
    parseLine line text = parseLine line other := by
  unfold parseLine
  rw [h]

theorem parse_congr {source other : String}
    (h : SameReading (lines source.toList) (lines other.toList)) (maxLines : Nat) :
    parse maxLines source = parse maxLines other := by
  rw [parse_eq, parse_eq, h.length_eq]
  split
  · rfl
  · exact h.readLines_eq 1

end SameReading

theorem IsGap.isBlank_eq {gap : List Char} (h : IsGap gap) : ∀ c ∈ gap, isBlank c = true :=
  fun c hc => (h c hc).1

theorem isGap_singleton {c : Char} (hc : isBlank c = true) (hfeed : c ≠ '\n') : IsGap [c] := by
  intro d hd
  rw [List.mem_singleton.1 hd]
  exact ⟨hc, hfeed⟩

theorem IsGap.not_mem {gap : List Char} (h : IsGap gap) : '\n' ∉ gap :=
  fun hmem => (h _ hmem).2 rfl

theorem words_code_gap_append {gap : List Char} (hgap : IsGap gap) (rest : List Char) :
    words (code (gap ++ rest)) = words (code rest) := by
  have hslash : '/' ∉ gap := fun hmem => ne_slash_of_isBlank (hgap.isBlank_eq _ hmem) rfl
  rw [code_append_of_not_mem hslash, words_blank_append hgap.isBlank_eq]

/-- Any blanks part the words of a line alike. -/
theorem words_code_append_gap {gap : List Char} (hne : gap ≠ []) (hgap : IsGap gap)
    (front rest : List Char) :
    words (code (front ++ gap ++ rest)) =
      words (code front) ++ if ['/', '/'] <:+: front then [] else words (code rest) := by
  obtain ⟨c, more, rfl⟩ := List.exists_cons_of_ne_nil hne
  have hmore : IsGap more := fun d hd => hgap d (List.mem_cons_of_mem c hd)
  rw [List.append_assoc, List.cons_append,
    words_code_append_cons (hgap.isBlank_eq c List.mem_cons_self), words_code_gap_append hmore]

theorem words_code_append_comment (line remark : List Char) :
    words (code (line ++ [' ', '/', '/'] ++ remark)) = words (code line) := by
  have hnone : words (code ('/' :: '/' :: remark)) = [] := by
    rw [code_cons_cons, if_pos ⟨rfl, rfl⟩]
    rfl
  rw [List.append_assoc, List.cons_append, words_code_append_cons (by decide), List.cons_append,
    List.cons_append, List.nil_append, hnone, ite_self, List.append_nil]

theorem words_code_of_idle {line : List Char} (h : Idle line) : words (code line) = [] := by
  cases h with
  | @blank gap hgap =>
    have := words_code_gap_append hgap []
    rw [List.append_nil] at this
    rw [this]
    rfl
  | @comment gap remark hgap hremark =>
    rw [words_code_gap_append hgap, code_cons_cons, if_pos ⟨rfl, rfl⟩]
    rfl

theorem not_mem_of_idle {line : List Char} (h : Idle line) : '\n' ∉ line := by
  cases h with
  | blank hgap => exact hgap.not_mem
  | comment hgap hremark =>
    simp only [List.mem_append, List.mem_cons, not_or]
    exact ⟨hgap.not_mem, by decide, by decide, hremark⟩

theorem words_code_of_isNamed {gap word rest : List Char} {opcode : Opcode} (hgap : IsGap gap)
    (hword : opcode.IsNamed word) (hrest : EndsWord rest) :
    words (code (gap ++ word ++ rest)) = word :: words (code rest) := by
  obtain ⟨hne, hblank, hslash⟩ := Opcode.isWord_of_isNamed hword
  have hhead : ∀ c ∈ (code rest).head?, isBlank c = true := by
    cases hrest with
    | inl hcomment =>
      obtain ⟨remark, rfl⟩ := hcomment
      rw [List.cons_append, List.cons_append, code_cons_cons, if_pos ⟨rfl, rfl⟩]
      nofun
    | inr hhead =>
      cases rest with
      | nil => nofun
      | cons c rest =>
        rw [code_cons_of_ne (ne_slash_of_isBlank (hhead c rfl))]
        exact hhead
  rw [List.append_assoc, words_code_gap_append hgap, code_append_of_not_mem hslash,
    words_word_append hne hblank hhead]

section Edit

variable {source edited : List Char}

theorem sameReading_of_isLine {front line other back : List Char} (hline : IsLine front line back)
    (hother : IsLine front other back) (h : ∀ n, parseLine n line = parseLine n other) :
    SameReading (lines (front ++ line ++ back)) (lines (front ++ other ++ back)) := by
  obtain ⟨before, after, -, hlines⟩ := exists_lines_eq hline
  rw [hlines hline, hlines hother]
  apply sameReading_replace h

theorem withReturns_of_not_mem {line : List Char} (h : '\n' ∉ line) : withReturns line = line := by
  unfold withReturns
  induction line with
  | nil => rfl
  | cons c rest ih =>
    rw [List.mem_cons, not_or] at h
    rw [List.flatMap_cons, if_neg (Ne.symm h.1), ih h.2, List.singleton_append]

theorem sameReading_withReturns_cons {line rest : List Char} (hline : '\n' ∉ line)
    (h : SameReading (lines rest) (lines (withReturns rest))) :
    SameReading (lines (line ++ '\n' :: rest)) (lines (withReturns (line ++ '\n' :: rest))) := by
  have hreturn : '\n' ∉ line ++ ['\r'] := by simpa using hline
  have htext : withReturns (line ++ '\n' :: rest) =
      (line ++ ['\r']) ++ '\n' :: withReturns rest := by
    have := withReturns_of_not_mem hline
    unfold withReturns at this ⊢
    rw [List.flatMap_append, this, List.flatMap_cons, if_pos rfl, List.append_assoc]
    rfl
  rw [htext, lines_append_feed hline, lines_append_feed hreturn]
  apply SameReading.cons _ h
  apply parseLine_congr
  rw [words_code_append_return]

theorem sameReading_withReturns (text : List Char) :
    SameReading (lines text) (lines (withReturns text)) := by
  obtain ⟨texts, h⟩ := exists_lined text
  induction h with
  | nil => exact .refl _
  | last hne hline =>
    rw [withReturns_of_not_mem hline]
    exact .refl _
  | feed hline hreturn tail ih => exact sameReading_withReturns_cons hline ih
  | @returnFeed line rest more hline tail ih =>
    -- The line feed has a carriage return already, and gets another one
    have hraw : '\n' ∉ line ++ ['\r'] := by simpa using hline
    rw [List.append_cons]
    exact sameReading_withReturns_cons hraw ih

theorem sameReading_of_edit (h : LayoutEdit source edited) :
    SameReading (lines source) (lines edited) := by
  cases h with
  | returns text => exact sameReading_withReturns source
  | @blank c gap front back hc hfeed hne hgap =>
    -- The blank may stand anywhere in its line, which is `head`, the blank and `tail`
    obtain ⟨before, head, rfl, hbefore, hhead⟩ := exists_startsLine_append front
    obtain ⟨tail, after, rfl, htail, hafter⟩ := exists_append_feed back
    have hisLine {middle : List Char} (hmiddle : middle ≠ []) (hgap : IsGap middle) :
        IsLine before (head ++ middle ++ tail) after := by
      refine ⟨hbefore, ?_, hafter, .inl ?_⟩
      · simp only [List.mem_append, not_or]
        exact ⟨⟨hhead, hgap.not_mem⟩, htail⟩
      · simp [hmiddle]
    have hone := isGap_singleton hc hfeed
    have hreading := sameReading_of_isLine (hisLine (List.cons_ne_nil c []) hone) (hisLine hne hgap)
      (parseLine_congr (by
        rw [words_code_append_gap (List.cons_ne_nil c []) hone, words_code_append_gap hne hgap]))
    simpa only [List.append_assoc, List.cons_append, List.nil_append] using hreading
  | @comment front line ending remark back hline hending hremark =>
    have hunbroken := hline.unbroken
    rw [List.mem_append, not_or] at hunbroken
    have hother : IsLine front (line ++ [' ', '/', '/'] ++ remark ++ ending) back := by
      refine ⟨hline.starts, ?_, hline.ends, .inl ?_⟩
      · simp only [List.mem_append, not_or]
        exact ⟨⟨⟨hunbroken.1, by decide⟩, hremark⟩, hunbroken.2⟩
      · simp
    apply sameReading_of_isLine hline hother
    apply parseLine_congr
    rw [List.append_assoc _ remark, words_code_append_comment]
    obtain rfl | rfl := hending
    · rw [List.append_nil]
    · rw [words_code_append_return]
  | @mnemonic front gap word other rest back opcode hline hgap hword hother hrest =>
    have hunbroken := hline.unbroken
    simp only [List.mem_append, not_or] at hunbroken
    obtain ⟨hne, hblank, -⟩ := Opcode.isWord_of_isNamed hother
    have hother' : IsLine front (gap ++ other ++ rest) back := by
      refine ⟨hline.starts, ?_, hline.ends, .inl (by simp [hne])⟩
      simp only [List.mem_append, not_or]
      refine ⟨⟨hunbroken.1.1, ?_⟩, hunbroken.2⟩
      intro hmem
      cases hblank _ hmem
    apply sameReading_of_isLine hline hother'
    intro n
    unfold parseLine
    rw [words_code_of_isNamed hgap hword hrest, words_code_of_isNamed hgap hother hrest]
    simp only [Opcode.ofMnemonic?_eq_some_iff.2 hword, Opcode.ofMnemonic?_eq_some_iff.2 hother]

theorem sameReading_of_edits (h : Relation.ReflTransGen LayoutEdit source edited) :
    SameReading (lines source) (lines edited) := by
  induction h with
  | refl => exact .refl _
  | tail _ hedit ih => exact ih.trans (sameReading_of_edit hedit)

end Edit

section Insert

variable {number : Nat} {source edited : List Char}

theorem exists_inserted (h : Inserted number source edited) :
    ∃ before line after, number = before.length + 1 ∧ words (code line) = [] ∧
      SameReading (lines source) (before ++ after) ∧
      SameReading (lines edited) (before ++ line :: after) := by
  cases h with
  | @before front line back hfront hline =>
    refine ⟨lines front, line, lines back, ?_, words_code_of_idle hline, ?_, ?_⟩
    · rw [length_lines_of_startsLine hfront]
    · rw [lines_append_of_startsLine hfront]
      exact .refl _
    · rw [List.append_assoc, lines_append_of_startsLine hfront,
        lines_append_feed (not_mem_of_idle hline)]
      exact .refl _
  | @last _ line hfront hline hne =>
    refine ⟨lines source, line, [], ?_, words_code_of_idle hline, ?_, ?_⟩
    · rw [length_lines_of_startsLine hfront]
    · rw [List.append_nil]
      exact .refl _
    · rw [lines_append_of_startsLine hfront, lines_of_not_mem hne (not_mem_of_idle hline)]
      exact .refl _
  | @behind front last feed line ending hlast hfeed hline hending =>
    obtain ⟨hstarts, hunbroken, -, hpresent⟩ := hlast
    have hne : last ≠ [] := hpresent.resolve_right (· rfl)
    have hlines : lines (line ++ ending) = [line] := by
      obtain ⟨rfl, hline'⟩ | rfl := hending
      · rw [List.append_nil, lines_of_not_mem hline' (not_mem_of_idle hline)]
      · rw [lines_append_feed (not_mem_of_idle hline)]
        rfl
    refine ⟨lines front ++ [last], line, [], ?_, words_code_of_idle hline, ?_, ?_⟩
    · rw [List.length_append, length_lines_of_startsLine hstarts]
      rfl
    · rw [lines_append_of_startsLine hstarts, lines_of_not_mem hne hunbroken, List.append_nil]
      exact .refl _
    · rw [List.append_assoc, List.append_assoc, List.append_assoc,
        lines_append_of_startsLine hstarts, List.append_assoc, List.singleton_append]
      obtain rfl | rfl := hfeed
      · rw [List.singleton_append, lines_append_feed hunbroken, hlines]
        exact .refl _
      · have hreturn : '\n' ∉ last ++ ['\r'] := by simpa using hunbroken
        rw [List.cons_append, List.singleton_append, List.append_cons, lines_append_feed hreturn,
          hlines]
        apply sameReading_replace
        apply parseLine_congr
        rw [words_code_append_return]

theorem readLines_inserted {line : List Char} (h : words (code line) = [])
    (before after : List (List Char)) :
    readLines 1 (before ++ line :: after) =
      (readLines 1 (before ++ after)).mapError
        (·.mapLine fun n => if n < before.length + 1 then n else n + 1) := by
  rw [readLines_append, readLines_append, readLines_cons_of_skipped h]
  cases hbefore : readLines 1 before with
  | error e =>
    obtain ⟨n, hn, -, hlast⟩ := line?_of_readLines hbefore
    have hsame : e.mapLine (fun n => if n < before.length + 1 then n else n + 1) = e := by
      apply SourceError.mapLine_eq_self
      intro m hm
      rw [hn] at hm
      cases hm
      rw [if_pos (by omega)]
    show Except.error e = Except.error (e.mapLine _)
    rw [hsame]
  | ok program =>
    cases hafter : readLines (1 + before.length) after with
    | error e =>
      obtain ⟨n, hn, hfirst, -⟩ := line?_of_readLines hafter
      have hmoved : e.mapLine (fun n => if n < before.length + 1 then n else n + 1) =
          e.mapLine (· + 1) := by
        apply SourceError.mapLine_congr
        intro m hm
        rw [hn] at hm
        cases hm
        rw [if_neg (by omega)]
      show Except.error (e.mapLine _) = Except.error (e.mapLine _)
      rw [hmoved]
    | ok more => rfl

end Insert

/--
Parsing does not depend on layout: not on the kind of line ends, on the blanks between words, on
comments or on the capitals of mnemonics. A line without words leaves what is read, and raises the
number of every line from there on.
-/
theorem parse_layout (maxLines : Nat) (source edited : String) :
    (Relation.ReflTransGen LayoutEdit source.toList edited.toList →
      parse maxLines edited = parse maxLines source) ∧
    ∀ number, Inserted number source.toList edited.toList →
      (lines edited.toList).length = (lines source.toList).length + 1 ∧
      ((lines edited.toList).length ≤ maxLines →
        (∀ program, parse maxLines source = .ok program → parse maxLines edited = .ok program) ∧
        ∀ e, parse maxLines source = .error e →
          (∃ line, e.line? = some line) ∧
          parse maxLines edited =
            .error (e.mapLine fun line => if line < number then line else line + 1)) := by
  constructor
  · intro h
    rw [parse_congr (sameReading_of_edits h)]
  · intro number h
    obtain ⟨before, line, after, rfl, hline, hsource, hedited⟩ := exists_inserted h
    have hlength : (lines edited.toList).length = (lines source.toList).length + 1 := by
      rw [hsource.length_eq, hedited.length_eq, List.length_append, List.length_append,
        List.length_cons, Nat.add_assoc]
    refine ⟨hlength, ?_⟩
    intro hlimit
    have hlimit' : (lines source.toList).length ≤ maxLines := by omega
    have hparse := readLines_inserted hline before after
    rw [← hsource.readLines_eq, ← hedited.readLines_eq, ← parse_of_le hlimit,
      ← parse_of_le hlimit'] at hparse
    constructor
    · intro program hread
      rw [hparse, hread]
      rfl
    · intro e hread
      obtain ⟨number, hnumber, -⟩ := line?_of_parse hlimit' hread
      refine ⟨⟨number, hnumber⟩, ?_⟩
      rw [hparse, hread]
      rfl

/-- One edit of each kind, and a line in front of an error. -/
theorem parse_layout_edits :
    Relation.ReflTransGen LayoutEdit "DelFav \n".toList "DELFAV\t //\r\n".toList ∧
      Inserted 1 "DelFav \n".toList "\t//\nDelFav \n".toList ∧
      parse 2 "DelFav \n" = .error (.missingKey 1 .delete) ∧
      parse 2 "DELFAV\t //\r\n" = .error (.missingKey 1 .delete) ∧
      parse 2 "\t//\nDelFav \n" = .error (.missingKey 2 .delete) := by
  have htab : IsGap ['\t'] := isGap_singleton (by decide) (by decide)
  have hmnemonic : LayoutEdit ['D', 'e', 'l', 'F', 'a', 'v', ' ', '\n']
      ['D', 'E', 'L', 'F', 'A', 'V', ' ', '\n'] :=
    @LayoutEdit.mnemonic [] [] ['D', 'e', 'l', 'F', 'a', 'v'] ['D', 'E', 'L', 'F', 'A', 'V'] [' ']
      ['\n'] .delete ⟨nofun, by simp, .inr ⟨_, rfl⟩, .inl nofun⟩ nofun rfl rfl
      (.inr (by rintro c ⟨⟩; rfl))
  have hblank : LayoutEdit ['D', 'E', 'L', 'F', 'A', 'V', ' ', '\n']
      ['D', 'E', 'L', 'F', 'A', 'V', '\t', '\n'] :=
    .blank ['D', 'E', 'L', 'F', 'A', 'V'] ['\n'] (by decide) (by decide)
      (List.cons_ne_nil _ _) htab
  have hcomment : LayoutEdit ['D', 'E', 'L', 'F', 'A', 'V', '\t', '\n']
      ['D', 'E', 'L', 'F', 'A', 'V', '\t', ' ', '/', '/', '\n'] :=
    @LayoutEdit.comment [] ['D', 'E', 'L', 'F', 'A', 'V', '\t'] [] [] ['\n']
      ⟨nofun, by simp, .inr ⟨_, rfl⟩, .inl nofun⟩ (.inl rfl) nofun
  have hedits : Relation.ReflTransGen LayoutEdit "DelFav \n".toList "DELFAV\t //\r\n".toList :=
    (((Relation.ReflTransGen.single hmnemonic).tail hblank).tail hcomment).tail (.returns _)
  have hinserted : Inserted 1 "DelFav \n".toList "\t//\nDelFav \n".toList :=
    @Inserted.before [] ['\t', '/', '/'] "DelFav \n".toList nofun
      (@Idle.comment ['\t'] [] htab nofun)
  have hsource : parse 2 "DelFav \n" = .error (.missingKey 1 .delete) := rfl
  have hsame := (parse_layout 2 _ _).1 hedits
  rw [hsource] at hsame
  obtain ⟨-, hread⟩ := (parse_layout 2 _ _).2 1 hinserted
  obtain ⟨-, hmoved⟩ := (hread (by decide)).2 _ hsource
  exact ⟨hedits, hinserted, hsource, hsame, hmoved⟩

end Source

end SealedVault
