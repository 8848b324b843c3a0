import Mathlib.Data.List.Forall2
import Mathlib.Data.List.Infix
import SealedVault.Source.Parse

/-!
This module contains the layout of source text, told as relations: where a line ends, where its
comment starts and which words it holds. Main statement: `tokenized_iff`, so every text has exactly
one list of words for each of its lines.
-/

namespace SealedVault

/--
The words of a text, which are parted by blanks. Blanks may also stand in front of the first word
and behind the last one.
-/
inductive Spaced : List Char → List (List Char) → Prop where
  | blank {gap : List Char} (hgap : ∀ c ∈ gap, isBlank c = true) : Spaced gap []
  | word {gap word rest : List Char} {more : List (List Char)}
    (hgap : ∀ c ∈ gap, isBlank c = true) (hne : word ≠ [])
    (hword : ∀ c ∈ word, isBlank c = false) (hrest : ∀ c ∈ rest.head?, isBlank c = true)
    (tail : Spaced rest more) : Spaced (gap ++ word ++ rest) (word :: more)

/-- A line and its part in front of the first two adjacent slashes. -/
inductive Uncommented : List Char → List Char → Prop where
  | plain {line : List Char} (hline : ¬ ['/', '/'] <:+: line) : Uncommented line line
  | comment {front : List Char} (remark : List Char) (hfront : ¬ ['/', '/'] <:+: front ++ ['/']) :
    Uncommented (front ++ '/' :: '/' :: remark) front

/--
The lines of a text. A line feed ends a line, together with one carriage return in front of it. The
last line may do without.
-/
inductive Lined : List Char → List (List Char) → Prop where
  | nil : Lined [] []
  | last {line : List Char} (hne : line ≠ []) (hline : '\n' ∉ line) : Lined line [line]
  | feed {line rest : List Char} {more : List (List Char)} (hline : '\n' ∉ line)
    (hreturn : line.getLast? ≠ some '\r') (tail : Lined rest more) :
    Lined (line ++ '\n' :: rest) (line :: more)
  | returnFeed {line rest : List Char} {more : List (List Char)} (hline : '\n' ∉ line)
    (tail : Lined rest more) : Lined (line ++ '\r' :: '\n' :: rest) (line :: more)

/-- The words of each line of a source text, apart from comments. -/
def Tokenized (source : List Char) (tokens : List (List (List Char))) : Prop :=
  ∃ texts, Lined source texts ∧
    List.Forall₂ (fun text found => ∃ front, Uncommented text front ∧ Spaced front found)
      texts tokens

theorem words_append_blank {c : Char} (hc : isBlank c = true) (text rest : List Char) :
    words (text ++ c :: rest) = words text ++ words rest := by
  unfold words
  rw [List.splitOnP_append_cons text rest hc, List.filter_append]

theorem words_of_blank {gap : List Char} (hgap : ∀ c ∈ gap, isBlank c = true) :
    words gap = [] := by
  induction gap with
  | nil => rfl
  | cons c rest ih =>
    rw [List.forall_mem_cons] at hgap
    have := words_append_blank hgap.1 [] rest
    rw [List.nil_append] at this
    rw [this, ih hgap.2]
    rfl

theorem words_of_word {word : List Char} (hne : word ≠ [])
    (hword : ∀ c ∈ word, isBlank c = false) : words word = [word] := by
  unfold words
  rw [List.splitOnP_eq_singleton hword]
  simp [hne]

theorem words_blank_append {gap : List Char} (hgap : ∀ c ∈ gap, isBlank c = true)
    (text : List Char) : words (gap ++ text) = words text := by
  induction gap with
  | nil => rfl
  | cons c rest ih =>
    rw [List.forall_mem_cons] at hgap
    have := words_append_blank hgap.1 [] (rest ++ text)
    rw [List.nil_append] at this
    rw [List.cons_append, this, ih hgap.2]
    rfl

theorem words_word_append {word rest : List Char} (hne : word ≠ [])
    (hword : ∀ c ∈ word, isBlank c = false) (hrest : ∀ c ∈ rest.head?, isBlank c = true) :
    words (word ++ rest) = word :: words rest := by
  cases rest with
  | nil =>
    rw [List.append_nil, words_of_word hne hword]
    rfl
  | cons c rest =>
    have hc : isBlank c = true := hrest c rfl
    have := words_append_blank hc [] rest
    rw [List.nil_append] at this
    rw [words_append_blank hc, words_of_word hne hword, this]
    rfl

theorem words_of_spaced {text : List Char} {found : List (List Char)} (h : Spaced text found) :
    words text = found := by
  induction h with
  | blank hgap => exact words_of_blank hgap
  | word hgap hne hword hrest tail ih =>
    rw [List.append_assoc, words_blank_append hgap, words_word_append hne hword hrest, ih]

theorem exists_spaced (text : List Char) : ∃ found, Spaced text found := by
  have hgap : ∀ c ∈ text.takeWhile isBlank, isBlank c = true :=
    List.all_eq_true.1 List.all_takeWhile
  have htext : text.takeWhile isBlank ++ text.dropWhile isBlank = text :=
    List.takeWhile_append_dropWhile
  have hbody := List.head?_dropWhile_not isBlank text
  generalize text.dropWhile isBlank = body at htext hbody
  cases body with
  | nil =>
    rw [List.append_nil] at htext
    rw [htext] at hgap
    exact ⟨[], .blank hgap⟩
  | cons c rest =>
    -- A word starts here, and goes on up to the next blank
    let isPart : Char → Bool := fun c => !isBlank c
    have hc : isPart c = true := by simpa [isPart] using hbody
    have hword : ∀ d ∈ (c :: rest).takeWhile isPart, isBlank d = false := by
      intro d hd
      simpa [isPart] using List.all_eq_true.1 List.all_takeWhile d hd
    have hparts : (c :: rest).takeWhile isPart ++ (c :: rest).dropWhile isPart = c :: rest :=
      List.takeWhile_append_dropWhile
    have hrest : ∀ d ∈ ((c :: rest).dropWhile isPart).head?, isBlank d = true := by
      intro d hd
      have := List.head?_dropWhile_not isPart (c :: rest)
      rw [Option.mem_def.1 hd] at this
      simpa [isPart] using this
    have hne : (c :: rest).takeWhile isPart ≠ [] := by
      rw [List.takeWhile_cons, hc]
      exact List.cons_ne_nil _ _
    have hlength : ((c :: rest).dropWhile isPart).length < text.length := by
      have hword := List.length_pos_iff.2 hne
      have hparts := congrArg List.length hparts
      have htext := congrArg List.length htext
      rw [List.length_append] at hparts htext
      omega
    obtain ⟨more, tail⟩ := exists_spaced ((c :: rest).dropWhile isPart)
    have := Spaced.word hgap hne hword hrest tail
    rw [List.append_assoc, hparts, htext] at this
    exact ⟨_, this⟩
termination_by text.length

theorem spaced_iff {text : List Char} {found : List (List Char)} :
    Spaced text found ↔ words text = found := by
  constructor
  · exact words_of_spaced
  · rintro rfl
    obtain ⟨found, h⟩ := exists_spaced text
    rw [words_of_spaced h]
    exact h

namespace Source

theorem code_of_plain {line : List Char} (h : ¬ ['/', '/'] <:+: line) : code line = line := by
  induction line with
  | nil => rfl
  | cons c rest ih =>
    rw [List.infix_cons_iff, not_or] at h
    obtain ⟨hstart, hrest⟩ := h
    cases rest with
    | nil => exact code_singleton c
    | cons d rest =>
      have : ¬ (c = '/' ∧ d = '/') := by
        rintro ⟨rfl, rfl⟩
        exact hstart ⟨rest, rfl⟩
      rw [code_cons_cons, if_neg this, ih hrest]

theorem code_append_comment {front : List Char} (remark : List Char)
    (h : ¬ ['/', '/'] <:+: front ++ ['/']) : code (front ++ '/' :: '/' :: remark) = front := by
  induction front with
  | nil => exact (code_cons_cons _ _ _).trans (if_pos ⟨rfl, rfl⟩)
  | cons c rest ih =>
    rw [List.cons_append, List.infix_cons_iff, not_or] at h
    obtain ⟨hstart, hrest⟩ := h
    specialize ih hrest
    cases rest with
    | nil =>
      have : ¬ (c = '/' ∧ '/' = '/') := by
        rintro ⟨rfl, -⟩
        exact hstart (List.prefix_refl _)
      rw [List.nil_append] at ih
      rw [List.cons_append, List.nil_append, code_cons_cons, if_neg this, ih]
    | cons d rest =>
      have : ¬ (c = '/' ∧ d = '/') := by
        rintro ⟨rfl, rfl⟩
        exact hstart ⟨rest ++ ['/'], rfl⟩
      rw [List.cons_append] at ih
      rw [List.cons_append, List.cons_append, code_cons_cons, if_neg this, ih]

theorem code_of_uncommented {line front : List Char} (h : Uncommented line front) :
    code line = front := by
  cases h with
  | plain hline => exact code_of_plain hline
  | comment remark hfront => exact code_append_comment remark hfront

theorem exists_uncommented (line : List Char) : ∃ front, Uncommented line front := by
  induction line with
  | nil => exact ⟨[], .plain (by simp)⟩
  | cons c rest ih =>
    by_cases hslashes : ['/', '/'] <+: c :: rest
    · obtain ⟨remark, hremark⟩ := hslashes
      rw [← hremark]
      have hfront : ¬ ['/', '/'] <:+: [] ++ ['/'] := by decide
      exact ⟨[], .comment remark hfront⟩
    · -- No comment starts at this character, so it stands in front of any comment behind it
      obtain ⟨front, h⟩ := ih
      cases h with
      | plain hline =>
        refine ⟨c :: rest, .plain ?_⟩
        rw [List.infix_cons_iff]
        exact not_or.2 ⟨hslashes, hline⟩
      | comment remark hfront =>
        have hfirst : ¬ ['/', '/'] <+: c :: (front ++ ['/']) := by
          intro hstart
          apply hslashes
          rw [List.append_cons]
          exact hstart.trans (List.prefix_append (c :: (front ++ ['/'])) _)
        have hnone : ¬ ['/', '/'] <:+: c :: front ++ ['/'] := by
          rw [List.cons_append, List.infix_cons_iff]
          exact not_or.2 ⟨hfirst, hfront⟩
        exact ⟨c :: front, .comment remark hnone⟩

theorem uncommented_iff {line front : List Char} : Uncommented line front ↔ code line = front := by
  constructor
  · exact code_of_uncommented
  · rintro rfl
    obtain ⟨front, h⟩ := exists_uncommented line
    rw [code_of_uncommented h]
    exact h

theorem code_cons_of_ne {c : Char} (hc : c ≠ '/') (rest : List Char) :
    code (c :: rest) = c :: code rest := by
  cases rest with
  | nil => exact code_singleton c
  | cons d rest => rw [code_cons_cons, if_neg fun h => hc h.1]

theorem code_append_of_not_mem {front : List Char} (hfront : '/' ∉ front) (rest : List Char) :
    code (front ++ rest) = front ++ code rest := by
  induction front with
  | nil => rfl
  | cons c front ih =>
    rw [List.mem_cons, not_or] at hfront
    rw [List.cons_append, code_cons_of_ne (Ne.symm hfront.1), ih hfront.2, List.cons_append]

theorem code_append_of_commented {front : List Char} (hfront : ['/', '/'] <:+: front)
    (rest : List Char) : code (front ++ rest) = code front := by
  obtain ⟨shown, h⟩ := exists_uncommented front
  rw [code_of_uncommented h]
  cases h with
  | plain hline => exact absurd hfront hline
  | comment remark hshown =>
    rw [List.append_assoc, List.cons_append, List.cons_append, code_append_comment _ hshown]

theorem code_append_cons_of_plain {front : List Char} (hfront : ¬ ['/', '/'] <:+: front)
    {c : Char} (hc : c ≠ '/') (rest : List Char) :
    code (front ++ c :: rest) = front ++ c :: code rest := by
  induction front with
  | nil => exact code_cons_of_ne hc rest
  | cons d front ih =>
    rw [List.infix_cons_iff, not_or] at hfront
    obtain ⟨hstart, hrest⟩ := hfront
    specialize ih hrest
    cases front with
    | nil =>
      have : ¬ (d = '/' ∧ c = '/') := fun h => hc h.2
      rw [List.nil_append] at ih
      rw [List.cons_append, List.nil_append, code_cons_cons, if_neg this, ih]
      rfl
    | cons e front =>
      have : ¬ (d = '/' ∧ e = '/') := by
        rintro ⟨rfl, rfl⟩
        exact hstart ⟨front, rfl⟩
      rw [List.cons_append] at ih
      rw [List.cons_append, List.cons_append, code_cons_cons, if_neg this, ih]
      rfl

theorem ne_slash_of_isBlank {c : Char} (hc : isBlank c = true) : c ≠ '/' := by
  rintro rfl
  exact absurd hc (by decide)

/-- A blank parts the words of a line, unless it belongs to a comment. -/
theorem words_code_append_cons {c : Char} (hc : isBlank c = true) (front rest : List Char) :
    words (code (front ++ c :: rest)) =
      words (code front) ++ if ['/', '/'] <:+: front then [] else words (code rest) := by
  split
  · next hfront => rw [code_append_of_commented hfront, List.append_nil]
  · next hfront =>
    rw [code_append_cons_of_plain hfront (ne_slash_of_isBlank hc), words_append_blank hc,
      code_of_plain hfront]

/-- A carriage return that is left at the end of a line is a blank like any other. -/
theorem words_code_append_return (line : List Char) :
    words (code (line ++ ['\r'])) = words (code line) := by
  have hnone : words (code []) = [] := rfl
  rw [words_code_append_cons (by decide), hnone, ite_self, List.append_nil]

end Source

theorem splitOn_of_not_mem {line : List Char} (hline : '\n' ∉ line) :
    line.splitOn '\n' = [line] := by
  apply List.splitOnP_eq_singleton
  intro c hc
  rw [beq_eq_false_iff_ne]
  rintro rfl
  exact hline hc

theorem lines_of_not_mem {line : List Char} (hne : line ≠ []) (hline : '\n' ∉ line) :
    lines line = [line] := by
  unfold lines
  rw [splitOn_of_not_mem hline]
  simp [hne]

/-- A line feed at the end of a text starts a line as soon as another text follows. -/
theorem lines_append_cons_feed (text rest : List Char) :
    lines (text ++ '\n' :: rest) = text.splitOn '\n' ++ lines rest := by
  have hne : rest.splitOn '\n' ≠ [] := List.splitOn_ne_nil _ _
  unfold lines
  dsimp only
  rw [List.splitOn_append_cons_self, List.getLast?_append_of_ne_nil _ hne,
    List.dropLast_append_of_ne_nil hne]
  split
  · rfl
  · rfl

theorem lines_append_feed {line : List Char} (hline : '\n' ∉ line) (rest : List Char) :
    lines (line ++ '\n' :: rest) = line :: lines rest := by
  rw [lines_append_cons_feed, splitOn_of_not_mem hline, List.singleton_append]

/-- Lines are read alike with and without the carriage returns that belong to their ends. -/
theorem words_code_lines {source : List Char} {texts : List (List Char)} (h : Lined source texts) :
    ((lines source).map fun text => words (Source.code text)) =
      texts.map fun text => words (Source.code text) := by
  induction h with
  | nil => rfl
  | last hne hline => rw [lines_of_not_mem hne hline]
  | feed hline hreturn tail ih => rw [lines_append_feed hline, List.map_cons, ih, List.map_cons]
  | @returnFeed line rest more hline tail ih =>
    have hraw : '\n' ∉ line ++ ['\r'] := by simpa using hline
    rw [List.append_cons, lines_append_feed hraw, List.map_cons, ih, List.map_cons,
      Source.words_code_append_return]

theorem exists_lined (source : List Char) : ∃ texts, Lined source texts := by
  by_cases hfeed : '\n' ∈ source
  · obtain ⟨line, rest, hsource, hline⟩ := List.eq_append_cons_of_mem hfeed
    have : rest.length < source.length := by
      rw [hsource, List.length_append, List.length_cons]
      omega
    obtain ⟨more, tail⟩ := exists_lined rest
    by_cases hreturn : line.getLast? = some '\r'
    · obtain ⟨front, rfl⟩ := List.getLast?_eq_some_iff.1 hreturn
      have hfront : '\n' ∉ front := by simpa using hline
      rw [hsource, ← List.append_cons]
      exact ⟨_, .returnFeed hfront tail⟩
    · rw [hsource]
      exact ⟨_, .feed hline hreturn tail⟩
  · by_cases hne : source = []
    · rw [hne]
      exact ⟨[], .nil⟩
    · exact ⟨[source], .last hne hfeed⟩
termination_by source.length

theorem eq_of_tokenized {source : List Char} {tokens : List (List (List Char))}
    (h : Tokenized source tokens) :
    tokens = (lines source).map fun text => words (Source.code text) := by
  obtain ⟨texts, hlined, htokens⟩ := h
  rw [words_code_lines hlined]
  clear hlined
  induction htokens with
  | nil => rfl
  | cons hfirst _ ih =>
    obtain ⟨front, hfront, hfound⟩ := hfirst
    rw [List.map_cons, ← ih, Source.code_of_uncommented hfront, words_of_spaced hfound]

theorem exists_tokenized (source : List Char) : ∃ tokens, Tokenized source tokens := by
  obtain ⟨texts, hlined⟩ := exists_lined source
  refine ⟨texts.map fun text => words (Source.code text), texts, hlined, ?_⟩
  rw [List.forall₂_map_right_iff, List.forall₂_same]
  intro text _
  exact ⟨_, Source.uncommented_iff.2 rfl, spaced_iff.2 rfl⟩

theorem tokenized_iff {source : List Char} {tokens : List (List (List Char))} :
    Tokenized source tokens ↔
      tokens = (lines source).map fun text => words (Source.code text) := by
  constructor
  · exact eq_of_tokenized
  · rintro rfl
    obtain ⟨tokens, h⟩ := exists_tokenized source
    rw [← eq_of_tokenized h]
    exact h

end SealedVault
