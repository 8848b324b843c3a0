import SealedVault.Proofs.Grammar

/-!
This module contains source texts that are joined by a line feed. Main statements:
`readLines_append` and `readLines_add`, so lines are read one after the other and their numbers
matter for errors only, and `parse_join`, so a joined text is read as its two parts.
-/

namespace SealedVault

theorem length_splitOn_feed (text : List Char) :
    (text.splitOn '\n').length = text.count '\n' + 1 := by
  induction text with
  | nil => rfl
  | cons c rest ih =>
    rw [List.splitOn_cons_eq_if_modifyHead, List.count_cons]
    split
    · rw [List.length_cons, ih]
    · rw [List.length_modifyHead, ih, Nat.add_zero]

theorem splitOn_feed_eq (text : List Char) :
    text.splitOn '\n' = lines text ∨ text.splitOn '\n' = lines text ++ [[]] := by
  unfold lines
  dsimp only
  split
  · next hlast => exact .inr (List.dropLast_append_getLast? _ hlast).symm
  · exact .inl rfl

theorem length_lines_append_feed (text rest : List Char) :
    (lines (text ++ '\n' :: rest)).length = text.count '\n' + 1 + (lines rest).length := by
  rw [lines_append_cons_feed, List.length_append, length_splitOn_feed]

theorem length_lines_le (text : List Char) : (lines text).length ≤ text.count '\n' + 1 := by
  rw [← length_splitOn_feed]
  rcases splitOn_feed_eq text with h | h
  · simp [h]
  · simp [h]

namespace SourceError

/-- The same error at another line. -/
def mapLine (f : Nat → Nat) : SourceError → SourceError
  | tooManyLines limit => tooManyLines limit
  | unknownInstruction line mnemonic => unknownInstruction (f line) mnemonic
  | missingKey line opcode => missingKey (f line) opcode
  | operandTooLong line role size => operandTooLong (f line) role size

theorem mapLine_congr {e : SourceError} {f g : Nat → Nat} (h : ∀ line ∈ e.line?, f line = g line) :
    e.mapLine f = e.mapLine g := by
  cases e with
  | tooManyLines limit => rfl
  | unknownInstruction line mnemonic => rw [mapLine, mapLine, h line rfl]
  | missingKey line opcode => rw [mapLine, mapLine, h line rfl]
  | operandTooLong line role size => rw [mapLine, mapLine, h line rfl]

theorem mapLine_eq_self {e : SourceError} {f : Nat → Nat} (h : ∀ line ∈ e.line?, f line = line) :
    e.mapLine f = e := by
  cases e with
  | tooManyLines limit => rfl
  | unknownInstruction line mnemonic => rw [mapLine, h line rfl]
  | missingKey line opcode => rw [mapLine, h line rfl]
  | operandTooLong line role size => rw [mapLine, h line rfl]

end SourceError

namespace Source

section Lines

variable {line : Nat} {text : List Char} {texts : List (List Char)} {e : SourceError}

theorem Offends.line?_eq {found : List (List Char)} (h : Offends line found e) :
    e.line? = some line := by
  cases h with
  | unknown more hname => rfl
  | missingKey hname => rfl
  | longKey more hname hkey => rfl
  | longValue hname hkey hvalue => rfl

theorem Offends.mapLine {found : List (List Char)} (h : Offends line found e) (f : Nat → Nat) :
    Offends (f line) found (e.mapLine f) := by
  cases h with
  | unknown more hname => exact .unknown more hname
  | missingKey hname => exact .missingKey hname
  | longKey more hname hkey => exact .longKey more hname hkey
  | longValue hname hkey hvalue => exact .longValue hname hkey hvalue

theorem parseLine_mapLine (f : Nat → Nat) (line : Nat) (text : List Char) :
    parseLine (f line) text = (parseLine line text).mapError (·.mapLine f) := by
  obtain ⟨e, hoffends⟩ | ⟨read, hmeans, hvalid⟩ := offends_or_means line (words (code text))
  · rw [parseLine_of_offends hoffends, parseLine_of_offends (hoffends.mapLine f)]
    rfl
  · rw [parseLine_of_means hmeans hvalid, parseLine_of_means hmeans hvalid]
    rfl

/-- The instructions of some lines, the first of which has the number `line`. -/
def readLines (line : Nat) (texts : List (List Char)) : Except SourceError (List Instruction) :=
  (parseLines line texts).map (List.filterMap id)

theorem parse_of_le {maxLines : Nat} {source : String}
    (h : (lines source.toList).length ≤ maxLines) :
    parse maxLines source = readLines 1 (lines source.toList) := by
  rw [parse_eq, if_neg (Nat.not_lt.2 h)]
  rfl

theorem readLines_cons (line : Nat) (text : List Char) (texts : List (List Char)) :
    readLines line (text :: texts) =
      (parseLine line text).bind fun read =>
        (readLines (line + 1) texts).map (read.toList ++ ·) := by
  unfold readLines
  rw [parseLines_cons]
  cases parseLine line text with
  | error e => rfl
  | ok read =>
    cases parseLines (line + 1) texts with
    | error e => rfl
    | ok reads =>
      cases read with
      | none => rfl
      | some instruction => rfl

theorem readLines_append (line : Nat) (texts more : List (List Char)) :
    readLines line (texts ++ more) =
      (readLines line texts).bind fun program =>
        (readLines (line + texts.length) more).map (program ++ ·) := by
  induction texts generalizing line with
  | nil =>
    show readLines line more = (readLines line more).map ([] ++ ·)
    cases readLines line more with
    | error e => rfl
    | ok program => rfl
  | cons text texts ih =>
    rw [List.cons_append, readLines_cons, readLines_cons, ih, List.length_cons,
      Nat.add_comm texts.length, ← Nat.add_assoc]
    cases parseLine line text with
    | error e => rfl
    | ok read =>
      cases readLines (line + 1) texts with
      | error e => rfl
      | ok program =>
        dsimp only [Except.bind, Except.map]
        cases readLines (line + 1 + texts.length) more with
        | error e => rfl
        | ok behind => simp

/-- With `distance` more lines in front the same is read, and the errors move. -/
theorem readLines_add (line distance : Nat) (texts : List (List Char)) :
    readLines (line + distance) texts =
      (readLines line texts).mapError (·.mapLine (· + distance)) := by
  induction texts generalizing line with
  | nil => rfl
  | cons text texts ih =>
    have hfirst := parseLine_mapLine (· + distance) line text
    rw [readLines_cons, readLines_cons, hfirst, Nat.add_right_comm, ih]
    cases parseLine line text with
    | error e => rfl
    | ok read =>
      cases readLines (line + 1) texts with
      | error e => rfl
      | ok program => rfl

theorem readLines_cons_of_skipped (h : words (code text) = []) (line : Nat)
    (texts : List (List Char)) :
    readLines line (text :: texts) = (readLines line texts).mapError (·.mapLine (· + 1)) := by
  rw [readLines_cons, parseLine, h, readLines_add]
  cases readLines line texts with
  | error e => rfl
  | ok program => rfl

theorem line?_of_readLines (h : readLines line texts = .error e) :
    ∃ number, e.line? = some number ∧ line ≤ number ∧ number < line + texts.length := by
  have hparse : parseLines line texts = .error e := by
    unfold readLines at h
    cases hread : parseLines line texts with
    | error e' =>
      rw [hread] at h
      cases h
      rfl
    | ok reads =>
      rw [hread] at h
      cases h
  obtain ⟨before, found, after, htokens, -, hoffends⟩ := parseLines_eq_error_iff.1 hparse
  have hlength := congrArg List.length htokens
  rw [tokensOf, List.length_map, List.length_append, List.length_cons] at hlength
  exact ⟨_, hoffends.line?_eq, by omega, by omega⟩

theorem readLines_splitOn (line : Nat) (text : List Char) :
    readLines line (text.splitOn '\n') = readLines line (lines text) := by
  rcases splitOn_feed_eq text with h | h
  · rw [h]
  · rw [h, readLines_append, readLines_cons_of_skipped rfl]
    cases readLines line (lines text) with
    | error e => rfl
    | ok program =>
      show Except.ok (program ++ []) = Except.ok program
      rw [List.append_nil]

end Lines

section Join

variable {maxLines : Nat} {a b : String}

theorem line?_of_parse {source : String} {e : SourceError}
    (hlimit : (lines source.toList).length ≤ maxLines) (h : parse maxLines source = .error e) :
    ∃ line, e.line? = some line ∧ 1 ≤ line ∧ line ≤ (lines source.toList).length := by
  rw [parse_of_le hlimit] at h
  obtain ⟨line, hline, hlow, hhigh⟩ := line?_of_readLines h
  exact ⟨line, hline, hlow, by omega⟩

theorem toList_join (a b : String) : (a ++ "\n" ++ b).toList = a.toList ++ '\n' :: b.toList := by
  simp

theorem length_lines_le_of_join (h : (lines (a ++ "\n" ++ b).toList).length ≤ maxLines) :
    (lines a.toList).length ≤ maxLines ∧ (lines b.toList).length ≤ maxLines := by
  rw [toList_join, length_lines_append_feed] at h
  have := length_lines_le a.toList
  omega

theorem parse_append_feed (h : (lines (a ++ "\n" ++ b).toList).length ≤ maxLines) :
    parse maxLines (a ++ "\n" ++ b) =
      (parse maxLines a).bind fun program =>
        ((parse maxLines b).mapError (·.mapLine (· + (a.toList.count '\n' + 1)))).map
          (program ++ ·) := by
  obtain ⟨ha, hb⟩ := length_lines_le_of_join h
  rw [parse_of_le h, parse_of_le ha, parse_of_le hb, toList_join, lines_append_cons_feed,
    readLines_append, readLines_splitOn, length_splitOn_feed, readLines_add]

/--
Two texts joined by a line feed are read one after the other, whatever the first one ends with. An
error in the first one stays as it is, and an error in the second one moves by the lines in front.
-/
theorem parse_join (maxLines : Nat) (a b : String)
    (h : (lines (a ++ "\n" ++ b).toList).length ≤ maxLines) :
    (∀ e, parse maxLines a = .error e → parse maxLines (a ++ "\n" ++ b) = .error e) ∧
    ∀ program, parse maxLines a = .ok program →
      (∀ more, parse maxLines b = .ok more →
        parse maxLines (a ++ "\n" ++ b) = .ok (program ++ more) ∧
        ∃ front back, compile maxLines a = .ok front ∧ compile maxLines b = .ok back ∧
          compile maxLines (a ++ "\n" ++ b) = .ok (front ++ back)) ∧
      ∀ e, parse maxLines b = .error e →
        (∃ line, e.line? = some line) ∧
        parse maxLines (a ++ "\n" ++ b) =
          .error (e.mapLine (· + (a.toList.count '\n' + 1))) := by
  have hjoin := parse_append_feed h
  constructor
  · intro e ha
    rw [hjoin, ha]
    rfl
  · intro program ha
    rw [ha] at hjoin
    constructor
    · intro more hb
      rw [hb] at hjoin
      refine ⟨hjoin, _, _, compile_of_parse ha, compile_of_parse hb, ?_⟩
      rw [← List.flatMap_append]
      apply compile_of_parse hjoin
    · intro e hb
      rw [hb] at hjoin
      obtain ⟨line, hline, -⟩ := line?_of_parse (length_lines_le_of_join h).2 hb
      exact ⟨⟨line, hline⟩, hjoin⟩

/-- The carriage return at the end of the first text belongs to a line end only when joined. -/
theorem parse_join_return :
    (lines ("DELFAV k\r" ++ "\n" ++ "LOADFAV k t").toList).length ≤ 3 ∧
      parse 3 ("DELFAV k\r" ++ "\n" ++ "LOADFAV k t") =
        .ok [.delete "k", .load "k" (some "t")] ∧
      (lines ("DELFAV k\r" ++ "\n" ++ "// t\nLOADFAV").toList).length ≤ 3 ∧
      parse 3 "// t\nLOADFAV" = .error (.missingKey 2 .load) ∧
      parse 3 ("DELFAV k\r" ++ "\n" ++ "// t\nLOADFAV") = .error (.missingKey 3 .load) := by
  have hfirst : parse 3 "DELFAV k\r" = .ok [.delete "k"] := rfl
  have hlines : (lines ("DELFAV k\r" ++ "\n" ++ "LOADFAV k t").toList).length ≤ 3 := by decide
  have hlimit : (lines ("DELFAV k\r" ++ "\n" ++ "// t\nLOADFAV").toList).length ≤ 3 := by decide
  have hsecond : parse 3 "LOADFAV k t" = .ok [.load "k" (some "t")] := rfl
  have hfault : parse 3 "// t\nLOADFAV" = .error (.missingKey 2 .load) := rfl
  obtain ⟨hread, -⟩ := ((parse_join 3 _ _ hlines).2 _ hfirst).1 _ hsecond
  obtain ⟨-, herror⟩ := ((parse_join 3 _ _ hlimit).2 _ hfirst).2 _ hfault
  exact ⟨hlines, hread, hlimit, hfault, herror⟩

end Join

end Source

end SealedVault
