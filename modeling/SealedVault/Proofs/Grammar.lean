import SealedVault.Proofs.Layout
import SealedVault.Proofs.Source

/-!
This module contains the grammar of source text. Main statements: `offends_or_means`, so the words
of a line are an instruction, nothing at all or an offence, and `parse_exact`, so parsing follows
the grammar and reports the first offence.
-/

namespace SealedVault

namespace Opcode

/-- The word is the mnemonic of the operation up to the case of ASCII letters. -/
def IsNamed (opcode : Opcode) (word : List Char) : Prop :=
  word.map Char.toUpper = opcode.mnemonic.toList.map Char.toUpper

theorem map_toUpper_mnemonic (opcode : Opcode) :
    opcode.mnemonic.toList.map Char.toUpper = opcode.mnemonic.toList := by
  cases opcode with
  | store => rfl
  | load => rfl
  | delete => rfl

theorem ofMnemonic?_eq_some_iff {word : List Char} {opcode : Opcode} :
    ofMnemonic? word = some opcode ↔ opcode.IsNamed word := by
  unfold ofMnemonic? IsNamed
  rw [map_toUpper_mnemonic]
  constructor
  · intro h
    have hname : opcode.mnemonic = String.ofList (word.map Char.toUpper) := by
      simpa using List.find?_some h
    rw [hname, String.toList_ofList]
  · intro h
    rw [h, String.ofList_toList]
    cases opcode with
    | store => rfl
    | load => rfl
    | delete => rfl

theorem ofMnemonic?_eq_none_iff {word : List Char} :
    ofMnemonic? word = none ↔ ∀ opcode : Opcode, ¬ opcode.IsNamed word := by
  rw [Option.eq_none_iff_forall_ne_some]
  simp only [ne_eq, ofMnemonic?_eq_some_iff]

end Opcode

namespace Source

/-- Why the words of a line are refused. Of several reasons it is the first one. -/
inductive Offends (number : Nat) : List (List Char) → SourceError → Prop where
  | unknown {first : List Char} (more : List (List Char))
    (hname : ∀ opcode : Opcode, ¬ opcode.IsNamed first) :
    Offends number (first :: more) (.unknownInstruction number (String.ofList first))
  | missingKey {first : List Char} {opcode : Opcode} (hname : opcode.IsNamed first) :
    Offends number [first] (.missingKey number opcode)
  | longKey {first key : List Char} (more : List (List Char)) {opcode : Opcode}
    (hname : opcode.IsNamed first) (hkey : 65535 < (String.ofList key).utf8ByteSize) :
    Offends number (first :: key :: more)
      (.operandTooLong number .key (String.ofList key).utf8ByteSize)
  | longValue {first key : List Char} {more : List (List Char)}
    (hname : Opcode.store.IsNamed first) (hkey : (String.ofList key).utf8ByteSize ≤ 65535)
    (hvalue : 65535 < (String.ofList (List.intercalate [' '] more)).utf8ByteSize) :
    Offends number (first :: key :: more)
      (.operandTooLong number .value
        (String.ofList (List.intercalate [' '] more)).utf8ByteSize)

/-- What the words of a line stand for if there is no offence. A line without words is skipped. -/
inductive Means : List (List Char) → Option Instruction → Prop where
  | skipped : Means [] none
  | store {first : List Char} (key : List Char) (more : List (List Char))
    (hname : Opcode.store.IsNamed first) :
    Means (first :: key :: more)
      (some (.store (String.ofList key) (String.ofList (List.intercalate [' '] more))))
  | load {first : List Char} (key : List Char) (more : List (List Char))
    (hname : Opcode.load.IsNamed first) :
    Means (first :: key :: more)
      (some (.load (String.ofList key) (more.head?.map String.ofList)))
  | delete {first : List Char} (key : List Char) (more : List (List Char))
    (hname : Opcode.delete.IsNamed first) :
    Means (first :: key :: more) (some (.delete (String.ofList key)))

/-- There is nothing to refuse about the words of a line, whatever its number. -/
def Valid (found : List (List Char)) : Prop :=
  ∀ number e, ¬ Offends number found e

/-- The first of some lines that is refused, and why. The lines are counted from `number`. -/
def FirstOffence (number : Nat) (tokens : List (List (List Char))) (e : SourceError) : Prop :=
  ∃ before found after, tokens = before ++ found :: after ∧ (∀ earlier ∈ before, Valid earlier) ∧
    Offends (number + before.length) found e

theorem operand_of_le {line : Nat} {role : Role} {word : List Char}
    (h : (String.ofList word).utf8ByteSize ≤ 65535) :
    operand line role word = .ok (String.ofList word) :=
  if_neg fun hlong => Nat.not_lt.2 h (of_decide_eq_true hlong)

theorem operand_of_lt {line : Nat} {role : Role} {word : List Char}
    (h : 65535 < (String.ofList word).utf8ByteSize) :
    operand line role word =
      .error (.operandTooLong line role (String.ofList word).utf8ByteSize) :=
  if_pos (decide_eq_true h)

variable {line : Nat} {text : List Char} {found : List (List Char)} {e : SourceError}

theorem parseLine_of_offends (h : Offends line (words (code text)) e) :
    parseLine line text = .error e := by
  unfold parseLine
  generalize words (code text) = found at h
  cases h with
  | unknown more hname => simp only [Opcode.ofMnemonic?_eq_none_iff.2 hname]
  | missingKey hname =>
    simp only [Opcode.ofMnemonic?_eq_some_iff.2 hname]
    rfl
  | longKey more hname hkey =>
    simp only [Opcode.ofMnemonic?_eq_some_iff.2 hname, instruction, operand_of_lt hkey]
    rfl
  | longValue hname hkey hvalue =>
    simp only [Opcode.ofMnemonic?_eq_some_iff.2 hname, instruction, operand_of_le hkey]
    simp only [bind, Except.bind, operand_of_lt hvalue]
    rfl

theorem parseLine_of_means {read : Option Instruction} (h : Means (words (code text)) read)
    (hvalid : Valid (words (code text))) : parseLine line text = .ok read := by
  unfold parseLine
  generalize words (code text) = found at h hvalid
  have hshort {first key : List Char} {more : List (List Char)} {opcode : Opcode}
      (hfound : found = first :: key :: more) (hname : opcode.IsNamed first) :
      (String.ofList key).utf8ByteSize ≤ 65535 := by
    rw [← Nat.not_lt]
    intro hkey
    rw [hfound] at hvalid
    exact hvalid line _ (.longKey more hname hkey)
  cases h with
  | skipped => rfl
  | store key more hname =>
    have hkey := hshort rfl hname
    have hvalue : (String.ofList (List.intercalate [' '] more)).utf8ByteSize ≤ 65535 := by
      rw [← Nat.not_lt]
      exact fun hvalue => hvalid line _ (.longValue hname hkey hvalue)
    simp only [Opcode.ofMnemonic?_eq_some_iff.2 hname, instruction, operand_of_le hkey]
    simp only [bind, Except.bind, operand_of_le hvalue]
    rfl
  | load key more hname =>
    simp only [Opcode.ofMnemonic?_eq_some_iff.2 hname, instruction,
      operand_of_le (hshort rfl hname)]
    rfl
  | delete key more hname =>
    simp only [Opcode.ofMnemonic?_eq_some_iff.2 hname, instruction,
      operand_of_le (hshort rfl hname)]
    rfl

/-- The number of a line does not matter for whether it is refused. -/
theorem offends_or_means (number : Nat) (found : List (List Char)) :
    (∃ e, Offends number found e) ∨ ∃ read, Means found read ∧ Valid found := by
  cases found with
  | nil => exact .inr ⟨none, .skipped, nofun⟩
  | cons first more =>
    cases hname : Opcode.ofMnemonic? first with
    | none => exact .inl ⟨_, .unknown more (Opcode.ofMnemonic?_eq_none_iff.1 hname)⟩
    | some opcode =>
      have honly (other : Opcode) (hother : other.IsNamed first) : other = opcode := by
        have := Opcode.ofMnemonic?_eq_some_iff.2 hother
        rw [hname] at this
        exact (Option.some.inj this).symm
      have hname := Opcode.ofMnemonic?_eq_some_iff.1 hname
      cases more with
      | nil => exact .inl ⟨_, .missingKey hname⟩
      | cons key more =>
        by_cases hkey : 65535 < (String.ofList key).utf8ByteSize
        · exact .inl ⟨_, .longKey more hname hkey⟩
        · have hvalid (hvalue : opcode = .store →
              (String.ofList (List.intercalate [' '] more)).utf8ByteSize ≤ 65535) :
              Valid (first :: key :: more) := by
            intro number e h
            cases h with
            | unknown _ hnone => exact hnone opcode hname
            | longKey _ _ hlong => exact hkey hlong
            | longValue hstore _ hlong =>
              have := hvalue (honly _ hstore).symm
              omega
          cases opcode with
          | load => exact .inr ⟨_, .load key more hname, hvalid nofun⟩
          | delete => exact .inr ⟨_, .delete key more hname, hvalid nofun⟩
          | store =>
            by_cases hvalue :
                65535 < (String.ofList (List.intercalate [' '] more)).utf8ByteSize
            · exact .inl ⟨_, .longValue hname (Nat.not_lt.1 hkey) hvalue⟩
            · exact .inr ⟨_, .store key more hname, hvalid fun _ => Nat.not_lt.1 hvalue⟩

theorem parseLine_eq_error_iff :
    parseLine line text = .error e ↔ Offends line (words (code text)) e := by
  constructor
  · intro h
    obtain ⟨e', hoffends⟩ | ⟨read, hmeans, hvalid⟩ := offends_or_means line (words (code text))
    · rw [parseLine_of_offends hoffends] at h
      cases h
      exact hoffends
    · rw [parseLine_of_means hmeans hvalid] at h
      cases h
  · exact parseLine_of_offends

theorem parseLine_eq_ok_iff {read : Option Instruction} :
    parseLine line text = .ok read ↔
      Means (words (code text)) read ∧ Valid (words (code text)) := by
  constructor
  · intro h
    obtain ⟨e, hoffends⟩ | ⟨read', hmeans, hvalid⟩ := offends_or_means line (words (code text))
    · rw [parseLine_of_offends hoffends] at h
      cases h
    · rw [parseLine_of_means hmeans hvalid] at h
      cases h
      exact ⟨hmeans, hvalid⟩
  · rintro ⟨hmeans, hvalid⟩
    exact parseLine_of_means hmeans hvalid

theorem firstOffence_cons_iff {number : Nat} {rest : List (List (List Char))} :
    FirstOffence number (found :: rest) e ↔
      Offends number found e ∨ Valid found ∧ FirstOffence (number + 1) rest e := by
  constructor
  · rintro ⟨before, refused, after, htokens, hbefore, hoffends⟩
    cases before with
    | nil =>
      cases htokens
      exact .inl hoffends
    | cons first before =>
      cases htokens
      rw [List.forall_mem_cons] at hbefore
      rw [List.length_cons, Nat.add_comm before.length, ← Nat.add_assoc] at hoffends
      exact .inr ⟨hbefore.1, before, refused, after, rfl, hbefore.2, hoffends⟩
  · rintro (hoffends | ⟨hvalid, before, refused, after, rfl, hbefore, hoffends⟩)
    · exact ⟨[], found, rest, rfl, nofun, hoffends⟩
    · refine ⟨found :: before, refused, after, rfl, List.forall_mem_cons.2 ⟨hvalid, hbefore⟩, ?_⟩
      rw [List.length_cons, Nat.add_comm before.length, ← Nat.add_assoc]
      exact hoffends

/-- The words of each of some lines. -/
def tokensOf (texts : List (List Char)) : List (List (List Char)) :=
  texts.map fun text => words (code text)

/-- The lines are parsed one after the other, the first of them with the number `line`. -/
def parseLines (line : Nat) (texts : List (List Char)) :
    Except SourceError (List (Option Instruction)) :=
  (texts.zipIdx line).mapM fun (text, line) => parseLine line text

theorem parseLines_cons (line : Nat) (text : List Char) (texts : List (List Char)) :
    parseLines line (text :: texts) =
      (parseLine line text).bind fun read => (parseLines (line + 1) texts).map (read :: ·) := by
  unfold parseLines
  rw [List.zipIdx_cons, List.mapM_cons]
  dsimp only
  generalize List.mapM (m := Except SourceError) _ (texts.zipIdx (line + 1)) = more
  cases parseLine line text with
  | error e => rfl
  | ok read =>
    cases more with
    | error e => rfl
    | ok reads => rfl

theorem parseLines_eq_error_iff {texts : List (List Char)} :
    parseLines line texts = .error e ↔ FirstOffence line (tokensOf texts) e := by
  induction texts generalizing line with
  | nil =>
    constructor
    · exact nofun
    · rintro ⟨before, refused, after, hnil, -⟩
      simp [tokensOf] at hnil
  | cons text texts ih =>
    unfold tokensOf at ih ⊢
    rw [parseLines_cons, List.map_cons, firstOffence_cons_iff, ← ih, ← parseLine_eq_error_iff]
    cases hfirst : parseLine line text with
    | error e' =>
      -- The line is refused, and so the lines behind it are not looked at
      have hinvalid : ¬ Valid (words (code text)) := by
        intro hvalid
        exact hvalid line e' (parseLine_eq_error_iff.1 hfirst)
      simp [Except.bind, hinvalid]
    | ok read =>
      have hvalid := (parseLine_eq_ok_iff.1 hfirst).2
      cases parseLines (line + 1) texts with
      | error e' => simp [Except.bind, Except.map, hvalid]
      | ok reads => simp [Except.bind, Except.map]

theorem parseLines_eq_ok_iff {texts : List (List Char)} {reads : List (Option Instruction)} :
    parseLines line texts = .ok reads ↔
      (∀ found ∈ tokensOf texts, Valid found) ∧ List.Forall₂ Means (tokensOf texts) reads := by
  induction texts generalizing line reads with
  | nil =>
    constructor
    · intro h
      cases h
      exact ⟨nofun, .nil⟩
    · rintro ⟨-, h⟩
      cases h
      rfl
  | cons text texts ih =>
    unfold tokensOf at ih ⊢
    rw [parseLines_cons, List.map_cons, List.forall_mem_cons]
    constructor
    · intro h
      cases hfirst : parseLine line text with
      | error e =>
        rw [hfirst] at h
        cases h
      | ok read =>
        cases hmore : parseLines (line + 1) texts with
        | error e =>
          rw [hfirst, hmore] at h
          cases h
        | ok more =>
          rw [hfirst, hmore] at h
          cases h
          obtain ⟨hmeans, hvalid⟩ := parseLine_eq_ok_iff.1 hfirst
          obtain ⟨hrest, htail⟩ := ih.1 hmore
          exact ⟨⟨hvalid, hrest⟩, .cons hmeans htail⟩
    · rintro ⟨⟨hvalid, hrest⟩, hmeans⟩
      cases hmeans with
      | cons hfirst htail =>
        rw [parseLine_eq_ok_iff.2 ⟨hfirst, hvalid⟩, ih.2 ⟨hrest, htail⟩]
        rfl

theorem parse_eq (maxLines : Nat) (source : String) :
    parse maxLines source =
      if maxLines < (lines source.toList).length then .error (.tooManyLines maxLines)
      else (parseLines 1 (lines source.toList)).map (List.filterMap id) := by
  unfold parse
  dsimp only
  split
  · rfl
  · show (parseLines 1 (lines source.toList) >>= fun found => pure (found.filterMap id)) = _
    cases parseLines 1 (lines source.toList) with
    | error e => rfl
    | ok reads => rfl

theorem parse_eq_error_iff {maxLines : Nat} {source : String} :
    parse maxLines source = .error e ↔
      maxLines < (tokensOf (lines source.toList)).length ∧ e = .tooManyLines maxLines ∨
        (tokensOf (lines source.toList)).length ≤ maxLines ∧
          FirstOffence 1 (tokensOf (lines source.toList)) e := by
  rw [parse_eq, ← parseLines_eq_error_iff, tokensOf, List.length_map]
  split
  · next hlong =>
    have hlimit : ¬ (lines source.toList).length ≤ maxLines := Nat.not_le.2 hlong
    simp only [hlong, hlimit, true_and, false_and, or_false, Except.error.injEq]
    exact eq_comm
  · next hshort =>
    simp only [hshort, Nat.not_lt.1 hshort, true_and, false_and, false_or]
    cases parseLines 1 (lines source.toList) with
    | error e' => simp only [Except.map, Except.error.injEq]
    | ok reads => exact ⟨nofun, nofun⟩

theorem parse_eq_ok_iff {maxLines : Nat} {source : String} {program : List Instruction} :
    parse maxLines source = .ok program ↔
      (tokensOf (lines source.toList)).length ≤ maxLines ∧
        (∀ found ∈ tokensOf (lines source.toList), Valid found) ∧
        ∃ reads, List.Forall₂ Means (tokensOf (lines source.toList)) reads ∧
          program = reads.filterMap id := by
  rw [parse_eq, tokensOf, List.length_map]
  split
  · next hlong =>
    constructor
    · exact nofun
    · rintro ⟨hlimit, -⟩
      omega
  · next hshort =>
    constructor
    · intro h
      cases hreads : parseLines 1 (lines source.toList) with
      | error e =>
        rw [hreads] at h
        cases h
      | ok reads =>
        rw [hreads] at h
        cases h
        obtain ⟨hvalid, hmeans⟩ := parseLines_eq_ok_iff.1 hreads
        exact ⟨Nat.not_lt.1 hshort, hvalid, reads, hmeans, rfl⟩
    · rintro ⟨-, hvalid, reads, hmeans, rfl⟩
      rw [parseLines_eq_ok_iff.2 ⟨hvalid, hmeans⟩]
      rfl

/--
Parsing follows the grammar. It fails if there are too many lines, or else with the first offence
and the number of its line, whatever the lines behind it hold. Without an offence every line that
is not skipped is one instruction.
-/
theorem parse_exact (maxLines : Nat) (source : String) :
    ∃ tokens, Tokenized source.toList tokens ∧
      (∀ other, Tokenized source.toList other → other = tokens) ∧
      (∀ e, parse maxLines source = .error e ↔
        maxLines < tokens.length ∧ e = .tooManyLines maxLines ∨
          tokens.length ≤ maxLines ∧ FirstOffence 1 tokens e) ∧
      ∀ program, parse maxLines source = .ok program ↔
        tokens.length ≤ maxLines ∧ (∀ found ∈ tokens, Valid found) ∧
          ∃ reads, List.Forall₂ Means tokens reads ∧ program = reads.filterMap id := by
  refine ⟨tokensOf (lines source.toList), tokenized_iff.2 rfl, fun _ => tokenized_iff.1, ?_, ?_⟩
  · exact fun e => parse_eq_error_iff
  · exact fun program => parse_eq_ok_iff

-- A comment ends the value, and the offence behind the blank line has the number of its line
example : parse 3 "StoreFav url http://host" = .ok [.store "url" "http:"] := by
  rfl

example : parse 3 "LOADFAV url\r\n\nDELFAV // url" = .error (.missingKey 3 .delete) := by
  rfl

end Source

end SealedVault
