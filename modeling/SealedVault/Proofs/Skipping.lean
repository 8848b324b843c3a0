import SealedVault.Proofs.Scanning

/-!
This module contains the skipping of values against the grammar. Main statement: `skipValue_append`,
so a value of any kind and depth is skipped exactly, whatever follows it.
-/

namespace SealedVault.Json

section Texts

/-- The byte of the opening bracket. -/
def Frame.opening : Frame → UInt8
  | list => ascii '['
  | object => ascii '\x7b'

@[simp]
theorem Frame.opening?_opening (frame : Frame) : Frame.opening? frame.opening = some frame := by
  cases frame <;> rfl

@[simp]
theorem Frame.isBlank_opening (frame : Frame) : isBlank frame.opening = false := by
  cases frame <;> rfl

@[simp]
theorem Frame.isBlank_closing (frame : Frame) : isBlank frame.closing = false := by
  cases frame <;> rfl

theorem utf8_enclose (frame : Frame) (inner : String) (bytes : Bytes) :
    utf8 (frame.enclose inner) ++ bytes =
      frame.opening :: (utf8 inner ++ frame.closing :: bytes) := by
  cases frame <;> (simp only [Frame.enclose, utf8_append, List.append_assoc]; rfl)

theorem utf8_comma (front back : String) (bytes : Bytes) :
    utf8 (front ++ "," ++ back) ++ bytes = utf8 front ++ ascii ',' :: (utf8 back ++ bytes) := by
  simp only [utf8_append, List.append_assoc]
  rfl

theorem utf8_item (lead before value after : String) (bytes : Bytes) :
    utf8 (lead ++ before ++ value ++ after) ++ bytes =
      utf8 lead ++ (utf8 before ++ (utf8 value ++ (utf8 after ++ bytes))) := by
  simp only [utf8_append, List.append_assoc]

theorem utf8_keyed (before key after : String) (bytes : Bytes) :
    utf8 (keyed before key after) ++ bytes =
      utf8 before ++ ascii '"' ::
        (utf8 key ++ ascii '"' :: (utf8 after ++ ascii ':' :: bytes)) := by
  simp only [keyed, utf8_append, List.append_assoc]
  rfl

theorem skipBlanks_keyed {before : String} (h : IsBlanks before) (key after : String)
    (bytes : Bytes) :
    skipBlanks (utf8 (keyed before key after) ++ bytes) =
      ascii '"' :: (utf8 key ++ ascii '"' :: (utf8 after ++ ascii ':' :: bytes)) := by
  rw [utf8_keyed, skipBlanks_append h, skipBlanks_cons rfl]

end Texts

section Steps

/-- The bytes behind an item of a container and behind all containers around it. -/
def skipItem (frame : Frame) (frames : List Frame) (bytes : Bytes) : Except Fault Bytes := do
  skipValue (frame :: frames) (← skipToValue frame bytes)

/-- Skips the content of a container, from behind its opening bracket. -/
def skipInside (frame : Frame) (frames : List Frame) (bytes : Bytes) : Except Fault Bytes :=
  match skipBlanks bytes with
  | [] => .error .truncated
  | next :: rest =>
    if next = frame.closing then skipRest frames rest else skipItem frame frames (next :: rest)

/-- The recursion without the facts that end it. -/
theorem skipValue_eq (frames : List Frame) (bytes : Bytes) :
    skipValue frames bytes =
      match skipBlanks bytes with
      | [] => .error .truncated
      | byte :: behind =>
        match Frame.opening? byte with
        | some frame => skipInside frame frames behind
        | none => skipScalar (byte :: behind) >>= skipRest frames := by
  conv => lhs; unfold skipValue
  split
  · next hnil => rw [hnil]
  · next byte behind hcons =>
    simp only [hcons]
    cases Frame.opening? byte with
    | some frame =>
      dsimp only
      split
      · next hnil => simp only [skipInside, hnil]
      · next hnext =>
        simp only [skipInside, hnext, skipItem]
        split
        · rfl
        · split
          · next hfault => rw [hfault]; rfl
          · next hok => rw [hok]; rfl
    | none =>
      dsimp only
      split
      · next hfault => rw [hfault]; rfl
      · next hok => rw [hok]; rfl

theorem skipRest_nil (bytes : Bytes) : skipRest [] bytes = .ok bytes := by
  unfold skipRest
  rfl

theorem skipRest_cons (frame : Frame) (frames : List Frame) (bytes : Bytes) :
    skipRest (frame :: frames) bytes =
      match skipBlanks bytes with
      | [] => .error .truncated
      | byte :: behind =>
        if byte = ascii ',' then skipItem frame frames behind
        else if byte = frame.closing then skipRest frames behind
        else .error .malformed := by
  conv => lhs; unfold skipRest
  dsimp only
  split
  · next hnil => rw [hnil]
  · next hcons =>
    simp only [hcons, skipItem]
    split
    · split
      · next hfault => rw [hfault]; rfl
      · next hok => rw [hok]; rfl
    · rfl

theorem skipValue_skipBlanks (frames : List Frame) (bytes : Bytes) :
    skipValue frames (skipBlanks bytes) = skipValue frames bytes := by
  rw [skipValue_eq, skipValue_eq, skipBlanks_skipBlanks]

theorem skipItem_skipBlanks (frame : Frame) (frames : List Frame) (bytes : Bytes) :
    skipItem frame frames (skipBlanks bytes) = skipItem frame frames bytes := by
  cases frame with
  | list => exact skipValue_skipBlanks _ bytes
  | object => simp only [skipItem, skipToValue, skipKey, skipMark, skipBlanks_skipBlanks]

theorem skipValue_blanks {blanks : String} (h : IsBlanks blanks) (frames : List Frame)
    (bytes : Bytes) : skipValue frames (utf8 blanks ++ bytes) = skipValue frames bytes := by
  rw [← skipValue_skipBlanks, skipBlanks_append h, skipValue_skipBlanks]

end Steps

section Starts

/-- A byte that a value can start with, so it neither is skipped nor ends a list. -/
def StartsValue (byte : UInt8) : Prop :=
  isBlank byte = false ∧ byte ≠ ascii ']'

/-- A byte that a value can start with if it is no container. -/
def StartsScalar (byte : UInt8) : Prop :=
  StartsValue byte ∧ Frame.opening? byte = none

theorem startsScalar_of_startsNumber {byte : UInt8} (h : startsNumber byte = true) :
    StartsScalar byte := by
  have hne {other : UInt8} (hother : startsNumber other = false) : byte ≠ other := by
    rintro rfl
    cases h.symm.trans hother
  have hblank : isBlank byte = false := by
    simp only [isBlank, Bool.or_eq_false_iff, decide_eq_false_iff_not]
    exact ⟨⟨⟨hne rfl, hne rfl⟩, hne rfl⟩, hne rfl⟩
  have hopening : Frame.opening? byte = none :=
    (if_neg (hne rfl)).trans (if_neg (hne rfl))
  exact ⟨⟨hblank, hne rfl⟩, hopening⟩

theorem starts_word {word : String} (h : word ∈ ["null", "true", "false"]) :
    ∃ byte more, utf8 word = byte :: more ∧ StartsScalar byte := by
  simp only [List.mem_cons, List.not_mem_nil, or_false] at h
  rcases h with rfl | rfl | rfl
  · exact ⟨ascii 'n', nullTail, rfl, ⟨rfl, by decide⟩, rfl⟩
  · exact ⟨ascii 't', trueTail, rfl, ⟨rfl, by decide⟩, rfl⟩
  · exact ⟨ascii 'f', falseTail, rfl, ⟨rfl, by decide⟩, rfl⟩

theorem starts_number {number : String} (h : IsNumber number) :
    ∃ byte more, utf8 number = byte :: more ∧ StartsScalar byte := by
  obtain ⟨byte, more, hbytes, hstarts⟩ := startsNumber_of_isNumber h
  exact ⟨byte, more, hbytes, startsScalar_of_startsNumber hstarts⟩

theorem starts_text (inner : String) :
    ∃ byte more, utf8 ("\"" ++ inner ++ "\"") = byte :: more ∧ StartsScalar byte := by
  rw [utf8_append, utf8_append]
  exact ⟨ascii '"', _, rfl, ⟨rfl, by decide⟩, rfl⟩

theorem starts_enclose (frame : Frame) (inner : String) :
    ∃ byte more, utf8 (frame.enclose inner) = byte :: more ∧ StartsValue byte := by
  have hbytes := utf8_enclose frame inner []
  rw [List.append_nil] at hbytes
  exact ⟨frame.opening, _, hbytes, by cases frame <;> exact ⟨rfl, by decide⟩⟩

theorem starts_value {value : String} (h : IsValue value) :
    ∃ byte more, utf8 value = byte :: more ∧ StartsValue byte := by
  have hscalar (h : ∃ byte more, utf8 value = byte :: more ∧ StartsScalar byte) :
      ∃ byte more, utf8 value = byte :: more ∧ StartsValue byte := by
    obtain ⟨byte, more, hbytes, hstarts⟩ := h
    exact ⟨byte, more, hbytes, hstarts.1⟩
  cases h with
  | word h => exact hscalar (starts_word h)
  | number h => exact hscalar (starts_number h)
  | text _ => exact hscalar (starts_text _)
  | empty frame _ => exact starts_enclose frame _
  | container _ => exact starts_enclose _ _

end Starts

section Scalars

theorem skipScalar_word {word : String} (h : word ∈ ["null", "true", "false"]) (rest : Bytes) :
    skipScalar (utf8 word ++ rest) = .ok rest := by
  simp only [List.mem_cons, List.not_mem_nil, or_false] at h
  rcases h with rfl | rfl | rfl <;> rfl

theorem skipScalar_of_startsNumber {byte : UInt8} (h : startsNumber byte = true) (bytes : Bytes) :
    skipScalar (byte :: bytes) = skipNumeral (byte :: bytes) := by
  have hne : byte ≠ ascii 'n' ∧ byte ≠ ascii 't' ∧ byte ≠ ascii 'f' ∧ byte ≠ ascii '"' := by
    refine ⟨?_, ?_, ?_, ?_⟩ <;> (rintro rfl; cases h)
  simp only [skipScalar, hne, h, if_true, if_false]

theorem skipScalar_number {number : String} (h : IsNumber number) {rest : Bytes}
    (hrest : EndsNumeral rest) : skipScalar (utf8 number ++ rest) = .ok rest := by
  obtain ⟨numeral, hscan⟩ := scanNumeral_append h hrest
  obtain ⟨byte, more, hbytes, hstarts⟩ := startsNumber_of_isNumber h
  rw [hbytes, List.cons_append] at hscan ⊢
  rw [skipScalar_of_startsNumber hstarts, skipNumeral, hscan]

theorem skipScalar_text {inner : String} (h : IsQuotable inner) (rest : Bytes) :
    skipScalar (utf8 ("\"" ++ inner ++ "\"") ++ rest) = .ok rest := by
  rw [utf8_append, utf8_append, List.append_assoc, List.append_assoc]
  exact skipString_append h rest

end Scalars

section Values

theorem skipMark_append {blanks : String} (h : IsBlanks blanks) {mark : UInt8}
    (hmark : isBlank mark = false) (bytes : Bytes) :
    skipMark mark (utf8 blanks ++ mark :: bytes) = .ok bytes := by
  rw [skipMark, skipBlanks_append h, skipBlanks_cons hmark]
  exact if_pos rfl

theorem endsNumeral_closing (frame : Frame) (rest : Bytes) :
    EndsNumeral (frame.closing :: rest) := by
  intro byte hbyte
  cases hbyte
  cases frame <;> decide

theorem endsNumeral_comma (rest : Bytes) : EndsNumeral (ascii ',' :: rest) := by
  intro byte hbyte
  cases hbyte
  decide

theorem endsNumeral_append {blanks : String} (h : IsBlanks blanks) {rest : Bytes}
    (hrest : EndsNumeral rest) : EndsNumeral (utf8 blanks ++ rest) := by
  cases hbytes : utf8 blanks with
  | nil => exact hrest
  | cons byte more =>
    have hblank := isBlank_of_mem_utf8 h byte (hbytes ▸ List.mem_cons_self)
    intro first hfirst
    cases hfirst
    simp only [isBlank, Bool.or_eq_true, decide_eq_true_eq] at hblank
    rcases hblank with ((rfl | rfl) | rfl) | rfl <;> decide

theorem skipKey_keyed {before key after : String} (hbefore : IsBlanks before)
    (hkey : IsQuotable key) (hafter : IsBlanks after) (bytes : Bytes) :
    skipKey (utf8 (keyed before key after) ++ bytes) = .ok bytes := by
  rw [utf8_keyed, skipKey, skipMark_append hbefore rfl]
  simp only [bind, Except.bind, skipString_append hkey]
  exact skipMark_append hafter rfl bytes

theorem skipItem_lead {frame : Frame} {lead : String} (h : IsLead frame lead) (frames : List Frame)
    (bytes : Bytes) :
    skipItem frame frames (utf8 lead ++ bytes) = skipValue (frame :: frames) bytes := by
  cases h with
  | element => rfl
  | key hbefore hkey hafter =>
    rw [skipItem, skipToValue, skipKey_keyed hbefore hkey hafter]
    rfl

theorem starts_item {frame : Frame} {item : String} (h : IsItem frame item) (bytes : Bytes) :
    ∃ byte more, skipBlanks (utf8 item ++ bytes) = byte :: more ∧ byte ≠ frame.closing := by
  obtain @⟨_, lead, before, value, after, hlead, hbefore, hvalue, hafter⟩ := h
  rw [utf8_item]
  cases hlead with
  | element =>
    obtain ⟨byte, more, hbytes, hblank, hclosing⟩ := starts_value hvalue
    show ∃ byte more, skipBlanks (utf8 before ++ (utf8 value ++ _)) = byte :: more ∧ _
    rw [skipBlanks_append hbefore, hbytes, List.cons_append, skipBlanks_cons hblank]
    exact ⟨byte, _, rfl, hclosing⟩
  | key hblanks _ _ => exact ⟨_, _, skipBlanks_keyed hblanks _ _ _, by decide⟩

theorem starts_items {frame : Frame} {items : String} (h : IsItems frame items)
    (bytes : Bytes) :
    ∃ byte more, skipBlanks (utf8 items ++ bytes) = byte :: more ∧ byte ≠ frame.closing := by
  cases h with
  | last h => exact starts_item h bytes
  | cons h _ =>
    rw [utf8_comma]
    exact starts_item h _

theorem skipInside_append {frame : Frame} {items : String} (h : IsItems frame items)
    (frames : List Frame) (bytes : Bytes) :
    skipInside frame frames (utf8 items ++ bytes) =
      skipItem frame frames (utf8 items ++ bytes) := by
  obtain ⟨byte, more, hbytes, hclosing⟩ := starts_items h bytes
  rw [← skipItem_skipBlanks, skipInside, hbytes]
  exact if_neg hclosing

theorem skipValue_enclose (frame : Frame) (frames : List Frame) (inner : String) (bytes : Bytes) :
    skipValue frames (utf8 (frame.enclose inner) ++ bytes) =
      skipInside frame frames (utf8 inner ++ frame.closing :: bytes) := by
  rw [utf8_enclose, skipValue_eq, skipBlanks_cons frame.isBlank_opening]
  simp only [Frame.opening?_opening]

theorem skipValue_scalar {value : String} {rest : Bytes}
    (hstarts : ∃ byte more, utf8 value = byte :: more ∧ StartsScalar byte)
    (h : skipScalar (utf8 value ++ rest) = .ok rest) (frames : List Frame) :
    skipValue frames (utf8 value ++ rest) = skipRest frames rest := by
  obtain ⟨byte, more, hbytes, ⟨hblank, _⟩, hopening⟩ := hstarts
  rw [hbytes, List.cons_append] at h ⊢
  rw [skipValue_eq, skipBlanks_cons hblank]
  simp only [hopening, h]
  rfl

theorem skipRest_comma {frame : Frame} (frames : List Frame) (bytes : Bytes) :
    skipRest (frame :: frames) (ascii ',' :: bytes) = skipItem frame frames bytes := by
  rw [skipRest_cons, skipBlanks_cons rfl]
  exact if_pos rfl

theorem skipRest_closing (frame : Frame) (frames : List Frame) (bytes : Bytes) :
    skipRest (frame :: frames) (frame.closing :: bytes) = skipRest frames bytes := by
  have hcomma : frame.closing ≠ ascii ',' := by cases frame <;> decide
  rw [skipRest_cons, skipBlanks_cons frame.isBlank_closing]
  exact (if_neg hcomma).trans (if_pos rfl)

theorem skipRest_blanks {blanks : String} (h : IsBlanks blanks) (frame : Frame)
    (frames : List Frame) (bytes : Bytes) :
    skipRest (frame :: frames) (utf8 blanks ++ bytes) = skipRest (frame :: frames) bytes := by
  rw [skipRest_cons, skipRest_cons, skipBlanks_append h]

mutual

/-- A value is left behind exactly. It remains to leave the containers around it. -/
theorem skipValue_append {value : String} (h : IsValue value) (frames : List Frame) {rest : Bytes}
    (hrest : EndsNumeral rest) :
    skipValue frames (utf8 value ++ rest) = skipRest frames rest :=
  match h with
  | .word h => skipValue_scalar (starts_word h) (skipScalar_word h rest) frames
  | .number h => skipValue_scalar (starts_number h) (skipScalar_number h hrest) frames
  | .text h => skipValue_scalar (starts_text _) (skipScalar_text h rest) frames
  | .empty frame h => by
    rw [skipValue_enclose, skipInside, skipBlanks_append h, skipBlanks_cons frame.isBlank_closing]
    exact if_pos rfl
  | .container h => by
    rw [skipValue_enclose, skipInside_append h]
    exact skipItem_items h frames rest

theorem skipItem_item {frame : Frame} {item : String} (h : IsItem frame item)
    (frames : List Frame) {rest : Bytes} (hrest : EndsNumeral rest) :
    skipItem frame frames (utf8 item ++ rest) = skipRest (frame :: frames) rest :=
  match h with
  | .intro hlead hbefore hvalue hafter => by
    rw [utf8_item, skipItem_lead hlead, skipValue_blanks hbefore,
      skipValue_append hvalue _ (endsNumeral_append hafter hrest), skipRest_blanks hafter]

theorem skipItem_items {frame : Frame} {items : String} (h : IsItems frame items)
    (frames : List Frame) (rest : Bytes) :
    skipItem frame frames (utf8 items ++ frame.closing :: rest) = skipRest frames rest :=
  match h with
  | .last h => by
    rw [skipItem_item h frames (endsNumeral_closing frame rest), skipRest_closing]
  | .cons h hitems => by
    rw [utf8_comma, skipItem_item h frames (endsNumeral_comma _), skipRest_comma]
    exact skipItem_items hitems frames rest

end

end Values

end SealedVault.Json
