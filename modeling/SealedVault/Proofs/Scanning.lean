import Mathlib.Data.List.DropRight
import SealedVault.Json.Grammar

/-!
This module contains the reading of blanks, numbers and strings against their grammar. Main
statements: `scanNumeral_append` and `skipString_append`, so numbers and strings are left behind
exactly, whatever follows them, `scanString_append`, so a string is read as the text it spells, and
`scanShape_natural`, so a natural number that fits 64 bits is read as itself.
-/

namespace SealedVault

section Bytes

theorem utf8_append (front back : String) : utf8 (front ++ back) = utf8 front ++ utf8 back := by
  simp [utf8, String.toByteArray_append]

theorem utf8_ofList (text : List Char) :
    utf8 (String.ofList text) = text.flatMap String.utf8EncodeChar := by
  simp [utf8, String.toByteArray_ofList, List.utf8Encode]

theorem utf8_eq_flatMap (text : String) :
    utf8 text = text.toList.flatMap String.utf8EncodeChar := by
  rw [← utf8_ofList, String.ofList_toList]

theorem utf8_singleton (c : Char) : utf8 (String.singleton c) = String.utf8EncodeChar c := by
  rw [utf8_eq_flatMap, String.toList_singleton, List.flatMap_singleton]

end Bytes

namespace Json

section Ascii

theorem toNat_ascii {c : Char} (h : c.toNat < 128) : (ascii c).toNat = c.toNat :=
  Nat.mod_eq_of_lt (Nat.lt_trans h (by decide))

theorem utf8EncodeChar_of_ascii {c : Char} (h : c.toNat < 128) :
    String.utf8EncodeChar c = [ascii c] := by
  have hv : c.val.toNat ≤ 127 := Nat.le_of_lt_succ h
  rw [String.utf8EncodeChar, if_pos hv]
  rfl

theorem le_of_mem_utf8EncodeChar {c : Char} (h : 128 ≤ c.toNat) {byte : UInt8}
    (hbyte : byte ∈ String.utf8EncodeChar c) : 128 ≤ byte.toNat := by
  have hv : ¬ c.val.toNat ≤ 127 := Nat.not_le.2 h
  rw [String.utf8EncodeChar, if_neg hv] at hbyte
  split at hbyte
  · simp at hbyte
    rcases hbyte with rfl | rfl <;> simp <;> omega
  · split at hbyte
    · simp at hbyte
      rcases hbyte with rfl | rfl | rfl <;> simp <;> omega
    · simp at hbyte
      rcases hbyte with rfl | rfl | rfl | rfl <;> simp <;> omega

theorem utf8_of_ascii {text : String} (h : ∀ c ∈ text.toList, c.toNat < 128) :
    utf8 text = text.toList.map ascii := by
  rw [utf8_eq_flatMap, List.map_eq_flatMap]
  apply List.flatMap_congr
  exact fun c hc => utf8EncodeChar_of_ascii (h c hc)

end Ascii

section Blanks

theorem isBlank_of_mem_utf8 {blanks : String} (h : IsBlanks blanks) :
    ∀ byte ∈ utf8 blanks, isBlank byte = true := by
  have hascii : ∀ c ∈ blanks.toList, c.toNat < 128 := by
    intro c hc
    rcases h c hc with rfl | rfl | rfl | rfl <;> decide
  rw [utf8_of_ascii hascii]
  intro byte hbyte
  obtain ⟨c, hc, rfl⟩ := List.mem_map.1 hbyte
  rcases h c hc with rfl | rfl | rfl | rfl <;> decide

theorem skipBlanks_append {blanks : String} (h : IsBlanks blanks) (bytes : Bytes) :
    skipBlanks (utf8 blanks ++ bytes) = skipBlanks bytes :=
  List.dropWhile_append_of_pos (isBlank_of_mem_utf8 h)

theorem skipBlanks_cons {byte : UInt8} (h : isBlank byte = false) (bytes : Bytes) :
    skipBlanks (byte :: bytes) = byte :: bytes :=
  List.dropWhile_cons_of_neg (Bool.not_eq_true _ ▸ h)

theorem skipBlanks_skipBlanks (bytes : Bytes) : skipBlanks (skipBlanks bytes) = skipBlanks bytes :=
  List.dropWhile_idempotent isBlank bytes

end Blanks

section Numbers

theorem isDigit_iff {byte : UInt8} : isDigit byte = true ↔ 48 ≤ byte.toNat ∧ byte.toNat ≤ 57 := by
  simp only [isDigit, Bool.and_eq_true, decide_eq_true_eq, UInt8.le_iff_toNat_le]
  exact Iff.rfl

theorem toNat_of_isDigit {c : Char} (h : c.isDigit = true) : 48 ≤ c.toNat ∧ c.toNat ≤ 57 := by
  simp only [Char.isDigit, Bool.and_eq_true, decide_eq_true_eq, UInt32.le_iff_toNat_le] at h
  exact h

theorem utf8_of_isDigit {digits : String} (h : ∀ c ∈ digits.toList, c.isDigit) :
    utf8 digits = digits.toList.map ascii := by
  apply utf8_of_ascii
  intro c hc
  have := toNat_of_isDigit (h c hc)
  omega

theorem isDigit_of_mem_utf8 {digits : String} (h : ∀ c ∈ digits.toList, c.isDigit) :
    ∀ byte ∈ utf8 digits, isDigit byte = true := by
  rw [utf8_of_isDigit h]
  intro byte hbyte
  obtain ⟨c, hc, rfl⟩ := List.mem_map.1 hbyte
  have hc := toNat_of_isDigit (h c hc)
  rw [isDigit_iff, toNat_ascii (by omega)]
  exact hc

/-- The values of the digits of a text. -/
def digitValues (digits : String) : List Nat :=
  (utf8 digits).map digitValue

/-- No digit goes on here. -/
def EndsDigits (bytes : Bytes) : Prop :=
  ∀ byte ∈ bytes.head?, isDigit byte = false

/-- No part of a numeral goes on here. -/
def EndsNumeral (bytes : Bytes) : Prop :=
  ∀ byte ∈ bytes.head?,
    isDigit byte = false ∧ byte ≠ ascii '.' ∧ byte ≠ ascii 'e' ∧ byte ≠ ascii 'E'

theorem EndsNumeral.endsDigits {bytes : Bytes} (h : EndsNumeral bytes) : EndsDigits bytes :=
  fun byte hbyte => (h byte hbyte).1

theorem scanDigits_append {digits : String} (h : ∀ c ∈ digits.toList, c.isDigit) {rest : Bytes}
    (hrest : EndsDigits rest) :
    scanDigits (utf8 digits ++ rest) = (digitValues digits, rest) := by
  have hdigits := isDigit_of_mem_utf8 h
  have hnone : rest.takeWhile isDigit = [] ∧ rest.dropWhile isDigit = rest := by
    cases rest with
    | nil => exact ⟨rfl, rfl⟩
    | cons byte behind =>
      have hbyte : ¬ isDigit byte = true := by simp [hrest byte rfl]
      exact ⟨List.takeWhile_cons_of_neg hbyte, List.dropWhile_cons_of_neg hbyte⟩
  rw [scanDigits, List.takeWhile_append_of_pos hdigits, List.dropWhile_append_of_pos hdigits,
    hnone.1, hnone.2, List.append_nil]
  rfl

theorem digitValues_ne_nil {digits : String} (h : IsDigits digits) : digitValues digits ≠ [] := by
  intro hnil
  have hbytes : utf8 digits = utf8 "" := List.map_eq_nil_iff.1 hnil
  exact h.1 (utf8_injective hbytes)

theorem head?_digitValues {digits : String} (h : ∀ c ∈ digits.toList, c.isDigit)
    (hzero : (digitValues digits).head? = some 0) : digits.toList.head? = some '0' := by
  rw [digitValues, utf8_of_isDigit h] at hzero
  cases hd : digits.toList with
  | nil =>
    rw [hd] at hzero
    cases hzero
  | cons c more =>
    rw [hd] at h hzero
    have hc := toNat_of_isDigit (h c List.mem_cons_self)
    have hvalue : digitValue (ascii c) = 0 := Option.some.inj hzero
    rw [digitValue, toNat_ascii (by omega), toNat_ascii (by decide)] at hvalue
    have hnat : c.toNat = '0'.toNat := Nat.le_antisymm (Nat.le_of_sub_eq_zero hvalue) hc.1
    rw [List.head?_cons, Char.toNat_inj.1 hnat]

theorem IsWhole.isDigits {whole : String} (h : IsWhole whole) : IsDigits whole := by
  obtain rfl | ⟨hdigits, _⟩ := h
  · decide
  · exact hdigits

theorem scanWhole_append {whole : String} (h : IsWhole whole) {rest : Bytes}
    (hrest : EndsDigits rest) : scanWhole (utf8 whole ++ rest) = .ok (digitValues whole, rest) := by
  rw [scanWhole, scanDigits_append h.isDigits.2 hrest]
  cases h with
  | inl hzero =>
    subst hzero
    rfl
  | inr hdigits =>
    dsimp only
    split
    · next hnil => exact absurd hnil (digitValues_ne_nil hdigits.1)
    · next hlead =>
      apply absurd _ hdigits.2
      apply head?_digitValues hdigits.1.2
      rw [hlead]
      rfl
    · rfl

theorem scanFraction_of_ends {rest : Bytes} (h : rest.head? ≠ some (ascii '.')) :
    scanFraction rest = .ok ([], rest) := by
  cases rest with
  | nil => rfl
  | cons byte behind =>
    have hbyte : byte ≠ ascii '.' := fun heq => h (congrArg some heq)
    exact if_neg hbyte

theorem scanExponent_of_ends {rest : Bytes} (h : EndsNumeral rest) :
    scanExponent rest = .ok (none, rest) := by
  cases rest with
  | nil => rfl
  | cons byte behind =>
    have hbyte : ¬ (byte = ascii 'e' || byte = ascii 'E') = true := by
      simp [(h byte rfl).2.2.1, (h byte rfl).2.2.2]
    exact if_neg hbyte

theorem scanFraction_append {fraction : String} (h : IsFraction fraction) {rest : Bytes}
    (hrest : EndsDigits rest) (hpoint : rest.head? ≠ some (ascii '.')) :
    ∃ digits, scanFraction (utf8 fraction ++ rest) = .ok (digits, rest) := by
  obtain rfl | ⟨digits, hdigits, rfl⟩ := h
  · exact ⟨[], scanFraction_of_ends hpoint⟩
  · have hne := digitValues_ne_nil hdigits
    have hbytes : utf8 ("." ++ digits) ++ rest = ascii '.' :: (utf8 digits ++ rest) := by
      rw [utf8_append, List.append_assoc]
      rfl
    use digitValues digits
    rw [hbytes, scanFraction, if_pos rfl, scanDigits_append hdigits.2 hrest]
    simp [hne]

theorem exists_utf8_of_isDigits {digits : String} (h : IsDigits digits) :
    ∃ byte more, utf8 digits = byte :: more ∧ isDigit byte = true := by
  cases hbytes : utf8 digits with
  | nil => exact absurd (utf8_injective hbytes) h.1
  | cons byte more =>
    exact ⟨byte, more, rfl, isDigit_of_mem_utf8 h.2 byte (hbytes ▸ List.mem_cons_self)⟩

theorem scanSign_append {sign : String} (hsign : sign ∈ ["", "+", "-"]) {digits : String}
    (h : IsDigits digits) (rest : Bytes) :
    ∃ isNegative, scanSign (utf8 sign ++ (utf8 digits ++ rest)) =
      (isNegative, utf8 digits ++ rest) := by
  simp only [List.mem_cons, List.not_mem_nil, or_false] at hsign
  rcases hsign with rfl | rfl | rfl
  · obtain ⟨byte, more, hbytes, hbyte⟩ := exists_utf8_of_isDigits h
    have hminus : byte ≠ ascii '-' := by rintro rfl; cases hbyte
    have hplus : byte ≠ ascii '+' := by rintro rfl; cases hbyte
    use false
    rw [hbytes]
    exact (if_neg hminus).trans (if_neg hplus)
  · exact ⟨false, rfl⟩
  · exact ⟨true, rfl⟩

theorem scanExponent_append {exponent : String} (h : IsExponent exponent) {rest : Bytes}
    (hrest : EndsNumeral rest) :
    ∃ power, scanExponent (utf8 exponent ++ rest) = .ok (power, rest) := by
  obtain rfl | ⟨mark, hmark, sign, hsign, digits, hdigits, rfl⟩ := h
  · exact ⟨none, scanExponent_of_ends hrest⟩
  · have hne := digitValues_ne_nil hdigits
    obtain ⟨letter, hletter, hmark⟩ : ∃ letter, (letter = ascii 'e' || letter = ascii 'E') = true ∧
        utf8 mark = [letter] := by
      simp only [List.mem_cons, List.not_mem_nil, or_false] at hmark
      rcases hmark with rfl | rfl
      · exact ⟨ascii 'e', rfl, rfl⟩
      · exact ⟨ascii 'E', rfl, rfl⟩
    obtain ⟨isNegative, hsign⟩ := scanSign_append hsign hdigits rest
    use some (isNegative, digitValues digits)
    rw [utf8_append, utf8_append, hmark, List.append_assoc, List.append_assoc,
      List.singleton_append, scanExponent, if_pos hletter, hsign]
    dsimp only
    rw [scanDigits_append hdigits.2 hrest.endsDigits]
    simp [hne]

theorem endsDigits_exponent {exponent : String} (h : IsExponent exponent) {rest : Bytes}
    (hrest : EndsNumeral rest) : EndsDigits (utf8 exponent ++ rest) ∧
      (utf8 exponent ++ rest).head? ≠ some (ascii '.') := by
  obtain rfl | ⟨mark, hmark, sign, hsign, digits, hdigits, rfl⟩ := h
  · exact ⟨hrest.endsDigits, fun hhead => (hrest _ hhead).2.1 rfl⟩
  · rw [utf8_append, utf8_append]
    simp only [List.mem_cons, List.not_mem_nil, or_false] at hmark
    rcases hmark with rfl | rfl
    · exact ⟨fun byte hbyte => by cases hbyte; decide, by rintro ⟨⟩⟩
    · exact ⟨fun byte hbyte => by cases hbyte; decide, by rintro ⟨⟩⟩

theorem endsDigits_fraction {fraction : String} (h : IsFraction fraction) {rest : Bytes}
    (hrest : EndsDigits rest) : EndsDigits (utf8 fraction ++ rest) := by
  obtain rfl | ⟨digits, hdigits, rfl⟩ := h
  · exact hrest
  · rw [utf8_append]
    intro byte hbyte
    cases hbyte
    decide

theorem scanUnsigned_append (isNegative : Bool) {whole fraction exponent : String}
    (hwhole : IsWhole whole) (hfraction : IsFraction fraction) (hexponent : IsExponent exponent)
    {rest : Bytes} (hrest : EndsNumeral rest) :
    ∃ digits power, scanUnsigned isNegative
        (utf8 whole ++ (utf8 fraction ++ (utf8 exponent ++ rest))) =
      .ok (⟨isNegative, digitValues whole, digits, power⟩, rest) := by
  obtain ⟨hends, hpoint⟩ := endsDigits_exponent hexponent hrest
  obtain ⟨digits, hdigits⟩ := scanFraction_append hfraction hends hpoint
  obtain ⟨power, hpower⟩ := scanExponent_append hexponent hrest
  use digits, power
  simp only [scanUnsigned, scanWhole_append hwhole (endsDigits_fraction hfraction hends), hdigits,
    hpower, bind, Except.bind]
  rfl

theorem scanNumeral_of_isDigit {byte : UInt8} (h : isDigit byte = true) (bytes : Bytes) :
    scanNumeral (byte :: bytes) = scanUnsigned false (byte :: bytes) := by
  have hminus : byte ≠ ascii '-' := by rintro rfl; cases h
  exact if_neg hminus

theorem scanNumeral_append {number : String} (h : IsNumber number) {rest : Bytes}
    (hrest : EndsNumeral rest) :
    ∃ numeral, scanNumeral (utf8 number ++ rest) = .ok (numeral, rest) := by
  obtain ⟨sign, hsign, whole, fraction, exponent, hwhole, hfraction, hexponent, rfl⟩ := h
  rw [utf8_append, utf8_append, utf8_append]
  simp only [List.append_assoc]
  simp only [List.mem_cons, List.not_mem_nil, or_false] at hsign
  rcases hsign with rfl | rfl
  · obtain ⟨digits, power, hscan⟩ := scanUnsigned_append false hwhole hfraction hexponent hrest
    obtain ⟨byte, more, hbytes, hbyte⟩ := exists_utf8_of_isDigits hwhole.isDigits
    rw [hbytes] at hscan ⊢
    exact ⟨_, (scanNumeral_of_isDigit hbyte _).trans hscan⟩
  · obtain ⟨digits, power, hscan⟩ := scanUnsigned_append true hwhole hfraction hexponent hrest
    exact ⟨_, hscan⟩

theorem startsNumber_of_isNumber {number : String} (h : IsNumber number) :
    ∃ byte more, utf8 number = byte :: more ∧ startsNumber byte = true := by
  obtain ⟨sign, hsign, whole, fraction, exponent, hwhole, hfraction, hexponent, rfl⟩ := h
  obtain ⟨byte, more, hbytes, hbyte⟩ := exists_utf8_of_isDigits hwhole.isDigits
  rw [utf8_append, utf8_append, utf8_append, hbytes]
  simp only [List.mem_cons, List.not_mem_nil, or_false] at hsign
  rcases hsign with rfl | rfl
  · exact ⟨byte, _, rfl, by simp [startsNumber, hbyte]⟩
  · exact ⟨ascii '-', _, rfl, rfl⟩

end Numbers

section Strings

theorem toNat_lt_of_isHexDigit {c : Char} {value : Nat} (h : IsHexDigit c value) :
    c.toNat < 128 := by
  have hall : ∀ value < 16, (Nat.digitChar value).toNat < 128 ∧
      (Nat.digitChar value).toUpper.toNat < 128 := by decide
  obtain ⟨hlt, rfl | rfl⟩ := h
  · exact (hall value hlt).1
  · exact (hall value hlt).2

theorem hexValue?_of_isHexDigit {c : Char} {value : Nat} (h : IsHexDigit c value) :
    hexValue? (ascii c) = some value := by
  have hall : ∀ value < 16, hexValue? (ascii (Nat.digitChar value)) = some value ∧
      hexValue? (ascii (Nat.digitChar value).toUpper) = some value := by decide
  obtain ⟨hlt, rfl | rfl⟩ := h
  · exact (hall value hlt).1
  · exact (hall value hlt).2

theorem scanUnit_append {digits : String} {unit : Nat} (h : IsUnit digits unit) (rest : Bytes) :
    scanUnit (utf8 digits ++ rest) = .ok (unit, rest) := by
  cases h with
  | @digits a b c d w x y z ha hb hc hd =>
    have hascii : ∀ letter ∈ (String.ofList [a, b, c, d]).toList, letter.toNat < 128 := by
      simp [toNat_lt_of_isHexDigit ha, toNat_lt_of_isHexDigit hb, toNat_lt_of_isHexDigit hc,
        toNat_lt_of_isHexDigit hd]
    rw [utf8_of_ascii hascii, String.toList_ofList]
    simp [scanUnit, hexValue?_of_isHexDigit ha, hexValue?_of_isHexDigit hb,
      hexValue?_of_isHexDigit hc, hexValue?_of_isHexDigit hd]

theorem shortEscape?_of_mem {letter c : Char} (h : (letter, c) ∈ shortEscapes) :
    utf8 (String.singleton letter) = [ascii letter] ∧ ascii letter ≠ ascii 'u' ∧
      shortEscape? (ascii letter) = some c := by
  have hall : ∀ p ∈ shortEscapes, utf8 (String.singleton p.1) = [ascii p.1] ∧
      ascii p.1 ≠ ascii 'u' ∧ shortEscape? (ascii p.1) = some p.2 := by decide +kernel
  exact hall (letter, c) h

theorem scanEscape_short {letter c : Char} (h : (letter, c) ∈ shortEscapes) (rest : Bytes) :
    scanEscape (ascii letter :: rest) = .ok (c, rest) := by
  obtain ⟨-, hletter, hshort⟩ := shortEscape?_of_mem h
  simp [scanEscape, hletter, hshort]

theorem not_surrogate (c : Char) : isLeading c.toNat = false ∧ isTrailing c.toNat = false := by
  have hvalid : c.toNat < 0xD800 ∨ 0xDFFF < c.toNat ∧ c.toNat < 0x110000 := c.valid
  simp only [isLeading, isTrailing, Bool.and_eq_false_iff, decide_eq_false_iff_not]
  omega

theorem scanEscape_unit {c : Char} {digits : String} (h : IsUnit digits c.toNat) (rest : Bytes) :
    scanEscape (ascii 'u' :: (utf8 digits ++ rest)) = .ok (c, rest) := by
  obtain ⟨hleading, htrailing⟩ := not_surrogate c
  rw [scanEscape, if_pos rfl]
  simp only [scanCodePoint, scanUnit_append h, bind, Except.bind, htrailing, hleading]
  simp [pure, Except.pure]

theorem scanEscape_pair {c : Char} {high low : String} (hc : 0x10000 ≤ c.toNat)
    (hhigh : IsUnit high (0xD800 + (c.toNat - 0x10000) / 0x400))
    (hlow : IsUnit low (0xDC00 + (c.toNat - 0x10000) % 0x400)) (rest : Bytes) :
    scanEscape (ascii 'u' :: (utf8 high ++ ascii '\\' :: ascii 'u' :: (utf8 low ++ rest))) =
      .ok (c, rest) := by
  have hvalid : c.toNat < 0xD800 ∨ 0xDFFF < c.toNat ∧ c.toNat < 0x110000 := c.valid
  obtain ⟨n, hn⟩ : ∃ n, c.toNat = n + 0x10000 := ⟨c.toNat - 0x10000, by omega⟩
  rw [hn, Nat.add_sub_cancel] at hhigh hlow
  have hleading : isLeading (0xD800 + n / 0x400) = true := by
    simp [isLeading]
    omega
  have hfirst : isTrailing (0xD800 + n / 0x400) = false := by
    simp [isTrailing]
    omega
  have htrailing : isTrailing (0xDC00 + n % 0x400) = true := by
    simp [isTrailing]
    omega
  have hchar : Char.ofNat ((0xD800 + n / 0x400 - 0xD800) * 0x400 + (0xDC00 + n % 0x400 - 0xDC00) +
      0x10000) = c := by
    rw [Nat.add_sub_cancel_left, Nat.add_sub_cancel_left, Nat.div_add_mod', ← hn, Char.ofNat_toNat]
  rw [scanEscape, if_pos rfl]
  simp only [scanCodePoint, scanUnit_append hhigh, scanUnit_append hlow, skipByte, bind,
    Except.bind, hleading, hfirst, htrailing, if_true, hchar]
  simp [pure, Except.pure]

/-- A byte that stands for itself inside of quotes. -/
def IsPlainByte (byte : UInt8) : Prop :=
  byte ≠ ascii '"' ∧ byte ≠ ascii '\\' ∧ ¬ byte < ascii ' '

theorem isPlainByte_of_mem {c : Char} (h : IsPlain c) :
    ∀ byte ∈ utf8 (String.singleton c), IsPlainByte byte := by
  rw [utf8_singleton]
  intro byte hbyte
  have hlt : byte < ascii ' ' ↔ byte.toNat < 32 := UInt8.lt_iff_toNat_lt
  rw [IsPlainByte, hlt, ← UInt8.toNat_inj.ne, ← UInt8.toNat_inj.ne]
  show byte.toNat ≠ 34 ∧ byte.toNat ≠ 92 ∧ ¬ byte.toNat < 32
  by_cases hc : c.toNat < 128
  · rw [utf8EncodeChar_of_ascii hc, List.mem_singleton] at hbyte
    rw [hbyte, toNat_ascii hc]
    obtain ⟨hspace, hquote, hslash⟩ := h
    have hspace : 32 ≤ c.toNat := hspace
    have hquote : c.toNat ≠ 34 := fun h => hquote (Char.toNat_inj.1 h)
    have hslash : c.toNat ≠ 92 := fun h => hslash (Char.toNat_inj.1 h)
    omega
  · have := le_of_mem_utf8EncodeChar (Nat.le_of_not_lt hc) hbyte
    omega

theorem go_plain {front : Bytes} (h : ∀ byte ∈ front, IsPlainByte byte) (done bytes : Bytes) :
    scanString.go done (front ++ bytes) = scanString.go (front.reverse ++ done) bytes := by
  induction front generalizing done with
  | nil => rfl
  | cons byte front ih =>
    obtain ⟨hquote, hslash, hcontrol⟩ := h byte List.mem_cons_self
    rw [List.cons_append, scanString.go, if_neg hquote, if_neg hslash, if_neg hcontrol,
      ih fun byte hbyte => h byte (List.mem_cons_of_mem _ hbyte)]
    simp

theorem go_escape {done behind rest : Bytes} {c : Char} (h : scanEscape behind = .ok (c, rest)) :
    scanString.go done (ascii '\\' :: behind) =
      scanString.go ((utf8 (String.singleton c)).reverse ++ done) rest := by
  rw [scanString.go, if_neg (by decide), if_pos rfl]
  split
  · next hfault => rw [h] at hfault; cases hfault
  · next hok => rw [h] at hok; cases hok; rfl

theorem utf8_short {letter c : Char} (h : (letter, c) ∈ shortEscapes) (inner : String)
    (bytes : Bytes) :
    utf8 ("\\" ++ String.singleton letter ++ inner) ++ bytes =
      ascii '\\' :: ascii letter :: (utf8 inner ++ bytes) := by
  rw [utf8_append, utf8_append, (shortEscape?_of_mem h).1]
  rfl

theorem utf8_unit (digits inner : String) (bytes : Bytes) :
    utf8 ("\\u" ++ digits ++ inner) ++ bytes =
      ascii '\\' :: ascii 'u' :: (utf8 digits ++ (utf8 inner ++ bytes)) := by
  rw [utf8_append, utf8_append, List.append_assoc, List.append_assoc]
  rfl

theorem go_spells {inner text : String} (h : Spells inner text) (done bytes : Bytes) :
    scanString.go done (utf8 inner ++ bytes) =
      scanString.go ((utf8 text).reverse ++ done) bytes := by
  -- The bytes so far are in reverse order, so the text that is still to come goes in front.
  have hcons (c : Char) (text : String) (done : Bytes) :
      (utf8 (String.singleton c ++ text)).reverse ++ done =
        (utf8 text).reverse ++ ((utf8 (String.singleton c)).reverse ++ done) := by
    rw [utf8_append, List.reverse_append, List.append_assoc]
  induction h generalizing done with
  | nil => rfl
  | plain hc _ ih =>
    rw [hcons, ← ih, utf8_append, List.append_assoc, go_plain (isPlainByte_of_mem hc)]
  | short hescape _ ih =>
    rw [hcons, ← ih, utf8_short hescape, go_escape (scanEscape_short hescape _)]
  | unit hdigits _ ih =>
    rw [hcons, ← ih, utf8_unit, go_escape (scanEscape_unit hdigits _)]
  | @pair c high low inner text hc hhigh hlow _ ih =>
    have hsplit : "\\u" ++ high ++ "\\u" ++ low ++ inner =
        "\\u" ++ high ++ ("\\u" ++ low ++ inner) := by
      simp only [String.append_assoc]
    rw [hcons, ← ih, hsplit, utf8_unit, utf8_unit, go_escape (scanEscape_pair hc hhigh hlow _)]

theorem scanString_append {inner text : String} (h : Spells inner text) (rest : Bytes) :
    scanString (utf8 inner ++ ascii '"' :: rest) = .ok (text, rest) := by
  rw [scanString, go_spells h, scanString.go, if_pos rfl, List.append_nil, List.reverse_reverse,
    ofUtf8?_utf8]

theorem skipString_plain {front : Bytes} (h : ∀ byte ∈ front, IsPlainByte byte) (bytes : Bytes) :
    skipString (front ++ bytes) = skipString bytes := by
  induction front with
  | nil => rfl
  | cons byte front ih =>
    obtain ⟨hquote, hslash, hcontrol⟩ := h byte List.mem_cons_self
    rw [List.cons_append, skipString, if_neg hquote, if_neg hslash, if_neg hcontrol]
    exact ih fun byte hbyte => h byte (List.mem_cons_of_mem _ hbyte)

theorem skipString_escape {behind rest : Bytes} (h : skipEscape behind = .ok rest) :
    skipString (ascii '\\' :: behind) = skipString rest := by
  rw [skipString, if_neg (by decide), if_pos rfl]
  split
  · next hfault => rw [h] at hfault; cases hfault
  · next hok => rw [h] at hok; cases hok; rfl

theorem skipString_append {inner : String} (h : IsQuotable inner) (rest : Bytes) :
    skipString (utf8 inner ++ ascii '"' :: rest) = .ok rest := by
  induction h with
  | nil =>
    show skipString (ascii '"' :: rest) = _
    rw [skipString, if_pos rfl]
  | plain hc _ ih =>
    rw [utf8_append, List.append_assoc, skipString_plain (isPlainByte_of_mem hc), ih]
  | @short letter c inner hescape _ ih =>
    obtain ⟨-, hletter, hshort⟩ := shortEscape?_of_mem hescape
    have hskip (bytes : Bytes) : skipEscape (ascii letter :: bytes) = .ok bytes := by
      simp [skipEscape, hletter, hshort]
    rw [utf8_short hescape, skipString_escape (hskip _), ih]
  | @unit digits inner value hdigits _ ih =>
    have hskip (bytes : Bytes) : skipEscape (ascii 'u' :: (utf8 digits ++ bytes)) = .ok bytes := by
      simp [skipEscape, scanUnit_append hdigits, Except.map]
    rw [utf8_unit, skipString_escape (hskip _), ih]

end Strings

section Decimals

theorem head?_toDigits {n : Nat} (h : 0 < n) : (Nat.toDigits 10 n).head? ≠ some '0' := by
  induction n using Nat.strongRecOn with
  | ind n ih =>
    by_cases hlt : n < 10
    · rw [Nat.toDigits_of_lt_base hlt]
      have hall : ∀ n < 10, 0 < n → some (Nat.digitChar n) ≠ some '0' := by decide
      exact hall n hlt h
    · rw [Nat.toDigits_of_base_le (by decide) (Nat.le_of_not_lt hlt),
        List.head?_append_of_ne_nil _ Nat.toDigits_ne_nil]
      exact ih (n / 10) (by omega) (by omega)

theorem toList_toString (n : Nat) : (toString n).toList = Nat.toDigits 10 n := by
  rw [Nat.toString_eq_ofList_toDigits, String.toList_ofList]

theorem isDigits_toString (n : Nat) : IsDigits (toString n) := by
  constructor
  · intro hempty
    have hnil := toList_toString n
    rw [hempty] at hnil
    exact Nat.toDigits_ne_nil hnil.symm
  · intro c hc
    rw [toList_toString] at hc
    exact Nat.isDigit_of_mem_toDigits (by decide) (by decide) hc

theorem isWhole_toString (n : Nat) : IsWhole (toString n) := by
  cases n with
  | zero => exact .inl rfl
  | succ n =>
    right
    rw [toList_toString]
    exact ⟨isDigits_toString _, head?_toDigits n.succ_pos⟩

theorem isNumber_toString (n : Nat) : IsNumber (toString n) := by
  use "", List.mem_cons_self, toString n, "", "", isWhole_toString n, .inl rfl, .inl rfl
  rw [String.empty_append, String.append_empty, String.append_empty]

theorem le_ofDigitChars (digits : List Char) (value : Nat) :
    value ≤ Nat.ofDigitChars 10 digits value := by
  induction digits generalizing value with
  | nil => rw [Nat.ofDigitChars_nil]
  | cons c digits ih =>
    rw [Nat.ofDigitChars_cons]
    have := ih (10 * value + (c.toNat - '0'.toNat))
    omega

theorem collect_of_le {limit value : Nat} {digits : List Char}
    (h : Nat.ofDigitChars 10 digits value ≤ limit) :
    collect limit value (digits.map fun c => c.toNat - '0'.toNat) =
      (Nat.ofDigitChars 10 digits value, []) := by
  induction digits generalizing value with
  | nil => rfl
  | cons c digits ih =>
    rw [Nat.ofDigitChars_cons, Nat.mul_comm] at h ⊢
    have hle := Nat.le_trans (le_ofDigitChars digits _) h
    rw [List.map_cons, collect, if_pos hle, ih h]

theorem digitValues_toString (n : Nat) :
    digitValues (toString n) = (Nat.toDigits 10 n).map fun c => c.toNat - '0'.toNat := by
  have hdigits := (isDigits_toString n).2
  rw [digitValues, utf8_of_isDigit hdigits, List.map_map, toList_toString]
  rw [toList_toString] at hdigits
  apply List.map_congr_left
  intro c hc
  have hc := toNat_of_isDigit (hdigits c hc)
  rw [Function.comp, digitValue, toNat_ascii (by omega), toNat_ascii (by decide)]

theorem number?_natural {n : Nat} (h : n ≤ maxSignificand) :
    Numeral.number? ⟨false, digitValues (toString n), [], none⟩ = some (.natural n) := by
  have hvalue : Nat.ofDigitChars 10 (Nat.toDigits 10 n) 0 = n := Nat.ofDigitChars_ten_toDigits
  have hcollect := collect_of_le (hvalue.symm ▸ h)
  rw [hvalue, ← digitValues_toString] at hcollect
  simp only [Numeral.number?, hcollect]
  rfl

theorem scanNumeral_natural (n : Nat) {rest : Bytes} (hrest : EndsNumeral rest) :
    scanNumeral (utf8 (toString n) ++ rest) =
      .ok (⟨false, digitValues (toString n), [], none⟩, rest) := by
  have hunsigned : scanUnsigned false (utf8 (toString n) ++ rest) =
      .ok (⟨false, digitValues (toString n), [], none⟩, rest) := by
    have hpoint : rest.head? ≠ some (ascii '.') := fun hhead => (hrest _ hhead).2.1 rfl
    simp only [scanUnsigned, scanWhole_append (isWhole_toString n) hrest.endsDigits,
      scanFraction_of_ends hpoint, scanExponent_of_ends hrest, bind, Except.bind]
    rfl
  obtain ⟨byte, more, hbytes, hbyte⟩ := exists_utf8_of_isDigits (isDigits_toString n)
  rw [hbytes] at hunsigned ⊢
  exact (scanNumeral_of_isDigit hbyte _).trans hunsigned

theorem scanShape_of_startsNumber {byte : UInt8} (h : startsNumber byte = true) (bytes : Bytes) :
    scanShape (byte :: bytes) = (do
      let (number, behind) ← scanNumber (byte :: bytes)
      return (.number number, behind)) := by
  have hne : byte ≠ ascii 'n' ∧ byte ≠ ascii 't' ∧ byte ≠ ascii 'f' ∧ byte ≠ ascii '"' ∧
      byte ≠ ascii '[' ∧ byte ≠ ascii '\x7b' := by
    refine ⟨?_, ?_, ?_, ?_, ?_, ?_⟩ <;> (rintro rfl; cases h)
  simp only [scanShape, hne, h, if_true, if_false]

/-- A natural number that fits 64 bits is read exactly. -/
theorem scanShape_natural {n : Nat} (h : n ≤ maxSignificand) {rest : Bytes}
    (hrest : EndsNumeral rest) :
    scanShape (utf8 (toString n) ++ rest) = .ok (.number (.natural n), rest) := by
  have hnumber : scanNumber (utf8 (toString n) ++ rest) = .ok (.natural n, rest) := by
    rw [scanNumber, scanNumeral_natural n hrest]
    simp only [bind, Except.bind, number?_natural h]
    rfl
  obtain ⟨byte, more, hbytes, hbyte⟩ := exists_utf8_of_isDigits (isDigits_toString n)
  rw [hbytes] at hnumber ⊢
  rw [List.cons_append] at hnumber ⊢
  rw [scanShape_of_startsNumber (by simp [startsNumber, hbyte]), hnumber]
  rfl

end Decimals

end Json

end SealedVault
