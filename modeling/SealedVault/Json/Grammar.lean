import SealedVault.Json.Skip

/-!
This module contains the grammar of JSON, told without any reading: which texts are numbers, which
are strings and what a string spells, and which are values of any kind and depth.
-/

namespace SealedVault.Json

def IsBlanks (text : String) : Prop :=
  ∀ c ∈ text.toList, c = ' ' ∨ c = '\t' ∨ c = '\n' ∨ c = '\r'

instance (text : String) : Decidable (IsBlanks text) :=
  List.decidableBAll _ text.toList

section Numbers

/-- At least one digit. -/
def IsDigits (text : String) : Prop :=
  text ≠ "" ∧ ∀ c ∈ text.toList, c.isDigit

instance (text : String) : Decidable (IsDigits text) :=
  @instDecidableAnd _ _ _ (List.decidableBAll _ text.toList)

/-- A zero alone, or digits without a leading zero. -/
def IsWhole (text : String) : Prop :=
  text = "0" ∨ IsDigits text ∧ text.toList.head? ≠ some '0'

/-- Nothing, or a point with digits behind it. -/
def IsFraction (text : String) : Prop :=
  text = "" ∨ ∃ digits, IsDigits digits ∧ text = "." ++ digits

/-- Nothing, or a power of ten. -/
def IsExponent (text : String) : Prop :=
  text = "" ∨ ∃ mark ∈ ["e", "E"], ∃ sign ∈ ["", "+", "-"], ∃ digits, IsDigits digits ∧
    text = mark ++ sign ++ digits

def IsNumber (text : String) : Prop :=
  ∃ sign ∈ ["", "-"], ∃ whole fraction exponent,
    IsWhole whole ∧ IsFraction fraction ∧ IsExponent exponent ∧
    text = sign ++ whole ++ fraction ++ exponent

end Numbers

section Strings

/-- The letters that may stand behind a backslash, and what they stand for. -/
def shortEscapes : List (Char × Char) :=
  [('"', '"'), ('\\', '\\'), ('/', '/'), ('b', '\x08'), ('f', '\x0c'), ('n', '\n'), ('r', '\r'),
    ('t', '\t')]

/-- A character that stands for itself inside of quotes. -/
def IsPlain (c : Char) : Prop :=
  ' ' ≤ c ∧ c ≠ '"' ∧ c ≠ '\\'

instance (c : Char) : Decidable (IsPlain c) :=
  inferInstanceAs (Decidable (_ ∧ _))

/-- A hexadecimal digit in either case. -/
def IsHexDigit (c : Char) (value : Nat) : Prop :=
  value < 16 ∧ (c = Nat.digitChar value ∨ c = (Nat.digitChar value).toUpper)

/-- Four hexadecimal digits spell a number. -/
inductive IsUnit : String → Nat → Prop where
  | digits {a b c d : Char} {w x y z : Nat} :
    IsHexDigit a w → IsHexDigit b x → IsHexDigit c y → IsHexDigit d z →
      IsUnit (String.ofList [a, b, c, d]) (((w * 16 + x) * 16 + y) * 16 + z)

/-- What may stand inside of quotes. Escapes of lone surrogates are among it. -/
inductive IsQuotable : String → Prop where
  | nil : IsQuotable ""
  | plain {c : Char} {inner : String} :
    IsPlain c → IsQuotable inner → IsQuotable (String.singleton c ++ inner)
  | short {letter c : Char} {inner : String} :
    (letter, c) ∈ shortEscapes → IsQuotable inner →
      IsQuotable ("\\" ++ String.singleton letter ++ inner)
  | unit {digits inner : String} {value : Nat} :
    IsUnit digits value → IsQuotable inner → IsQuotable ("\\u" ++ digits ++ inner)

/-- What stands inside of quotes spells a text. A character beyond the first plane may be escaped by
a pair of surrogates. -/
inductive Spells : String → String → Prop where
  | nil : Spells "" ""
  | plain {c : Char} {inner text : String} :
    IsPlain c → Spells inner text →
      Spells (String.singleton c ++ inner) (String.singleton c ++ text)
  | short {letter c : Char} {inner text : String} :
    (letter, c) ∈ shortEscapes → Spells inner text →
      Spells ("\\" ++ String.singleton letter ++ inner) (String.singleton c ++ text)
  | unit {c : Char} {digits inner text : String} :
    IsUnit digits c.toNat → Spells inner text →
      Spells ("\\u" ++ digits ++ inner) (String.singleton c ++ text)
  | pair {c : Char} {high low inner text : String} :
    0x10000 ≤ c.toNat → IsUnit high (0xD800 + (c.toNat - 0x10000) / 0x400) →
      IsUnit low (0xDC00 + (c.toNat - 0x10000) % 0x400) → Spells inner text →
      Spells ("\\u" ++ high ++ "\\u" ++ low ++ inner) (String.singleton c ++ text)

end Strings

section Values

/-- A text inside of the brackets of a container. -/
def Frame.enclose : Frame → String → String
  | list, inner => "[" ++ inner ++ "]"
  | object, inner => "\x7b" ++ inner ++ "\x7d"

/-- A key in quotes with a colon behind it. -/
def keyed (before key after : String) : String :=
  before ++ "\"" ++ key ++ "\"" ++ after ++ ":"

/-- What stands before a value in a container: a key in an object, nothing in a list. -/
inductive IsLead : Frame → String → Prop where
  | element : IsLead .list ""
  | key {before key after : String} :
    IsBlanks before → IsQuotable key → IsBlanks after → IsLead .object (keyed before key after)

mutual

/-- A value, without blanks around it. -/
inductive IsValue : String → Prop where
  | word {text : String} : text ∈ ["null", "true", "false"] → IsValue text
  | number {text : String} : IsNumber text → IsValue text
  | text {inner : String} : IsQuotable inner → IsValue ("\"" ++ inner ++ "\"")
  | empty {blanks : String} (frame : Frame) : IsBlanks blanks → IsValue (frame.enclose blanks)
  | container {frame : Frame} {items : String} : IsItems frame items → IsValue (frame.enclose items)

/-- An element of a list or a member of an object. -/
inductive IsItem : Frame → String → Prop where
  | intro {frame : Frame} {lead before value after : String} :
    IsLead frame lead → IsBlanks before → IsValue value → IsBlanks after →
      IsItem frame (lead ++ before ++ value ++ after)

/-- What stands between the brackets of a container that is not empty. -/
inductive IsItems : Frame → String → Prop where
  | last {frame : Frame} {item : String} : IsItem frame item → IsItems frame item
  | cons {frame : Frame} {item items : String} :
    IsItem frame item → IsItems frame items → IsItems frame (item ++ "," ++ items)

end

end Values

end SealedVault.Json
