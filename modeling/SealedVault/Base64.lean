import SealedVault.Text.Utf8

/-!
This module contains Base64 with padding in its canonical form: three bytes become four digits, a
last group of one or two bytes is padded, and the digits' unused bits are zero. Main statement:
`digit_of_value?`, so no two characters stand for the same digit.
-/

namespace SealedVault.Base64

/-- The character of a digit below 64. -/
def digit (n : Nat) : Char :=
  if n < 26 then Char.ofNat ('A'.toNat + n)
  else if n < 52 then Char.ofNat ('a'.toNat + (n - 26))
  else if n < 62 then Char.ofNat ('0'.toNat + (n - 52))
  else if n = 62 then '+'
  else '/'

/-- The digit of a character. -/
def value? (c : Char) : Option Nat :=
  if 'A' ≤ c ∧ c ≤ 'Z' then some (c.toNat - 'A'.toNat)
  else if 'a' ≤ c ∧ c ≤ 'z' then some (c.toNat - 'a'.toNat + 26)
  else if '0' ≤ c ∧ c ≤ '9' then some (c.toNat - '0'.toNat + 52)
  else if c = '+' then some 62
  else if c = '/' then some 63
  else none

def padding : Char := '='

/-- The groups of four characters of some bytes. -/
def groups : Bytes → List Char
  | a :: b :: c :: rest =>
    let a := a.toNat
    let b := b.toNat
    let c := c.toNat
    digit (a / 4) :: digit (a % 4 * 16 + b / 16) :: digit (b % 16 * 4 + c / 64) :: digit (c % 64) ::
      groups rest
  | [a, b] =>
    let a := a.toNat
    let b := b.toNat
    [digit (a / 4), digit (a % 4 * 16 + b / 16), digit (b % 16 * 4), padding]
  | [a] =>
    let a := a.toNat
    [digit (a / 4), digit (a % 4 * 16), padding, padding]
  | [] => []

/-- The bytes of a last group of four characters, which may be padded. -/
def lastGroup? (p q r s : Char) : Option Bytes := do
  let p ← value? p
  let q ← value? q
  if r = padding then
    if s = padding ∧ q % 16 = 0 then
      some [UInt8.ofNat (p * 4 + q / 16)]
    else
      none
  else
    let r ← value? r
    if s = padding then
      if r % 4 = 0 then
        some [UInt8.ofNat (p * 4 + q / 16), UInt8.ofNat (q % 16 * 16 + r / 4)]
      else
        none
    else
      let s ← value? s
      some [UInt8.ofNat (p * 4 + q / 16), UInt8.ofNat (q % 16 * 16 + r / 4),
        UInt8.ofNat (r % 4 * 64 + s)]

/-- The bytes of a group of four characters that is not the last. -/
def fullGroup? (p q r s : Char) : Option Bytes := do
  let p ← value? p
  let q ← value? q
  let r ← value? r
  let s ← value? s
  some [UInt8.ofNat (p * 4 + q / 16), UInt8.ofNat (q % 16 * 16 + r / 4),
    UInt8.ofNat (r % 4 * 64 + s)]

/-- The bytes of a text in groups of four characters. -/
def ofGroups? : List Char → Option Bytes
  | [] => some []
  | [p, q, r, s] => lastGroup? p q r s
  | p :: q :: r :: s :: rest => do
    let front ← fullGroup? p q r s
    return front ++ (← ofGroups? rest)
  | _ => none

def encode (bytes : Bytes) : String :=
  String.ofList (groups bytes)

def decode? (text : String) : Option Bytes :=
  ofGroups? text.toList

theorem value?_digit {n : Nat} (h : n < 64) : value? (digit n) = some n := by
  revert h n
  decide

theorem digit_of_value? {c : Char} {n : Nat} (h : value? c = some n) : n < 64 ∧ digit n = c := by
  have hnat : Char.ofNat c.toNat = c := by simp
  have le (a b : Char) : a ≤ b ↔ a.toNat ≤ b.toNat := by
    exact UInt32.le_iff_toNat_le
  simp only [value?, le] at h
  have hA : 'A'.toNat = 65 := rfl
  have hZ : 'Z'.toNat = 90 := rfl
  have ha : 'a'.toNat = 97 := rfl
  have hz : 'z'.toNat = 122 := rfl
  have h0 : '0'.toNat = 48 := rfl
  have h9 : '9'.toNat = 57 := rfl
  rw [hA, hZ, ha, hz, h0, h9] at h
  repeat' split at h
  all_goals first
    | (simp only [Option.some.injEq] at h; subst h)
    | cases h
  · refine ⟨by omega, ?_⟩
    rw [digit, if_pos (by omega), hA, show 65 + (c.toNat - 65) = c.toNat by omega, hnat]
  · refine ⟨by omega, ?_⟩
    rw [digit, if_neg (by omega), if_pos (by omega), ha,
      show 97 + (c.toNat - 97 + 26 - 26) = c.toNat by omega, hnat]
  · refine ⟨by omega, ?_⟩
    rw [digit, if_neg (by omega), if_neg (by omega), if_pos (by omega), h0,
      show 48 + (c.toNat - 48 + 52 - 52) = c.toNat by omega, hnat]
  · next hc => subst hc; decide
  · next hc => subst hc; decide

end SealedVault.Base64
