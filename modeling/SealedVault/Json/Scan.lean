import SealedVault.Text.Utf8

/-!
This module contains the pieces of JSON text that everything else is made of: blanks, fixed words,
digits and numerals, read off the front of some UTF-8 bytes.
-/

namespace SealedVault.Json

/-- What is wrong with a text that is not JSON. -/
inductive Fault where
  /-- The text ends where more has to follow. -/
  | truncated
  | malformed
deriving DecidableEq, Repr

/-- The byte of an ASCII character. -/
def ascii (c : Char) : UInt8 :=
  c.toUInt8

def isBlank (byte : UInt8) : Bool :=
  byte = ascii ' ' || byte = ascii '\t' || byte = ascii '\n' || byte = ascii '\r'

def skipBlanks (bytes : Bytes) : Bytes :=
  bytes.dropWhile isBlank

/-- Whether a missing piece is due to the end of the text. -/
def missing (bytes : Bytes) : Fault :=
  if bytes.isEmpty then .truncated else .malformed

/-- The bytes behind a fixed word. -/
def skipWord : Bytes → Bytes → Except Fault Bytes
  | [], bytes => .ok bytes
  | _ :: _, [] => .error .truncated
  | expected :: word, byte :: bytes =>
    if byte = expected then skipWord word bytes else .error .malformed

def isDigit (byte : UInt8) : Bool :=
  ascii '0' ≤ byte && byte ≤ ascii '9'

def digitValue (byte : UInt8) : Nat :=
  byte.toNat - (ascii '0').toNat

/-- The digits at the front, and the bytes behind them. -/
def scanDigits (bytes : Bytes) : List Nat × Bytes :=
  ((bytes.takeWhile isDigit).map digitValue, bytes.dropWhile isDigit)

/-- A number as it is written. -/
structure Numeral where
  isNegative : Bool
  whole : List Nat
  /-- The digits behind the point. -/
  fraction : List Nat
  /-- The digits of the exponent, and whether it is negative. -/
  exponent : Option (Bool × List Nat)
deriving DecidableEq, Repr

/-- The whole part: digits without a leading zero, or a zero alone. -/
def scanWhole (bytes : Bytes) : Except Fault (List Nat × Bytes) :=
  let (digits, behind) := scanDigits bytes
  match digits with
  | [] => .error (missing bytes)
  | 0 :: _ :: _ => .error .malformed
  | _ => .ok (digits, behind)

/-- The digits behind a point, if there is one. -/
def scanFraction (bytes : Bytes) : Except Fault (List Nat × Bytes) :=
  match bytes with
  | [] => .ok ([], [])
  | byte :: rest =>
    if byte = ascii '.' then
      let (digits, behind) := scanDigits rest
      if digits.isEmpty then .error (missing rest) else .ok (digits, behind)
    else
      .ok ([], bytes)

/-- A sign, if there is one. -/
def scanSign (bytes : Bytes) : Bool × Bytes :=
  match bytes with
  | [] => (false, [])
  | byte :: rest =>
    if byte = ascii '-' then (true, rest)
    else if byte = ascii '+' then (false, rest)
    else (false, bytes)

def scanExponent (bytes : Bytes) : Except Fault (Option (Bool × List Nat) × Bytes) :=
  match bytes with
  | [] => .ok (none, [])
  | byte :: rest =>
    if byte = ascii 'e' || byte = ascii 'E' then
      let (isNegative, rest) := scanSign rest
      let (digits, behind) := scanDigits rest
      if digits.isEmpty then .error (missing rest) else .ok (some (isNegative, digits), behind)
    else
      .ok (none, bytes)

/-- The numeral behind its minus sign, if it has one. -/
def scanUnsigned (isNegative : Bool) (bytes : Bytes) : Except Fault (Numeral × Bytes) := do
  let (whole, bytes) ← scanWhole bytes
  let (fraction, bytes) ← scanFraction bytes
  let (exponent, bytes) ← scanExponent bytes
  return (⟨isNegative, whole, fraction, exponent⟩, bytes)

theorem length_skipBlanks_le (bytes : Bytes) : (skipBlanks bytes).length ≤ bytes.length :=
  (List.dropWhile_sublist _).length_le

theorem length_skipWord_le {word bytes behind : Bytes} (h : skipWord word bytes = .ok behind) :
    behind.length ≤ bytes.length := by
  fun_induction skipWord word bytes with
  | case1 => cases h; omega
  | case2 => cases h
  | case3 _ _ _ ih => have := ih h; simp; omega
  | case4 => cases h

theorem length_scanDigits_le (bytes : Bytes) : (scanDigits bytes).2.length ≤ bytes.length :=
  (List.dropWhile_sublist _).length_le

theorem length_scanSign_le (bytes : Bytes) : (scanSign bytes).2.length ≤ bytes.length := by
  unfold scanSign
  split
  · simp
  · split
    · simp
    · split <;> simp

theorem length_scanWhole_lt {bytes behind : Bytes} {digits : List Nat}
    (h : scanWhole bytes = .ok (digits, behind)) : behind.length < bytes.length := by
  cases bytes with
  | nil => cases h
  | cons byte rest =>
    by_cases hd : isDigit byte = true
    · have hlen : (scanDigits (byte :: rest)).2.length < (byte :: rest).length := by
        have : (rest.dropWhile isDigit).length ≤ rest.length := (List.dropWhile_sublist _).length_le
        simp [scanDigits, hd]
        omega
      unfold scanWhole at h
      split at h
      split at h
      · cases h
      · cases h
      · cases h; simp_all
    · simp [scanWhole, scanDigits, hd] at h

theorem length_scanFraction_le {bytes behind : Bytes} {digits : List Nat}
    (h : scanFraction bytes = .ok (digits, behind)) : behind.length ≤ bytes.length := by
  unfold scanFraction at h
  split at h
  · cases h; simp
  · next byte rest =>
    split at h
    · have := length_scanDigits_le rest
      split at h
      split at h
      · cases h
      · cases h
        simp_all
        omega
    · cases h; simp

theorem length_scanExponent_le {bytes behind : Bytes} {exponent : Option (Bool × List Nat)}
    (h : scanExponent bytes = .ok (exponent, behind)) : behind.length ≤ bytes.length := by
  unfold scanExponent at h
  split at h
  · cases h; simp
  · next byte rest =>
    split at h
    · have hs := length_scanSign_le rest
      have hd := length_scanDigits_le (scanSign rest).2
      split at h
      split at h
      split at h
      · cases h
      · cases h
        simp_all
        omega
    · cases h; simp

theorem length_scanUnsigned_lt {isNegative : Bool} {bytes behind : Bytes} {numeral : Numeral}
    (h : scanUnsigned isNegative bytes = .ok (numeral, behind)) :
    behind.length < bytes.length := by
  simp only [scanUnsigned, bind, Except.bind] at h
  split at h
  · cases h
  · next hw =>
    split at h
    · cases h
    · next hf =>
      split at h
      · cases h
      · next he =>
        cases h
        have := length_scanWhole_lt hw
        have := length_scanFraction_le hf
        have := length_scanExponent_le he
        omega

end SealedVault.Json
