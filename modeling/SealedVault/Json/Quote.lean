import SealedVault.Json.Scan

/-!
This module contains the strings of JSON. They are read in two ways: `scanString` decodes the text
and refuses escapes of lone surrogates, `skipString` only looks for the closing quote.
-/

namespace SealedVault.Json

/-- The value of a hexadecimal digit in either case. -/
def hexValue? (byte : UInt8) : Option Nat :=
  if isDigit byte then some (digitValue byte)
  else if ascii 'a' ≤ byte && byte ≤ ascii 'f' then some (byte.toNat - (ascii 'a').toNat + 10)
  else if ascii 'A' ≤ byte && byte ≤ ascii 'F' then some (byte.toNat - (ascii 'A').toNat + 10)
  else none

/-- The number that four hexadecimal digits spell. -/
def scanUnit (bytes : Bytes) : Except Fault (Nat × Bytes) :=
  match bytes with
  | a :: b :: c :: d :: behind =>
    match hexValue? a, hexValue? b, hexValue? c, hexValue? d with
    | some a, some b, some c, some d => .ok (((a * 16 + b) * 16 + c) * 16 + d, behind)
    | _, _, _, _ => .error .malformed
  | _ => .error .truncated

def isLeading (unit : Nat) : Bool :=
  0xD800 ≤ unit && unit ≤ 0xDBFF

def isTrailing (unit : Nat) : Bool :=
  0xDC00 ≤ unit && unit ≤ 0xDFFF

/-- The bytes behind one given byte. -/
def skipByte (expected : UInt8) (bytes : Bytes) : Except Fault Bytes :=
  match bytes with
  | [] => .error .truncated
  | byte :: behind => if byte = expected then .ok behind else .error .malformed

/-- The character of a numeric escape, from behind its letter. Surrogates have to come in pairs. -/
def scanCodePoint (bytes : Bytes) : Except Fault (Char × Bytes) := do
  let (unit, bytes) ← scanUnit bytes
  if isTrailing unit then
    throw .malformed
  else if isLeading unit then
    let bytes ← skipByte (ascii '\\') bytes
    let bytes ← skipByte (ascii 'u') bytes
    let (second, bytes) ← scanUnit bytes
    if isTrailing second then
      return (Char.ofNat ((unit - 0xD800) * 0x400 + (second - 0xDC00) + 0x10000), bytes)
    else
      throw .malformed
  else
    return (Char.ofNat unit, bytes)

/-- The character of an escape of one letter. -/
def shortEscape? (letter : UInt8) : Option Char :=
  if letter = ascii '"' then some '"'
  else if letter = ascii '\\' then some '\\'
  else if letter = ascii '/' then some '/'
  else if letter = ascii 'b' then some '\x08'
  else if letter = ascii 'f' then some '\x0c'
  else if letter = ascii 'n' then some '\n'
  else if letter = ascii 'r' then some '\r'
  else if letter = ascii 't' then some '\t'
  else none

/-- The character of an escape, from behind its backslash. -/
def scanEscape (bytes : Bytes) : Except Fault (Char × Bytes) :=
  match bytes with
  | [] => .error .truncated
  | letter :: behind =>
    if letter = ascii 'u' then
      scanCodePoint behind
    else
      match shortEscape? letter with
      | some c => .ok (c, behind)
      | none => .error .malformed

/-- The bytes behind an escape, from behind its backslash. Any four digits will do. -/
def skipEscape (bytes : Bytes) : Except Fault Bytes :=
  match bytes with
  | [] => .error .truncated
  | letter :: behind =>
    if letter = ascii 'u' then
      (scanUnit behind).map Prod.snd
    else if (shortEscape? letter).isSome then
      .ok behind
    else
      .error .malformed

theorem length_scanUnit_le {bytes behind : Bytes} {unit : Nat}
    (h : scanUnit bytes = .ok (unit, behind)) : behind.length ≤ bytes.length := by
  unfold scanUnit at h
  split at h
  · split at h
    · cases h; simp; omega
    · cases h
  · cases h

theorem length_skipByte_le {expected : UInt8} {bytes behind : Bytes}
    (h : skipByte expected bytes = .ok behind) : behind.length ≤ bytes.length := by
  unfold skipByte at h
  split at h
  · cases h
  · split at h
    · cases h; simp
    · cases h

theorem length_scanCodePoint_le {bytes behind : Bytes} {c : Char}
    (h : scanCodePoint bytes = .ok (c, behind)) : behind.length ≤ bytes.length := by
  simp only [scanCodePoint, bind, Except.bind, throw, throwThe, MonadExceptOf.throw] at h
  split at h
  · cases h
  · next hu =>
    have := length_scanUnit_le hu
    split at h
    · cases h
    · split at h
      · split at h
        · cases h
        · next hb =>
          have := length_skipByte_le hb
          split at h
          · cases h
          · next hl =>
            have := length_skipByte_le hl
            split at h
            · cases h
            · next hs =>
              have := length_scanUnit_le hs
              split at h
              · simp only [pure, Except.pure, Except.ok.injEq, Prod.mk.injEq] at h
                rw [← h.2]; omega
              · cases h
      · simp only [pure, Except.pure, Except.ok.injEq, Prod.mk.injEq] at h
        rw [← h.2]; omega

theorem length_scanEscape_le {bytes behind : Bytes} {c : Char}
    (h : scanEscape bytes = .ok (c, behind)) : behind.length ≤ bytes.length := by
  unfold scanEscape at h
  split at h
  · cases h
  · next letter rest =>
    split at h
    · have := length_scanCodePoint_le h
      simp; omega
    · split at h
      · cases h
        exact Nat.le_succ _
      · cases h

theorem length_skipEscape_le {bytes behind : Bytes} (h : skipEscape bytes = .ok behind) :
    behind.length ≤ bytes.length := by
  unfold skipEscape at h
  split at h
  · cases h
  · next letter rest =>
    split at h
    · cases hu : scanUnit rest with
      | error e => simp [hu, Except.map] at h
      | ok p =>
        simp only [hu, Except.map, Except.ok.injEq] at h
        subst h
        have := length_scanUnit_le hu
        simp; omega
    · split at h
      · cases h
        exact Nat.le_succ _
      · cases h

/-- The text of a string, from behind its opening quote. -/
def scanString (bytes : Bytes) : Except Fault (String × Bytes) :=
  go [] bytes
where
  /-- The bytes of the text so far are in reverse order. -/
  go (done : Bytes) (bytes : Bytes) : Except Fault (String × Bytes) :=
    match bytes with
    | [] => .error .truncated
    | byte :: behind =>
      if byte = ascii '"' then
        match ofUtf8? done.reverse with
        | some text => .ok (text, behind)
        | none => .error .malformed
      else if byte = ascii '\\' then
        match h : scanEscape behind with
        | .error fault => .error fault
        | .ok (c, behind) =>
          have := length_scanEscape_le h
          go ((utf8 (String.singleton c)).reverse ++ done) behind
      else if byte < ascii ' ' then
        .error .malformed
      else
        go (byte :: done) behind
  termination_by bytes.length
  decreasing_by all_goals (simp only [List.length_cons] at *; omega)

/-- The bytes behind a string, from behind its opening quote. -/
def skipString (bytes : Bytes) : Except Fault Bytes :=
  match bytes with
  | [] => .error .truncated
  | byte :: behind =>
    if byte = ascii '"' then
      .ok behind
    else if byte = ascii '\\' then
      match h : skipEscape behind with
      | .error fault => .error fault
      | .ok behind =>
        have := length_skipEscape_le h
        skipString behind
    else if byte < ascii ' ' then
      .error .malformed
    else
      skipString behind
termination_by bytes.length
decreasing_by all_goals (simp only [List.length_cons] at *; omega)

theorem length_scanString_lt {bytes behind : Bytes} {text : String}
    (h : scanString bytes = .ok (text, behind)) : behind.length < bytes.length := by
  rw [scanString] at h
  generalize hd : ([] : Bytes) = done at h
  clear hd
  fun_induction scanString.go done bytes <;> grind

theorem length_skipString_lt {bytes behind : Bytes} (h : skipString bytes = .ok behind) :
    behind.length < bytes.length := by
  fun_induction skipString bytes <;> grind

end SealedVault.Json
