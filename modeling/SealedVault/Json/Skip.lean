import SealedVault.Json.Shape

/-!
This module contains the skipping of a value of any kind and depth. The containers around the place
in the text are kept as a list of frames, innermost first.
-/

namespace SealedVault.Json

/-- A container whose end is still to come. -/
inductive Frame where
  | list
  | object
deriving DecidableEq, Repr

namespace Frame

def opening? (byte : UInt8) : Option Frame :=
  if byte = ascii '[' then some list
  else if byte = ascii '{' then some object
  else none

def closing : Frame → UInt8
  | list => ascii ']'
  | object => ascii '}'

end Frame

/-- The bytes behind a numeral of any size. -/
def skipNumeral (bytes : Bytes) : Except Fault Bytes :=
  match scanNumeral bytes with
  | .ok (_, behind) => .ok behind
  | .error _ => .error .malformed

/-- The bytes behind a value that is no container. -/
def skipScalar (bytes : Bytes) : Except Fault Bytes :=
  match bytes with
  | [] => .error .truncated
  | byte :: behind =>
    if byte = ascii 'n' then skipWord nullTail behind
    else if byte = ascii 't' then skipWord trueTail behind
    else if byte = ascii 'f' then skipWord falseTail behind
    else if byte = ascii '"' then skipString behind
    else if startsNumber byte then skipNumeral bytes
    else .error .malformed

/-- The bytes behind a blank stretch and one given byte. -/
def skipMark (mark : UInt8) (bytes : Bytes) : Except Fault Bytes :=
  skipByte mark (skipBlanks bytes)

/-- The bytes behind a key and its colon. -/
def skipKey (bytes : Bytes) : Except Fault Bytes := do
  let bytes ← skipMark (ascii '"') bytes
  let bytes ← skipString bytes
  skipMark (ascii ':') bytes

/-- The bytes where the next value of a container starts. -/
def skipToValue (frame : Frame) (bytes : Bytes) : Except Fault Bytes :=
  match frame with
  | .list => .ok bytes
  | .object => skipKey bytes

theorem length_skipNumeral_lt {bytes behind : Bytes} (h : skipNumeral bytes = .ok behind) :
    behind.length < bytes.length := by
  unfold skipNumeral at h
  split at h
  · next hn => cases h; exact length_scanNumeral_lt hn
  · cases h

theorem length_skipScalar_lt {bytes behind : Bytes} (h : skipScalar bytes = .ok behind) :
    behind.length < bytes.length := by
  unfold skipScalar at h
  split at h
  · cases h
  · next byte rest =>
    simp only [List.length_cons]
    split at h
    · have := length_skipWord_le h; omega
    · split at h
      · have := length_skipWord_le h; omega
      · split at h
        · have := length_skipWord_le h; omega
        · split at h
          · have := length_skipString_lt h; omega
          · split at h
            · have := length_skipNumeral_lt h
              simpa using this
            · cases h

theorem length_skipMark_le {mark : UInt8} {bytes behind : Bytes}
    (h : skipMark mark bytes = .ok behind) : behind.length ≤ bytes.length := by
  have := length_skipByte_le h
  have := length_skipBlanks_le bytes
  omega

theorem length_skipKey_le {bytes behind : Bytes} (h : skipKey bytes = .ok behind) :
    behind.length ≤ bytes.length := by
  simp only [skipKey, bind, Except.bind] at h
  split at h
  · cases h
  · next hq =>
    have := length_skipMark_le hq
    split at h
    · cases h
    · next hs =>
      have := length_skipString_lt hs
      have := length_skipMark_le h
      omega

theorem length_skipToValue_le {frame : Frame} {bytes behind : Bytes}
    (h : skipToValue frame bytes = .ok behind) : behind.length ≤ bytes.length := by
  cases frame with
  | list => cases h; exact Nat.le_refl _
  | object => exact length_skipKey_le h

mutual

/-- The bytes behind a value and behind all containers around it. -/
def skipValue (frames : List Frame) (bytes : Bytes) : Except Fault Bytes :=
  match h : skipBlanks bytes with
  | [] => .error .truncated
  | byte :: behind =>
    have := h ▸ length_skipBlanks_le bytes
    match Frame.opening? byte with
    | some frame =>
      match hb : skipBlanks behind with
      | [] => .error .truncated
      | next :: rest =>
        have := hb ▸ length_skipBlanks_le behind
        if next = frame.closing then
          skipRest frames rest
        else
          match hv : skipToValue frame (next :: rest) with
          | .error fault => .error fault
          | .ok value =>
            have := length_skipToValue_le hv
            skipValue (frame :: frames) value
    | none =>
      match hs : skipScalar (byte :: behind) with
      | .error fault => .error fault
      | .ok rest =>
        have := length_skipScalar_lt hs
        skipRest frames rest
termination_by bytes.length
decreasing_by all_goals (simp only [List.length_cons] at *; omega)

/-- The bytes behind all containers, from behind a value in the innermost. -/
def skipRest (frames : List Frame) (bytes : Bytes) : Except Fault Bytes :=
  match frames with
  | [] => .ok bytes
  | frame :: outer =>
    match h : skipBlanks bytes with
    | [] => .error .truncated
    | byte :: behind =>
      have := h ▸ length_skipBlanks_le bytes
      if byte = ascii ',' then
        match hv : skipToValue frame behind with
        | .error fault => .error fault
        | .ok value =>
          have := length_skipToValue_le hv
          skipValue (frame :: outer) value
      else if byte = frame.closing then
        skipRest outer behind
      else
        .error .malformed
termination_by bytes.length
decreasing_by all_goals (simp only [List.length_cons] at *; omega)

end

theorem length_skipValue_skipRest_le (n : Nat) (frames : List Frame) (bytes behind : Bytes)
    (hn : bytes.length = n) : (skipValue frames bytes = .ok behind → behind.length ≤ n) ∧
      (skipRest frames bytes = .ok behind → behind.length ≤ n) := by
  induction n using Nat.strongRecOn generalizing frames bytes with
  | ind n ih =>
    subst hn
    constructor
    · intro h
      unfold skipValue at h
      split at h
      · cases h
      · next byte rest hb =>
        have hl := hb ▸ length_skipBlanks_le bytes
        simp only [List.length_cons] at hl
        split at h
        · split at h
          · cases h
          · next next tail hr =>
            have ht := hr ▸ length_skipBlanks_le rest
            simp only [List.length_cons] at ht
            split at h
            · have := (ih tail.length (by omega) _ _ rfl).2 h
              omega
            · split at h
              · cases h
              · next value hv =>
                have hv := length_skipToValue_le hv
                simp only [List.length_cons] at hv
                have := (ih value.length (by omega) _ _ rfl).1 h
                omega
        · split at h
          · cases h
          · next tail hs =>
            have hs := length_skipScalar_lt hs
            simp only [List.length_cons] at hs
            have := (ih tail.length (by omega) _ _ rfl).2 h
            omega
    · intro h
      unfold skipRest at h
      split at h
      · cases h; exact Nat.le_refl _
      · split at h
        · cases h
        · next byte rest hb =>
          have hl := hb ▸ length_skipBlanks_le bytes
          simp only [List.length_cons] at hl
          split at h
          · split at h
            · cases h
            · next value hv =>
              have hv := length_skipToValue_le hv
              have := (ih value.length (by omega) _ _ rfl).1 h
              omega
          · split at h
            · have := (ih rest.length (by omega) _ _ rfl).2 h
              omega
            · cases h

theorem length_skipValue_le {frames : List Frame} {bytes behind : Bytes}
    (h : skipValue frames bytes = .ok behind) : behind.length ≤ bytes.length :=
  (length_skipValue_skipRest_le _ frames bytes behind rfl).1 h

end SealedVault.Json
