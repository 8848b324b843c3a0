import SealedVault.Config.Error
import SealedVault.Json.Skip

/-!
This module contains the reading of a configuration text. An object gives the settings by name, a
list gives them in order. Settings that are missing keep their default.
-/

namespace SealedVault

/-- The settings that were read so far. -/
structure Config.Draft where
  operationTimeoutMs : Option UInt64
  maxScriptLines : Option UInt64
deriving DecidableEq, Repr

namespace Config.Draft

def empty : Draft :=
  ⟨none, none⟩

def get? (draft : Draft) : Setting → Option UInt64
  | .operationTimeout => draft.operationTimeoutMs
  | .maxScriptLines => draft.maxScriptLines

def put (draft : Draft) (value : UInt64) : Setting → Draft
  | .operationTimeout => { draft with operationTimeoutMs := some value }
  | .maxScriptLines => { draft with maxScriptLines := some value }

/-- The configuration, with defaults for what is missing. -/
def config (draft : Draft) : Config where
  operationTimeoutMs := draft.operationTimeoutMs.getD (default : Config).operationTimeoutMs
  maxScriptLines := draft.maxScriptLines.getD (default : Config).maxScriptLines

theorem get?_put (draft : Draft) (value : UInt64) (setting other : Setting) :
    (draft.put value setting).get? other =
      if other = setting then some value else draft.get? other := by
  cases setting <;> cases other <;> rfl

end Config.Draft

namespace Config

/-- Carries a fault of the text over. -/
def orFault (result : Except Json.Fault α) : Except ConfigError α :=
  result.mapError .notJson

/-- The value of a setting and the bytes behind it. -/
def readValue (setting : Setting) (bytes : Bytes) : Except ConfigError (UInt64 × Bytes) := do
  match ← orFault (Json.scanShape (Json.skipBlanks bytes)) with
  | (.number (.natural value), behind) => return (UInt64.ofNat value, behind)
  | (.number (.negative value), _) => throw (.mismatch (.belowZero value setting))
  | (shape, _) => throw (.mismatch (.wrongType shape setting))

/-- Reads one member. A setting is refused at its second key, before the value. -/
def readMember (draft : Draft) (bytes : Bytes) : Except ConfigError (Draft × Bytes) := do
  let bytes ← orFault (Json.skipMark (Json.ascii '"') bytes)
  let (name, bytes) ← orFault (Json.scanString bytes)
  match Setting.ofName? name with
  | none =>
    let bytes ← orFault (Json.skipMark (Json.ascii ':') bytes)
    let bytes ← orFault (Json.skipValue [] bytes)
    return (draft, bytes)
  | some setting =>
    if (draft.get? setting).isSome then
      throw (.mismatch (.repeated setting))
    let bytes ← orFault (Json.skipMark (Json.ascii ':') bytes)
    let (value, bytes) ← readValue setting bytes
    return (draft.put value setting, bytes)

theorem eq_ok_of_orFault {result : Except Json.Fault α} {value : α}
    (h : orFault result = .ok value) : result = .ok value := by
  cases result with
  | error fault => nomatch h
  | ok found => cases h; rfl

theorem length_readValue_le {setting : Setting} {bytes behind : Bytes} {value : UInt64}
    (h : readValue setting bytes = .ok (value, behind)) : behind.length ≤ bytes.length := by
  simp only [readValue, bind, Except.bind] at h
  split at h
  · cases h
  · next hs =>
    have := Json.length_scanShape_lt (eq_ok_of_orFault hs)
    have := Json.length_skipBlanks_le bytes
    split at h <;> cases h
    simp only at *
    omega

theorem length_readMember_lt {draft after : Draft} {bytes behind : Bytes}
    (h : readMember draft bytes = .ok (after, behind)) : behind.length < bytes.length := by
  simp only [readMember, bind, Except.bind] at h
  split at h
  · cases h
  · next hq =>
    have hq := Json.length_skipMark_le (eq_ok_of_orFault hq)
    split at h
    · cases h
    · next hs =>
      have hs := Json.length_scanString_lt (eq_ok_of_orFault hs)
      split at h
      · split at h
        · cases h
        · next hc =>
          have hc := Json.length_skipMark_le (eq_ok_of_orFault hc)
          split at h
          · cases h
          · next hv =>
            have hv := Json.length_skipValue_le (eq_ok_of_orFault hv)
            cases h
            omega
      · split at h
        · cases h
        · split at h
          · cases h
          · next hc =>
            have hc := Json.length_skipMark_le (eq_ok_of_orFault hc)
            split at h
            · cases h
            · next hv =>
              have hv := length_readValue_le hv
              cases h
              omega

/-- The members from behind the opening brace, or from behind a comma. -/
def readMembers (draft : Draft) (bytes : Bytes) : Except ConfigError (Draft × Bytes) :=
  match h : readMember draft bytes with
  | .error e => .error e
  | .ok (draft, behind) =>
    match hb : Json.skipBlanks behind with
    | [] => .error (.notJson .truncated)
    | byte :: rest =>
      have := length_readMember_lt h
      have := hb ▸ Json.length_skipBlanks_le behind
      if byte = Json.ascii ',' then readMembers draft rest
      else if byte = Json.Frame.object.closing then .ok (draft, rest)
      else .error (.notJson .malformed)
termination_by bytes.length
decreasing_by simp_all; omega

/-- The elements from behind the opening bracket or a comma: one value for each setting. -/
def readElements (draft : Draft) : List Setting → Bytes → Except ConfigError (Draft × Bytes)
  | [], bytes => close draft bytes
  | setting :: settings, bytes => do
    let (value, bytes) ← readValue setting bytes
    let draft := draft.put value setting
    match settings, Json.skipBlanks bytes with
    | next :: later, byte :: behind =>
      if byte = Json.ascii ',' then readElements draft (next :: later) behind
      else close draft bytes
    | _, _ => close draft bytes
where
  close (draft : Draft) (bytes : Bytes) : Except ConfigError (Draft × Bytes) := do
    return (draft, ← orFault (Json.skipMark Json.Frame.list.closing bytes))

/-- The settings in an object or a list, and the bytes behind it. -/
def readSettings (bytes : Bytes) : Except ConfigError (Draft × Bytes) := do
  match ← orFault (Json.scanShape (Json.skipBlanks bytes)) with
  | (.object, behind) =>
    match Json.skipMark Json.Frame.object.closing behind with
    | .ok rest => return (.empty, rest)
    | .error _ => readMembers .empty behind
  | (.list, behind) =>
    match Json.skipMark Json.Frame.list.closing behind with
    | .ok rest => return (.empty, rest)
    | .error _ => readElements .empty [.operationTimeout, .maxScriptLines] behind
  | (shape, _) => throw (.mismatch (.wrongType shape none))

/-- Reads a configuration text. -/
def ofJson (text : String) : Except ConfigError Config := do
  let (draft, behind) ← readSettings (utf8 text)
  if (Json.skipBlanks behind).isEmpty then return draft.config
  throw (.notJson .malformed)

end Config

end SealedVault
