import SealedVault.Config.Basic
import SealedVault.Json.Shape

/-!
This module contains the reasons to refuse a configuration text.
-/

namespace SealedVault

/-- What is wrong with a text that is JSON so far, but no configuration. -/
inductive Mismatch where
  /-- A value of another kind stands in the place of a setting, or of the whole configuration. -/
  | wrongType (found : Json.Shape) (place : Option Setting)
  /-- The integer below zero with this absolute value stands in the place of a setting. -/
  | belowZero (value : Nat) (setting : Setting)
  | repeated (setting : Setting)
deriving DecidableEq, Repr

inductive ConfigError where
  | notJson (fault : Json.Fault)
  | mismatch (mismatch : Mismatch)
deriving DecidableEq, Repr

/-- The kind of value that belongs in a place. -/
def Setting.expected : Option Setting → String
  | none => "struct VaultConfig"
  | some operationTimeout => "u64"
  | some maxScriptLines => "usize"

namespace Mismatch

def reason : Mismatch → String
  | wrongType found place =>
    "invalid type: " ++ found.describe ++ ", expected " ++ Setting.expected place
  | belowZero value setting =>
    "invalid value: " ++ (Json.Number.negative value).describe ++ ", expected " ++
      Setting.expected setting
  | repeated setting => "duplicate field `" ++ setting.name ++ "`"

def message (mismatch : Mismatch) : String :=
  "Invalid configuration: " ++ mismatch.reason

end Mismatch

end SealedVault
