import SealedVault.Duration
import SealedVault.Source.Parse

/-!
This module contains the configuration of a vault and its JSON text.
-/

namespace SealedVault

/-- The limits that a vault works under. -/
structure Config where
  /-- How long each step of a command may take. -/
  operationTimeoutMs : UInt64
  /-- How many lines a script may have. -/
  maxScriptLines : UInt64
deriving DecidableEq, Repr

/-- The name of each limit. -/
inductive Setting where
  | operationTimeout
  | maxScriptLines
deriving DecidableEq, Repr

namespace Setting

def name : Setting → String
  | operationTimeout => "operation_timeout_ms"
  | maxScriptLines => "max_script_lines"

def ofName? (name : String) : Option Setting :=
  [operationTimeout, maxScriptLines].find? (·.name = name)

@[simp]
theorem ofName?_name (setting : Setting) : ofName? setting.name = some setting := by
  cases setting <;> decide

theorem ofName?_eq_some_iff {name : String} {setting : Setting} :
    ofName? name = some setting ↔ setting.name = name := by
  constructor
  · intro h
    simpa using List.find?_some h
  · rintro rfl
    exact ofName?_name setting

end Setting

namespace Config

def defaultOperationTimeoutMs : UInt64 := 5000

instance : Inhabited Config :=
  ⟨⟨defaultOperationTimeoutMs, UInt64.ofNat Source.defaultMaxLines⟩⟩

def get (config : Config) : Setting → UInt64
  | .operationTimeout => config.operationTimeoutMs
  | .maxScriptLines => config.maxScriptLines

def operationTimeout (config : Config) : Duration :=
  .ofMilliseconds config.operationTimeoutMs.toNat

/-- Sets the time limit in whole milliseconds, as long as they fit. -/
def withOperationTimeout (config : Config) (timeout : Duration) : Config :=
  { config with operationTimeoutMs := UInt64.ofNat (min timeout.milliseconds (UInt64.size - 1)) }

def withMaxScriptLines (config : Config) (lines : UInt64) : Config :=
  { config with maxScriptLines := lines }

/-- One member of the JSON text. -/
def member (config : Config) (setting : Setting) : String :=
  "\"" ++ setting.name ++ "\":" ++ toString (config.get setting).toNat

def toJson (config : Config) : String :=
  "\x7b" ++ config.member .operationTimeout ++ "," ++ config.member .maxScriptLines ++ "\x7d"

end Config

end SealedVault
