import SealedVault.Cipher.Session
import SealedVault.Config.Basic
import SealedVault.Interpreter
import SealedVault.Restoration

/-!
This module contains the reading and writing of single values. Values are sealed before they reach
the store and opened when they leave it. The store is reached by running bytecode.
-/

namespace SealedVault

/-- What a vault is given for its whole life. -/
structure Setup where
  config : Config
  supply : Supply
  restorer : Restorer

/-- What commands work on. -/
structure Pipeline where
  store : Store
  session : Session
  /-- The notes of every restoration so far. -/
  restorations : Array (Array Note)

/-- What one step of a command leaves behind. -/
structure Pipeline.Outcome (α : Type) where
  result : Except VaultError α
  pipeline : Pipeline
  events : Array Event

namespace Pipeline

def new : Pipeline :=
  ⟨.empty, .new, #[]⟩

namespace Outcome

def map (f : α → β) (outcome : Outcome α) : Outcome β :=
  { outcome with result := outcome.result.map f }

end Outcome

/-- Runs one instruction as a program of its own, on the stored texts as they are. -/
def perform (pipeline : Pipeline) (instruction : Instruction) : Outcome (List Load) :=
  match instruction.encode with
  | .error e => ⟨.error (.bytecode e), pipeline, #[]⟩
  | .ok bytes =>
    let run := execute bytes pipeline.store
    let result :=
      match run.stop with
      | .faulted e => .error (.bytecode e)
      | _ => .ok run.loads.toList
    ⟨result, { pipeline with store := run.store }, run.events⟩

/-- Seals a value and stores the envelope. -/
def set (setup : Setup) (pipeline : Pipeline) (key value : String) : Outcome Unit :=
  let (envelope, session) := pipeline.session.encrypt setup.supply value
  ({ pipeline with session }.perform (.store key envelope)).map fun _ => ()

/-- Opens the envelope under a key. -/
def get (setup : Setup) (pipeline : Pipeline) (key : String) : Outcome (Option String) :=
  let fetched := pipeline.perform (.load key none)
  match fetched.result.map fun loads => loads.getLast?.bind (·.value) with
  | .error e => { fetched with result := .error e }
  | .ok none => { fetched with result := .ok none }
  | .ok (some envelope) =>
    let (opened, session) := fetched.pipeline.session.decrypt setup.supply envelope
    { fetched with
      result := (opened.map some).mapError .cipher
      pipeline := { fetched.pipeline with session } }

def delete (pipeline : Pipeline) (key : String) : Outcome Unit :=
  (pipeline.perform (.delete key)).map fun _ => ()

end Pipeline

end SealedVault
