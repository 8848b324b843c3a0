import SealedVault.Command.Event
import SealedVault.Pipeline.Basic

/-!
This module contains the running of scripts on sealed values.
-/

namespace SealedVault.Pipeline

/-- Runs one instruction of a script. A value that is not recoverable counts as absent. -/
def step (setup : Setup) (pipeline : Pipeline) : Instruction → Outcome (List Load)
  | .store key value => (pipeline.set setup key value).map fun _ => []
  | .delete key => (pipeline.delete key).map fun _ => []
  | .load key _ =>
    let read := pipeline.get setup key
    match read.result with
    | .ok value => read.map fun _ => [⟨key, value⟩]
    | .error e =>
      if e.isUnrecoverable then
        { read with
          result := .ok [⟨key, none⟩]
          events := read.events.push (Command.readFailureEvent key e) }
      else
        { read with result := .error e }

/-- Runs a script up to its first failure. What it did before it failed is kept. -/
def script (setup : Setup) (pipeline : Pipeline) (source : String) : Outcome (List Load) :=
  match Source.parse setup.config.maxScriptLines.toNat source with
  | .error e => ⟨.error (.source e), pipeline, #[]⟩
  | .ok instructions =>
    (instructions.foldl (advance setup) ⟨.ok #[], pipeline, #[]⟩).map Array.toList
where
  advance (setup : Setup) (outcome : Outcome (Array Load)) (instruction : Instruction) :
      Outcome (Array Load) :=
    match outcome.result with
    | .error _ => outcome
    | .ok loads =>
      let next := outcome.pipeline.step setup instruction
      ⟨next.result.map loads.appendList, next.pipeline, outcome.events ++ next.events⟩

end SealedVault.Pipeline
