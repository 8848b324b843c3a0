import SealedVault.Pipeline.Script

/-!
This module contains the processing of commands. A command that fails is logged and affects no other
command, apart from what it did before it failed.
-/

namespace SealedVault.Pipeline

/-- What the processing of a command leaves behind. -/
structure Dispatched where
  pipeline : Pipeline
  reply : Option Reply
  events : Array Event

/-- Calls the restorer. -/
def clear (setup : Setup) (pipeline : Pipeline) : Dispatched :=
  let plan := setup.restorer pipeline.restorations.size pipeline.store
  let (restoration, outcome) := plan.run setup.config.operationTimeout pipeline.store
  let failure :=
    match outcome with
    | .done => #[]
    | .failed error => #[Command.clear.failureEvent error]
    | .panicked message => #[Command.clear.panicEvent message]
  { pipeline :=
      { pipeline with
        store := restoration.store
        restorations := pipeline.restorations.push restoration.notes }
    reply := none
    events := restoration.events ++ failure }

/-- The failure of a command that tells nobody but the log. -/
def Outcome.report (outcome : Outcome Unit) (command : Command) : Dispatched where
  pipeline := outcome.pipeline
  reply := none
  events := outcome.events ++
    match outcome.result with
    | .ok () => #[]
    | .error e => #[command.failureEvent e]

/-- Does what a command asks for. -/
def handle (setup : Setup) (pipeline : Pipeline) : Command → Dispatched
  | .set key value => (pipeline.set setup key value).report (.set key value)
  | .delete key => (pipeline.delete key).report (.delete key)
  | .clear => pipeline.clear setup
  | .flush => ⟨pipeline, some (.flushed (.ok ())), #[]⟩
  | .get key =>
    let read := pipeline.get setup key
    match read.result with
    | .ok value => ⟨read.pipeline, some (.value value), read.events⟩
    | .error e =>
      ⟨read.pipeline, some (.value none), read.events.push (Command.readFailureEvent key e)⟩
  | .script source =>
    let run := pipeline.script setup source
    let failure :=
      match run.result with
      | .ok _ => #[]
      | .error e => #[(Command.script source).failureEvent e]
    ⟨run.pipeline, some (.loads run.result), run.events ++ failure⟩

/-- Processes one command. -/
def dispatch (setup : Setup) (pipeline : Pipeline) (command : Command) : Dispatched :=
  let dispatched := pipeline.handle setup command
  { dispatched with events := #[command.dispatchEvent] ++ dispatched.events }

end SealedVault.Pipeline
