import SealedVault.Pipeline.Dispatch

/-!
This module contains vaults. Callers hold handles to a vault and queue commands, which are processed
strictly in that order. Commands with a reply come with a ticket, under which the reply is left when
the command is processed.
-/

namespace SealedVault

/-- Where the reply for a ticket stands. -/
inductive Slot where
  | waiting
  | delivered (reply : Reply)
  /-- Nobody is going to ask for the reply, be it that it was taken already. -/
  | forgotten

/-- A command in the queue, with the ticket for its reply if it has one. -/
structure Request where
  command : Command
  ticket : Option Nat
deriving DecidableEq, Repr

/-- Whether commands are processed. -/
inductive Status where
  | running
  /-- There is no handle any more, and all commands have been processed. -/
  | finished
  /-- The vault was shut down from outside. -/
  | destroyed
deriving DecidableEq, Repr

structure Vault where
  pipeline : Pipeline
  queue : List Request
  /-- The replies by ticket. -/
  slots : Array Slot
  /-- The number of handles. -/
  handles : Nat
  status : Status
  log : Array Event

/-- What a caller gets for a command. -/
inductive Receipt where
  | queued
  | refused
  | ticket (number : Nat)
deriving DecidableEq, Repr

namespace Vault

/-- A vault with one handle. -/
def new : Vault where
  pipeline := .new
  queue := []
  slots := #[]
  handles := 1
  status := .running
  log := #[]

/-- No commands are processed any more. -/
def isClosed (vault : Vault) : Bool :=
  vault.status ≠ .running

def describe (vault : Vault) : String :=
  "Vault \x7b closed: " ++ (if vault.isClosed then "true" else "false") ++ " \x7d"

def cloneHandle (vault : Vault) : Vault :=
  { vault with handles := vault.handles + 1 }

def dropHandle (vault : Vault) : Vault :=
  { vault with handles := vault.handles - 1 }

/-- Queues a command. A closed vault takes none, so that the reply is known at once. -/
def submit (vault : Vault) (command : Command) : Receipt × Vault :=
  if vault.isClosed then
    let vault := { vault with log := vault.log ++ command.refusalEvents }
    match command.refusal? with
    | none => (.refused, vault)
    | some reply =>
      (.ticket vault.slots.size, { vault with slots := vault.slots.push (.delivered reply) })
  else
    match command.refusal? with
    | none => (.queued, { vault with queue := vault.queue ++ [⟨command, none⟩] })
    | some _ =>
      let ticket := vault.slots.size
      (.ticket ticket, { vault with
        queue := vault.queue ++ [⟨command, some ticket⟩]
        slots := vault.slots.push .waiting })

/-- Takes the reply for a ticket, if it is there. -/
def poll (vault : Vault) (ticket : Nat) : Option Reply × Vault :=
  match vault.slots[ticket]? with
  | some (.delivered reply) =>
    (some reply, { vault with slots := vault.slots.setIfInBounds ticket .forgotten })
  | _ => (none, vault)

/-- Gives a ticket up. The command is processed all the same. -/
def forget (vault : Vault) (ticket : Nat) : Vault :=
  { vault with slots := vault.slots.setIfInBounds ticket .forgotten }

/-- Leaves a reply for a ticket, unless it was given up. -/
def deliver (slots : Array Slot) (ticket : Option Nat) (reply : Option Reply) : Array Slot :=
  match ticket, reply with
  | some ticket, some reply =>
    match slots[ticket]? with
    | some .waiting => slots.setIfInBounds ticket (.delivered reply)
    | _ => slots
  | _, _ => slots

/-- Processes the first command of the queue. -/
def process? (setup : Setup) (vault : Vault) : Option Vault :=
  match vault.status, vault.queue with
  | .running, request :: queue =>
    let dispatched := vault.pipeline.dispatch setup request.command
    some { vault with
      pipeline := dispatched.pipeline
      queue
      slots := deliver vault.slots request.ticket dispatched.reply
      log := vault.log ++ dispatched.events }
  | _, _ => none

def finishedEvent (store : Store) : Event where
  level := .debug
  message := "command queue closed, dropping session"
  fields := [("entries", .number store.size)]

/-- Stops if no command is left and nobody can queue one. -/
def finish? (vault : Vault) : Option Vault :=
  if vault.status = .running ∧ vault.queue = [] ∧ vault.handles = 0 then
    some { vault with
      status := .finished
      log := vault.log.push (finishedEvent vault.pipeline.store) }
  else
    none

theorem length_queue_of_process? {setup : Setup} {vault after : Vault}
    (h : vault.process? setup = some after) : vault.queue.length = after.queue.length + 1 := by
  unfold process? at h
  split at h
  · next hq => cases h; simp [hq]
  · cases h

/-- Processes all commands of the queue. -/
def drain (setup : Setup) (vault : Vault) : Vault :=
  match h : vault.process? setup with
  | some next =>
    have := length_queue_of_process? h
    drain setup next
  | none => vault.finish?.getD vault
termination_by vault.queue.length

/-- Shuts a vault down. Commands in the queue are lost, and their replies tell so. -/
def destroy (vault : Vault) : Vault :=
  { vault with
    queue := []
    slots := vault.queue.foldl (fun slots request =>
      deliver slots request.ticket request.command.refusal?) vault.slots
    status := .destroyed }

end Vault

end SealedVault
