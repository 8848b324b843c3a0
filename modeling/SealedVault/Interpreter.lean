import SealedVault.Bytecode.Reader
import SealedVault.Log
import SealedVault.Store

/-!
This module contains the running of bytecode on a store. Instructions take effect one after the
other, each as soon as it is read, so a fault keeps the effects before it.
-/

namespace SealedVault

/-- What a load delivers: the text under its key, or none. -/
structure Load where
  key : String
  value : Option String
deriving DecidableEq, Repr

/-- Why a run is over. -/
inductive Stop where
  | completed
  /-- The byte at `offset` is no opcode. Nothing from there on was run. -/
  | halted (byte : UInt8) (offset : Nat)
  | faulted (error : BytecodeError)
deriving DecidableEq, Repr

/-- What a run has done so far. -/
structure Progress where
  store : Store
  /-- The number of instructions that were run. -/
  executed : Nat
  loads : Array Load
  events : Array Event

structure Run extends Progress where
  stop : Stop

namespace Interpreter

/-- The event of an instruction that starts at `offset`. -/
def executedEvent (offset : Nat) (instruction : Instruction) : Event where
  level := .trace
  message :=
    match instruction.opcode with
    | .store => "STORE"
    | .load => "LOAD"
    | .delete => "DELETE"
  fields := [("key", .text instruction.key), ("offset", .number offset)]

def haltedEvent (byte : UInt8) (offset : Nat) : Event where
  level := .warn
  message := "unknown opcode, halting"
  fields := [("opcode", .number byte.toNat), ("offset", .number offset)]

end Interpreter

namespace Progress

def start (store : Store) : Progress :=
  ⟨store, 0, #[], #[]⟩

def halted (progress : Progress) (byte : UInt8) (offset : Nat) : Progress :=
  { progress with events := progress.events.push (Interpreter.haltedEvent byte offset) }

/-- The effect of one instruction. -/
def apply (progress : Progress) (offset : Nat) (instruction : Instruction) : Progress where
  store :=
    match instruction with
    | .store key value => progress.store.insert key value
    | .load .. => progress.store
    | .delete key => progress.store.erase key
  executed := progress.executed + 1
  loads :=
    match instruction with
    | .load key _ => progress.loads.push ⟨key, progress.store.get? key⟩
    | _ => progress.loads
  events := progress.events.push (Interpreter.executedEvent offset instruction)

end Progress

/-- Runs a program on a store. -/
def execute (bytes : Bytes) (store : Store) : Run :=
  go (.start store) (.ofBytes bytes)
where
  go (progress : Progress) (reader : Bytecode.Reader) : Run :=
    if reader.rest.isEmpty then
      { progress with stop := .completed }
    else
      match h : reader.next with
      | .error (.unknownOpcode byte offset) =>
        { progress.halted byte offset with stop := .halted byte offset }
      | .error e => { progress with stop := .faulted e }
      | .ok (instruction, behind) =>
        have := Bytecode.Reader.rest_lt_of_next h
        go (progress.apply reader.offset instruction) behind
  termination_by reader.rest.length

end SealedVault
