import SealedVault.Restorer
import SealedVault.VaultError

/-!
This module contains the running of restorers under a time limit. What a restorer did before it
failed or ran out of time is kept.
-/

namespace SealedVault

/-- What a restorer finds. -/
inductive Note where
  | entered (size : Nat)
  | inserted (replaced : Bool)
  | erased (present : Bool)
  | measured (size : Option Nat)
  | finished (size : Nat)
deriving DecidableEq, Repr

/-- What a restorer finds when it changes a store. -/
def StoreEdit.note? (store : Store) : StoreEdit → Option Note
  | insert key _ => some (.inserted (store.contains key))
  | erase key => some (.erased (store.contains key))
  | copy _ target => some (.inserted (store.contains target))
  | reset => none
  | tamper .. => none

/-- How a restoration ended. -/
inductive Restoration.Outcome where
  | done
  | failed (error : VaultError)
  | panicked (message : Option String)
deriving DecidableEq, Repr

/-- What a restorer has done so far. -/
structure Restoration where
  store : Store
  notes : Array Note
  events : Array Event

namespace Restoration

def start (store : Store) : Restoration :=
  ⟨store, #[.entered store.size], #[]⟩

def edit (restoration : Restoration) (edit : StoreEdit) : Restoration :=
  { restoration with
    store := edit.apply restoration.store
    notes := restoration.notes ++ (edit.note? restoration.store).toArray }

def measure (restoration : Restoration) (key : String) : Restoration :=
  let size := (restoration.store.get? key).map String.utf8ByteSize
  { restoration with notes := restoration.notes.push (.measured size) }

def log (restoration : Restoration) (event : Event) : Restoration :=
  { restoration with events := restoration.events.push event }

def finish (restoration : Restoration) : Restoration :=
  { restoration with notes := restoration.notes.push (.finished restoration.store.size) }

end Restoration

namespace Plan

/-- The name of the step that the time limit is for. -/
def operation : String := "restore baseline"

/-- Follows a plan for at most a given time. What it did until then is kept. -/
def run (plan : Plan) (limit : Duration) (store : Store) : Restoration × Restoration.Outcome :=
  go plan.actions 0 (.start store)
where
  timedOut : Restoration.Outcome :=
    .failed (.timedOut operation limit)
  go : List Action → Nat → Restoration → Restoration × Restoration.Outcome
  | [], _, restoration =>
    match plan.ending with
    | .done => (restoration.finish, .done)
    | .failed message => (restoration, .failed (.restore message))
    | .panicked message => (restoration, .panicked message)
    | .never => (restoration, timedOut)
  | .edit edit :: actions, elapsed, restoration => go actions elapsed (restoration.edit edit)
  | .measure key :: actions, elapsed, restoration => go actions elapsed (restoration.measure key)
  | .log event :: actions, elapsed, restoration => go actions elapsed (restoration.log event)
  | .wait duration :: actions, elapsed, restoration =>
    let elapsed := elapsed + duration.nanoseconds
    if limit.nanoseconds < elapsed then (restoration, timedOut)
    else go actions elapsed restoration

end Plan

end SealedVault
