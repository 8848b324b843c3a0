import SealedVault.Cipher.Tamper
import SealedVault.Duration
import SealedVault.Log
import SealedVault.Store

/-!
This module contains restorers, which bring a store back to where it started. A restorer is not to
be trusted: it may change the store in any way, fail, panic, or wait for too long.
-/

namespace SealedVault

/-- A change of the store. Where a key has no text, the empty text stands in for it. -/
inductive StoreEdit where
  | reset
  | insert (key text : String)
  | erase (key : String)
  | copy (source target : String)
  | tamper (key : String) (edit : EnvelopeEdit)
deriving DecidableEq, Repr

def StoreEdit.apply : StoreEdit → Store → Store
  | reset, _ => .empty
  | insert key text, store => store.insert key text
  | erase key, store => store.erase key
  | copy source target, store => store.insert target ((store.get? source).getD "")
  | tamper key edit, store => store.insert key (edit.apply ((store.get? key).getD ""))

/-- One thing that a restorer does. -/
inductive Action where
  | edit (edit : StoreEdit)
  /-- Looks at the length of a stored text. -/
  | measure (key : String)
  | wait (duration : Duration)
  | log (event : Event)
deriving DecidableEq, Repr

/-- How a restorer ends if it is given the time to. -/
inductive Ending where
  | done
  | failed (message : String)
  /-- The message is missing if the payload of the panic is no text. -/
  | panicked (message : Option String)
  | never
deriving DecidableEq, Repr

structure Plan where
  actions : List Action
  ending : Ending
deriving DecidableEq, Repr

/-- What a restorer is going to do to a store, when it has been called so many times before. -/
abbrev Restorer :=
  Nat → Store → Plan

namespace Restorer

def recreatingEvent (store : Store) : Event where
  level := .debug
  message := "recreating store"
  fields := [("entries", .number store.size)]

/-- The restorer that empties the store and does nothing else. -/
def resetStore : Restorer := fun _ store =>
  ⟨[.log (recreatingEvent store), .edit .reset], .done⟩

/-- The restorer that follows one plan after the other, and the last one again and again. -/
def ofPlans (plans : List Plan) : Restorer := fun calls _ =>
  (plans[calls]?.or plans.getLast?).getD ⟨[], .done⟩

end Restorer

end SealedVault
