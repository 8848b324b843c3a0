import SealedVault.Vault.Basic

/-!
This module contains what can happen to a vault, one move at a time and in any order. Main
statement: `runs_drain`, which says that draining a vault is made of such moves.
-/

namespace SealedVault.Vault

/-- A move of a caller, or of the task behind the queue. -/
inductive Move where
  | submit (command : Command)
  | poll (ticket : Nat)
  | forget (ticket : Nat)
  | cloneHandle
  | dropHandle
  | process
  | finish
deriving DecidableEq, Repr

/-- One move. Callers need a handle for it, unless they only look after a ticket. -/
inductive Step (setup : Setup) : Vault → Move → Vault → Prop where
  | submit (vault : Vault) (command : Command) (h : 0 < vault.handles) :
    Step setup vault (.submit command) (vault.submit command).2
  | poll (vault : Vault) (ticket : Nat) : Step setup vault (.poll ticket) (vault.poll ticket).2
  | forget (vault : Vault) (ticket : Nat) : Step setup vault (.forget ticket) (vault.forget ticket)
  | cloneHandle (vault : Vault) (h : 0 < vault.handles) :
    Step setup vault .cloneHandle vault.cloneHandle
  | dropHandle (vault : Vault) (h : 0 < vault.handles) :
    Step setup vault .dropHandle vault.dropHandle
  | process (vault after : Vault) (h : vault.process? setup = some after) :
    Step setup vault .process after
  | finish (vault after : Vault) (h : vault.finish? = some after) : Step setup vault .finish after

/-- A run of moves. -/
inductive Runs (setup : Setup) : Vault → List Move → Vault → Prop where
  | nil (vault : Vault) : Runs setup vault [] vault
  | cons {vault next after : Vault} {move : Move} {moves : List Move}
    (step : Step setup vault move next) (rest : Runs setup next moves after) :
    Runs setup vault (move :: moves) after

theorem runs_drain (setup : Setup) (vault : Vault) :
    ∃ moves, Runs setup vault moves (vault.drain setup) := by
  fun_induction drain setup vault with
  | case1 vault next h _ ih =>
    obtain ⟨moves, rest⟩ := ih
    exact ⟨_, .cons (.process vault next h) rest⟩
  | case2 vault h =>
    cases hf : vault.finish? with
    | none => exact ⟨_, .nil vault⟩
    | some after => exact ⟨_, .cons (.finish vault after hf) (.nil after)⟩

end SealedVault.Vault
