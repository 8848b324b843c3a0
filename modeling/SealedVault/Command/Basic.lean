import SealedVault.Interpreter
import SealedVault.VaultError

/-!
This module contains the commands of a vault and the replies to them.
-/

namespace SealedVault

inductive Command where
  | set (key value : String)
  | get (key : String)
  | delete (key : String)
  | clear
  | script (source : String)
  /-- Does nothing, but its reply comes after all commands before it. -/
  | flush
deriving DecidableEq, Repr

inductive Reply where
  | value (value : Option String)
  | loads (result : Except VaultError (List Load))
  | flushed (result : Except VaultError Unit)

namespace Command

def name : Command → String
  | set .. => "set"
  | get _ => "get"
  | delete _ => "delete"
  | clear => "clear"
  | script _ => "script"
  | flush => "flush"

/-- The reply to a command that is never run, if it is of a kind that has replies. -/
def refusal? : Command → Option Reply
  | get _ => some (.value none)
  | script _ => some (.loads (.error .closed))
  | flush => some (.flushed (.error .closed))
  | _ => none

end Command

end SealedVault
