/-!
This module contains the events that running a program or a command leaves behind.
-/

namespace SealedVault

inductive Level where
  | trace
  | debug
  | info
  | warn
  | error
deriving DecidableEq, Repr

inductive Field where
  | text (value : String)
  | number (value : Nat)
deriving DecidableEq, Repr

structure Event where
  level : Level
  message : String
  fields : List (String × Field)
deriving DecidableEq, Repr

end SealedVault
