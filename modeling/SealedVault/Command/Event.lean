import SealedVault.Command.Basic

/-!
This module contains what commands leave in the log. Keys are logged, values are not.
-/

namespace SealedVault.Command

def dispatchEvent (command : Command) : Event where
  level := .debug
  message := "dispatch"
  fields := [("command", .text command.name)]

/-- The key that a failure is logged with. -/
def keyField : Command → List (String × Field)
  | set key _ => [("key", .text key)]
  | get key => [("key", .text key)]
  | delete key => [("key", .text key)]
  | _ => []

def failureEvent (command : Command) (error : VaultError) : Event where
  level := .error
  message := "command failed"
  fields := [("error", .text error.message), ("command", .text command.name)] ++ command.keyField

/-- The message is missing if the payload of the panic is no text. -/
def panicEvent (command : Command) (message : Option String) : Event where
  level := .error
  message := "command panicked"
  fields := [("command", .text command.name),
    ("panic", .text (message.getD "non-string panic payload"))]

/-- The event of a value that could not be read, be it by a command or by a script. -/
def readFailureEvent (key : String) (error : VaultError) : Event :=
  if error.isUnrecoverable then
    { level := .warn
      message := "stored value not recoverable"
      fields := [("error", .text error.message), ("key", .text key)] }
  else
    (get key).failureEvent error

/-- What is logged when a command comes too late to be queued. -/
def refusalEvents : Command → Array Event
  | get key => #[{
      level := .warn
      message := "get on closed vault"
      fields := [("error", .text VaultError.closed.message), ("key", .text key)] }]
  | _ => #[]

end SealedVault.Command
