import SealedVault.Bytecode.Error
import SealedVault.Cipher.Error
import SealedVault.Duration
import SealedVault.Source.Error

/-!
This module contains the reasons why a command of a vault fails.
-/

namespace SealedVault

inductive VaultError where
  | cipher (error : CipherError)
  | source (error : SourceError)
  | bytecode (error : BytecodeError)
  | restore (message : String)
  | timedOut (operation : String) (after : Duration)
  | closed
deriving DecidableEq, Repr

namespace VaultError

def message : VaultError → String
  | cipher error => "Crypto error: " ++ error.message
  | source error => "Compile error: " ++ error.message
  | bytecode error => "Bytecode error: " ++ error.message
  | restore message => "Baseline restore failed: " ++ message
  | timedOut operation after => operation ++ " timed out after " ++ after.render
  | closed => "Command queue is closed"

/-- A value is stored, but the session cannot tell what it is. -/
def isUnrecoverable : VaultError → Bool
  | cipher error => error.isAuthenticationFailure
  | _ => false

end VaultError

end SealedVault
