/-!
This module contains the reasons why sealing or opening an envelope fails.
-/

namespace SealedVault

inductive CipherError where
  | authenticationFailed (reason : String)
  /-- The text exceeds the 2^36 bytes that can be sealed at once. Sessions take it to be shorter. -/
  | encryptionFailed (reason : String)
  /-- The key is not of the size that the cipher wants. A `Key` always is. -/
  | keyGeneration (reason : String)
  | invalidEncoding (reason : String)
  | notUtf8
  /-- There are no random numbers to be had. A `Supply` always has some. -/
  | randomFailed (reason : String)
deriving DecidableEq, Repr

namespace CipherError

def message : CipherError → String
  | authenticationFailed reason => "Envelope failed authentication: " ++ reason
  | encryptionFailed reason => "Encryption failed: " ++ reason
  | keyGeneration reason => "Session key generation failed: " ++ reason
  | invalidEncoding reason => "Invalid base64 envelope: " ++ reason
  | notUtf8 => "Decrypted payload is not valid UTF-8"
  | randomFailed reason => "Random number generation failed: " ++ reason

/-- The envelope was made under another key or was changed since. -/
def isAuthenticationFailure : CipherError → Bool
  | authenticationFailed _ => true
  | _ => false

end CipherError

end SealedVault
