import SealedVault.Cipher.Envelope

/-!
This module contains sessions. A session seals texts under one key, which it draws when it first
needs it, and draws an initialisation vector for every envelope. Drawing and sealing are taken never
to fail: random numbers are always to be had, a key always has its 32 bytes, and no text exceeds the
2^36 bytes that AES-GCM seals under one vector. So a session never ends with `randomFailed`,
`keyGeneration` or `encryptionFailed`.
-/

namespace SealedVault

/-- The random draws that a session is served, in order. There is always a next one. -/
structure Supply where
  key : Nat → Key
  iv : Nat → Iv

/-- A number in `size` bytes, highest first. -/
def numeral (size n : Nat) : Bytes :=
  (List.range size).map fun i => UInt8.ofNat (n >>> (8 * (size - 1 - i)))

/-- A supply that counts. Draws of different number, or of different series, differ. -/
def Supply.numbered (series : Nat) : Supply where
  key n := ⟨numeral 32 (series <<< 64 + n), by simp [numeral]⟩
  iv n := ⟨numeral 12 (series <<< 64 + n), by simp [numeral]⟩

/-- The key, once there is one, and how much of the supply is used up. -/
structure Session where
  key? : Option Key
  keysDrawn : Nat
  ivsDrawn : Nat

namespace Session

def new : Session :=
  ⟨none, 0, 0⟩

/-- The session has its key. -/
def isReady (session : Session) : Bool :=
  session.key?.isSome

def describe (session : Session) : String :=
  s!"SessionCipher \x7b ready: " ++ (if session.isReady then "true" else "false") ++ s!", .. \x7d"

/-- The key of the session, drawn now if there is none yet. The draw is taken to succeed. -/
def withKey (session : Session) (supply : Supply) : Key × Session :=
  match session.key? with
  | some key => (key, session)
  | none =>
    let key := supply.key session.keysDrawn
    (key, { session with key? := some key, keysDrawn := session.keysDrawn + 1 })

/--
Seals a text. The envelope is spelled in Base64. The draw of the vector is taken to succeed, and the
text to have at most 2^36 bytes.
-/
def encrypt (session : Session) (supply : Supply) (text : String) : String × Session :=
  let (key, session) := session.withKey supply
  let iv := supply.iv session.ivsDrawn
  (Base64.encode (Envelope.sealUnder key iv (utf8 text)),
    { session with ivsDrawn := session.ivsDrawn + 1 })

/-- Opens an envelope. The session has a key afterwards even if this fails. -/
def decrypt (session : Session) (supply : Supply) (envelope : String) :
    Except CipherError String × Session :=
  let (key, session) := session.withKey supply
  let result := do
    let bytes ← Envelope.ofBase64 envelope
    let plaintext ← Envelope.openUnder key bytes
    Envelope.textOf plaintext
  (result, session)

@[simp]
theorem isReady_withKey (session : Session) (supply : Supply) :
    (session.withKey supply).2.isReady = true := by
  unfold withKey
  split
  · simp_all [isReady]
  · rfl

@[simp]
theorem isReady_encrypt (session : Session) (supply : Supply) (text : String) :
    (session.encrypt supply text).2.isReady = true := by
  simpa [encrypt, isReady] using isReady_withKey session supply

@[simp]
theorem isReady_decrypt (session : Session) (supply : Supply) (envelope : String) :
    (session.decrypt supply envelope).2.isReady = true := by
  simpa [decrypt, isReady] using isReady_withKey session supply

end Session

end SealedVault
