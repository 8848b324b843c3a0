import SealedVault.Base64
import SealedVault.Cipher.Error
import SealedVault.Cipher.Gcm

/-!
This module contains envelopes: an initialisation vector, the ciphertext of some plaintext and the
tag, one behind the other. Main statements: `openUnder_sealUnder` and `eq_sealUnder_of_openUnder`,
so that an envelope opens exactly if it was sealed under the same key.
-/

namespace SealedVault

/-- The secret under which envelopes are sealed. -/
structure Key where
  bytes : Bytes
  size_eq : bytes.length = 32

/-- An initialisation vector, drawn afresh for every envelope. -/
structure Iv where
  bytes : Bytes
  size_eq : bytes.length = 12

def Key.size : Nat := 32

def Iv.size : Nat := 12

namespace Envelope

/-- The size of an envelope without any ciphertext. -/
def minSize : Nat := Iv.size + Cipher.Gcm.tagSize

/-- The envelope has too few bytes for its fixed parts. -/
def tooShort (size : Nat) : CipherError :=
  .authenticationFailed s!"envelope too short: {size} bytes, need at least {minSize}"

/-- The tag belongs to another key, initialisation vector or ciphertext. -/
def forged : CipherError :=
  .authenticationFailed "aead::Error"

def invalidBase64 : CipherError :=
  .invalidEncoding "invalid Base64 encoding"

def sealUnder (key : Key) (iv : Iv) (plaintext : Bytes) : Bytes :=
  iv.bytes ++ Cipher.Gcm.encrypt key.bytes iv.bytes plaintext

/-- The plaintext of an envelope. -/
def openUnder (key : Key) (envelope : Bytes) : Except CipherError Bytes :=
  if envelope.length < minSize then
    .error (tooShort envelope.length)
  else
    let iv := envelope.take Iv.size
    let body := envelope.drop Iv.size
    let textSize := body.length - Cipher.Gcm.tagSize
    match Cipher.Gcm.decrypt? key.bytes iv (body.take textSize) (body.drop textSize) with
    | some plaintext => .ok plaintext
    | none => .error forged

/-- The bytes that a text spells in Base64. -/
def ofBase64 (text : String) : Except CipherError Bytes :=
  match Base64.decode? text with
  | some bytes => .ok bytes
  | none => .error invalidBase64

/-- The text that a plaintext holds. -/
def textOf (plaintext : Bytes) : Except CipherError String :=
  match ofUtf8? plaintext with
  | some text => .ok text
  | none => .error .notUtf8

@[simp]
theorem length_sealUnder (key : Key) (iv : Iv) (plaintext : Bytes) :
    (sealUnder key iv plaintext).length = plaintext.length + minSize := by
  simp [sealUnder, iv.size_eq, minSize, Iv.size, Cipher.Gcm.tagSize]
  omega

@[simp]
theorem openUnder_sealUnder (key : Key) (iv : Iv) (plaintext : Bytes) :
    openUnder key (sealUnder key iv plaintext) = .ok plaintext := by
  have hlen : ¬ (sealUnder key iv plaintext).length < minSize := by
    rw [length_sealUnder]; omega
  rw [openUnder, if_neg hlen]
  have htake : (sealUnder key iv plaintext).take Iv.size = iv.bytes := by
    simp [sealUnder, Iv.size, ← iv.size_eq]
  have hdrop : (sealUnder key iv plaintext).drop Iv.size =
      Cipher.Gcm.encrypt key.bytes iv.bytes plaintext := by
    simp [sealUnder, Iv.size, ← iv.size_eq]
  simp only [htake, hdrop, Cipher.Gcm.length_encrypt, Nat.add_sub_cancel]
  simp [Cipher.Gcm.encrypt, Cipher.Gcm.decrypt?]

/-- An envelope that opens was sealed under the same key, with its first bytes as the vector. -/
theorem eq_sealUnder_of_openUnder {key : Key} {envelope plaintext : Bytes}
    (h : openUnder key envelope = .ok plaintext) :
    ∃ iv : Iv, envelope = sealUnder key iv plaintext := by
  unfold openUnder at h
  split at h
  · cases h
  · next hlen =>
    simp only [Nat.not_lt] at hlen
    have hiv : (envelope.take Iv.size).length = 12 := by
      simp [minSize, Iv.size] at hlen ⊢
      omega
    refine ⟨⟨envelope.take Iv.size, hiv⟩, ?_⟩
    simp only [Cipher.Gcm.decrypt?] at h
    split at h
    · next heq =>
      split at heq
      · next htag =>
        cases heq
        cases h
        simp only [sealUnder, Cipher.Gcm.encrypt, Cipher.Gcm.crypt_crypt]
        rw [htag, List.take_append_drop, List.take_append_drop]
      · cases heq
    · cases h

end Envelope

end SealedVault
