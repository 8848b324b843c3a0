import Mathlib.Logic.ExistsUnique
import SealedVault.Proofs.Opening

/-!
This module contains the framing of envelopes. Main statements: `openChecked?_eq`, so opening never
takes a part that is out of range or of the wrong size, and `openUnder_exact`, so the envelopes that
open are the sealed ones and all others fail authentication.
-/

namespace SealedVault

/-- Some bytes as an initialisation vector, if there are as many as it has. -/
def Iv.ofBytes? (bytes : Bytes) : Option Iv :=
  if h : bytes.length = 12 then some ⟨bytes, h⟩ else none

theorem Iv.ofBytes?_bytes (iv : Iv) : ofBytes? iv.bytes = some iv := by
  unfold ofBytes?
  rw [dif_pos iv.size_eq]

namespace Envelope

/-- The first `size` bytes and the others, if there are that many. -/
def splitAt? (bytes : Bytes) (size : Nat) : Option (Bytes × Bytes) :=
  if size ≤ bytes.length then some (bytes.take size, bytes.drop size) else none

/-- The last `size` bytes and the ones before them, if there are that many. -/
def splitBack? (bytes : Bytes) (size : Nat) : Option (Bytes × Bytes) :=
  if size ≤ bytes.length then splitAt? bytes (bytes.length - size) else none

/-- Opens an envelope in steps that fail where a part is out of range or of the wrong size. -/
def openChecked? (key : Key) (envelope : Bytes) : Option (Except CipherError Bytes) :=
  if envelope.length < minSize then
    some (.error (tooShort envelope.length))
  else do
    let (front, body) ← splitAt? envelope Iv.size
    let iv ← Iv.ofBytes? front
    let (ciphertext, given) ← splitBack? body Cipher.Gcm.tagSize
    match Cipher.Gcm.decrypt? key.bytes iv.bytes ciphertext given with
    | some plaintext => return .ok plaintext
    | none => return .error forged

theorem splitAt?_append {front : Bytes} (rest : Bytes) {size : Nat} (h : front.length = size) :
    splitAt? (front ++ rest) size = some (front, rest) := by
  subst h
  simp [splitAt?]

theorem splitBack?_append (front : Bytes) {rest : Bytes} {size : Nat} (h : rest.length = size) :
    splitBack? (front ++ rest) size = some (front, rest) := by
  unfold splitBack?
  rw [if_pos (by simp; omega)]
  apply splitAt?_append
  simp
  omega

theorem openChecked?_eq (key : Key) (envelope : Bytes) :
    openChecked? key envelope = some (openUnder key envelope) := by
  by_cases hshort : envelope.length < minSize
  · simp [openChecked?, openUnder, hshort]
  · obtain ⟨front, ciphertext, given, rfl, hfront, hgiven⟩ := exists_eq_append (Nat.not_lt.1 hshort)
    have hsplit := splitAt?_append (ciphertext ++ given) hfront
    have hback := splitBack?_append ciphertext hgiven
    have hiv := Iv.ofBytes?_bytes ⟨front, hfront⟩
    rw [openUnder_append key hfront hgiven]
    unfold openChecked?
    rw [if_neg hshort, List.append_assoc]
    simp only [Iv.size, Cipher.Gcm.tagSize, hsplit, hiv, hback, Option.bind_eq_bind,
      Option.bind_some, Cipher.Gcm.decrypt?]
    by_cases htag : Cipher.Gcm.tag (.ofKey key.bytes) front ciphertext = given
    · simp [htag]
    · simp [htag]

theorem openUnder_eq_ok_iff {key : Key} {envelope plaintext : Bytes} :
    openUnder key envelope = .ok plaintext ↔ ∃ iv, envelope = sealUnder key iv plaintext := by
  constructor
  · apply eq_sealUnder_of_openUnder
  · rintro ⟨iv, rfl⟩
    apply openUnder_sealUnder

theorem exists_eq_sealUnder_iff {key : Key} {envelope plaintext : Bytes} :
    (∃ iv, envelope = sealUnder key iv plaintext) ↔
      28 ≤ envelope.length ∧
        envelope =
          envelope.take 12 ++ Cipher.Gcm.encrypt key.bytes (envelope.take 12) plaintext := by
  constructor
  · rintro ⟨iv, rfl⟩
    have htake : (sealUnder key iv plaintext).take 12 = iv.bytes := by
      unfold sealUnder
      rw [← iv.size_eq, List.take_left]
    constructor
    · simp [minSize, Iv.size, Cipher.Gcm.tagSize]
    · rw [htake]
      rfl
  · rintro ⟨hlong, heq⟩
    have hsize : (envelope.take 12).length = 12 := by
      simp
      omega
    exact ⟨⟨envelope.take 12, hsize⟩, heq⟩

theorem isAccepted_iff {key : Key} (iv : Iv) (ciphertext : Bytes) {given : Bytes}
    (h : given.length = 16) :
    (∃ plaintext, openUnder key (iv.bytes ++ ciphertext ++ given) = .ok plaintext) ↔
      given = Cipher.Gcm.tag (.ofKey key.bytes) iv.bytes ciphertext := by
  rw [openUnder_append key iv.size_eq h]
  constructor
  · rintro ⟨plaintext, hopen⟩
    split at hopen
    · next htag => exact htag.symm
    · cases hopen
  · rintro rfl
    simp

/--
An envelope opens exactly if it is a vector, and behind it the ciphertext of the plaintext with its
tag, and any other fails authentication. No part that is taken of it is ever out of range.
-/
theorem openUnder_exact (key : Key) :
    (∀ envelope plaintext, openUnder key envelope = .ok plaintext ↔
      28 ≤ envelope.length ∧
        envelope =
          envelope.take 12 ++ Cipher.Gcm.encrypt key.bytes (envelope.take 12) plaintext) ∧
    (∀ envelope plaintext, openUnder key envelope = .ok plaintext ↔
      ∃ iv, envelope = sealUnder key iv plaintext) ∧
    (∀ envelope,
      match openUnder key envelope with
      | .ok plaintext => plaintext.length + 28 = envelope.length
      | .error e => ∃ reason, e = .authenticationFailed reason) ∧
    (∀ iv plaintext, openUnder key (sealUnder key iv plaintext) = .ok plaintext) ∧
    (∀ (iv : Iv) (ciphertext : Bytes), ∃! given : Bytes, given.length = 16 ∧
      ∃ plaintext, openUnder key (iv.bytes ++ ciphertext ++ given) = .ok plaintext) ∧
    ∀ envelope, openChecked? key envelope = some (openUnder key envelope) := by
  refine ⟨?_, ?_, ?_, ?_, ?_, ?_⟩
  · intro envelope plaintext
    rw [openUnder_eq_ok_iff, exists_eq_sealUnder_iff]
  · intro envelope plaintext
    apply openUnder_eq_ok_iff
  · intro envelope
    split
    · next plaintext hopen =>
      obtain ⟨iv, rfl⟩ := openUnder_eq_ok_iff.1 hopen
      simp [minSize, Iv.size, Cipher.Gcm.tagSize]
    · next e hopen =>
      apply exists_reason_of_openUnder hopen
  · intro iv plaintext
    apply openUnder_sealUnder
  · intro iv ciphertext
    refine ⟨Cipher.Gcm.tag (.ofKey key.bytes) iv.bytes ciphertext, ⟨rfl, ?_⟩, ?_⟩
    · apply (isAccepted_iff iv ciphertext rfl).2
      rfl
    · rintro given ⟨hsize, haccepted⟩
      apply (isAccepted_iff iv ciphertext hsize).1 haccepted
  · apply openChecked?_eq

end Envelope

end SealedVault
