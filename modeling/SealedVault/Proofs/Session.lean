import SealedVault.Cipher.Session
import SealedVault.Proofs.Base64

/-!
This module contains the theory of sealing and opening texts. Main statements: `decrypt_cases`, the
four outcomes of opening a stored text, `decrypt_eq_ok_iff`, so a session opens exactly the spelled
envelopes under its key, and `activeKey_decrypt` with its siblings, so that key never changes.
-/

namespace SealedVault

namespace Envelope

/-- The spelling of an envelope of a text. -/
def spell (key : Key) (iv : Iv) (text : String) : String :=
  Base64.encode (sealUnder key iv (utf8 text))

/-- The size of any spelled envelope of a text of `size` bytes. -/
def spelledSize (size : Nat) : Nat :=
  4 * ((size + minSize + 2) / 3)

@[simp]
theorem utf8ByteSize_spell (key : Key) (iv : Iv) (text : String) :
    (spell key iv text).utf8ByteSize = spelledSize text.utf8ByteSize := by
  unfold spell spelledSize
  rw [Base64.utf8ByteSize_encode, length_sealUnder, length_utf8]

/-- The stored text is no canonical Base64, or it opens to bytes that are no text. -/
def Unreadable (key : Key) (entry : String) : Prop :=
  Base64.decode? entry = none ∨
    ∃ bytes plaintext, Base64.decode? entry = some bytes ∧
      openUnder key bytes = .ok plaintext ∧ ofUtf8? plaintext = none

theorem isAuthenticationFailure_of_openUnder {key : Key} {bytes : Bytes} {e : CipherError}
    (h : openUnder key bytes = .error e) : e.isAuthenticationFailure = true := by
  unfold openUnder at h
  split at h
  · cases h
    rfl
  · dsimp at h
    split at h
    · cases h
    · cases h
      rfl

end Envelope

namespace Session

variable (session : Session) (supply : Supply)

/-- The key of a session, be it that it is still to be drawn. -/
def activeKey : Key :=
  (session.withKey supply).1

@[simp]
theorem activeKey_new : new.activeKey supply = supply.key 0 := by
  rfl

@[simp]
theorem activeKey_withKey :
    (session.withKey supply).2.activeKey supply = session.activeKey supply := by
  obtain ⟨key?, keysDrawn, ivsDrawn⟩ := session
  cases key? with
  | none => rfl
  | some key => rfl

theorem ivsDrawn_withKey : (session.withKey supply).2.ivsDrawn = session.ivsDrawn := by
  unfold withKey
  split
  · rfl
  · rfl

theorem encrypt_fst (text : String) :
    (session.encrypt supply text).1 =
      Envelope.spell (session.activeKey supply) (supply.iv session.ivsDrawn) text := by
  rw [← ivsDrawn_withKey session supply]
  rfl

@[simp]
theorem activeKey_encrypt (text : String) :
    (session.encrypt supply text).2.activeKey supply = session.activeKey supply := by
  obtain ⟨key?, keysDrawn, ivsDrawn⟩ := session
  cases key? with
  | none => rfl
  | some key => rfl

@[simp]
theorem activeKey_decrypt (entry : String) :
    (session.decrypt supply entry).2.activeKey supply = session.activeKey supply := by
  rw [← activeKey_withKey session supply]
  rfl

theorem decrypt_fst (entry : String) :
    (session.decrypt supply entry).1 =
      (Envelope.ofBase64 entry).bind fun bytes =>
        (Envelope.openUnder (session.activeKey supply) bytes).bind Envelope.textOf := by
  rfl

theorem decrypt_cases (entry : String) :
    (Base64.decode? entry = none ∧
      (session.decrypt supply entry).1 = .error Envelope.invalidBase64) ∨
    (∃ bytes e, Base64.decode? entry = some bytes ∧
      Envelope.openUnder (session.activeKey supply) bytes = .error e ∧
      (session.decrypt supply entry).1 = .error e) ∨
    (∃ bytes plaintext, Base64.decode? entry = some bytes ∧
      Envelope.openUnder (session.activeKey supply) bytes = .ok plaintext ∧
      ofUtf8? plaintext = none ∧ (session.decrypt supply entry).1 = .error .notUtf8) ∨
    (∃ bytes text, Base64.decode? entry = some bytes ∧
      Envelope.openUnder (session.activeKey supply) bytes = .ok (utf8 text) ∧
      (session.decrypt supply entry).1 = .ok text) := by
  rw [decrypt_fst]
  cases hdecode : Base64.decode? entry with
  | none =>
    left
    simp [Envelope.ofBase64, hdecode, Except.bind]
  | some bytes =>
    right
    cases hopen : Envelope.openUnder (session.activeKey supply) bytes with
    | error e =>
      left
      exact ⟨bytes, e, rfl, hopen, by simp [Envelope.ofBase64, hdecode, hopen, Except.bind]⟩
    | ok plaintext =>
      right
      cases htext : ofUtf8? plaintext with
      | none =>
        left
        exact ⟨bytes, plaintext, rfl, hopen, htext,
          by simp [Envelope.ofBase64, Envelope.textOf, hdecode, hopen, htext, Except.bind]⟩
      | some text =>
        right
        refine ⟨bytes, text, rfl, ?_, ?_⟩
        · rw [hopen, eq_utf8_of_ofUtf8? htext]
        · simp [Envelope.ofBase64, Envelope.textOf, hdecode, hopen, htext, Except.bind]

theorem unreadable_iff {entry : String} :
    Envelope.Unreadable (session.activeKey supply) entry ↔
      ∃ e, (session.decrypt supply entry).1 = .error e ∧ e.isAuthenticationFailure = false := by
  constructor
  · rw [decrypt_fst]
    rintro (hdecode | ⟨bytes, plaintext, hdecode, hopen, htext⟩)
    · exact ⟨Envelope.invalidBase64, by simp [Envelope.ofBase64, hdecode, Except.bind], rfl⟩
    · exact ⟨.notUtf8,
        by simp [Envelope.ofBase64, Envelope.textOf, hdecode, hopen, htext, Except.bind], rfl⟩
  · rintro ⟨e, he, hauth⟩
    obtain ⟨hdecode, -⟩ | ⟨bytes, e', -, hopen, hread⟩ |
      ⟨bytes, plaintext, hdecode, hopen, htext, -⟩ | ⟨bytes, text, -, -, hread⟩ :=
      session.decrypt_cases supply entry
    · exact .inl hdecode
    · rw [he] at hread
      cases hread
      rw [Envelope.isAuthenticationFailure_of_openUnder hopen] at hauth
      cases hauth
    · exact .inr ⟨bytes, plaintext, hdecode, hopen, htext⟩
    · rw [he] at hread
      cases hread

theorem decrypt_spell (iv : Iv) (text : String) :
    (session.decrypt supply (Envelope.spell (session.activeKey supply) iv text)).1 = .ok text := by
  rw [decrypt_fst]
  unfold Envelope.ofBase64 Envelope.spell
  rw [Base64.decode?_encode]
  dsimp only [Except.bind]
  rw [Envelope.openUnder_sealUnder]
  dsimp only
  unfold Envelope.textOf
  rw [ofUtf8?_utf8]

theorem decrypt_eq_ok_iff {entry text : String} :
    (session.decrypt supply entry).1 = .ok text ↔
      ∃ iv, entry = Envelope.spell (session.activeKey supply) iv text := by
  constructor
  · intro h
    obtain ⟨-, hr⟩ | ⟨_, _, -, -, hr⟩ | ⟨_, _, -, -, -, hr⟩ | ⟨bytes, opened, hdecode, hopen, hr⟩ :=
      session.decrypt_cases supply entry
    · rw [h] at hr
      cases hr
    · rw [h] at hr
      cases hr
    · rw [h] at hr
      cases hr
    · rw [h] at hr
      cases hr
      obtain ⟨iv, rfl⟩ := Envelope.eq_sealUnder_of_openUnder hopen
      exact ⟨iv, (Base64.encode_of_decode? hdecode).symm⟩
  · rintro ⟨iv, rfl⟩
    apply decrypt_spell

end Session

end SealedVault
