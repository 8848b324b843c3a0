import SealedVault.Proofs.Session

/-!
This module contains why envelopes do not open. Main statements: `openUnder_eq_error_iff`, so an
envelope fails to open if it is too short or its tag does not match, and `decrypt_exact`, so a text
opens exactly if it was sealed, and otherwise the first layer that rejects it names the reason.
-/

namespace SealedVault

namespace Envelope

/-- The last bytes are not the tag of the ciphertext before them. -/
def Forged (key : Key) (envelope : Bytes) : Prop :=
  ∃ iv ciphertext given : Bytes, envelope = iv ++ ciphertext ++ given ∧ iv.length = 12 ∧
    given.length = 16 ∧ Cipher.Gcm.tag (.ofKey key.bytes) iv ciphertext ≠ given

theorem exists_eq_append {envelope : Bytes} (h : 28 ≤ envelope.length) :
    ∃ iv ciphertext given : Bytes, envelope = iv ++ ciphertext ++ given ∧ iv.length = 12 ∧
      given.length = 16 := by
  refine ⟨envelope.take 12, (envelope.drop 12).take (envelope.length - 28),
    (envelope.drop 12).drop (envelope.length - 28), ?_, ?_, ?_⟩
  · rw [List.append_assoc, List.take_append_drop, List.take_append_drop]
  · rw [List.length_take]
    omega
  · rw [List.length_drop, List.length_drop]
    omega

theorem openUnder_append (key : Key) {iv ciphertext given : Bytes} (hiv : iv.length = 12)
    (hgiven : given.length = 16) :
    openUnder key (iv ++ ciphertext ++ given) =
      if Cipher.Gcm.tag (.ofKey key.bytes) iv ciphertext = given then
        .ok (Cipher.Gcm.crypt (.ofKey key.bytes) iv ciphertext)
      else
        .error forged := by
  have htake : (iv ++ (ciphertext ++ given)).take Iv.size = iv := by
    rw [Iv.size, ← hiv, List.take_left]
  have hdrop : (iv ++ (ciphertext ++ given)).drop Iv.size = ciphertext ++ given := by
    rw [Iv.size, ← hiv, List.drop_left]
  have hsize : (ciphertext ++ given).length - Cipher.Gcm.tagSize = ciphertext.length := by
    rw [List.length_append, hgiven, Cipher.Gcm.tagSize, Nat.add_sub_cancel]
  have hlong : ¬ (iv ++ (ciphertext ++ given)).length < minSize := by
    simp only [List.length_append, hiv, hgiven, minSize, Iv.size, Cipher.Gcm.tagSize]
    omega
  rw [List.append_assoc, openUnder, if_neg hlong]
  simp only [htake, hdrop, hsize, List.take_left, List.drop_left, Cipher.Gcm.decrypt?]
  split
  · next heq =>
    split at heq
    · next htag =>
      cases heq
      rw [if_pos htag]
    · cases heq
  · next heq =>
    split at heq
    · cases heq
    · next htag => rw [if_neg htag]

theorem openUnder_eq_error_iff {key : Key} {envelope : Bytes} :
    (∃ e, openUnder key envelope = .error e) ↔ envelope.length < 28 ∨ Forged key envelope := by
  by_cases hshort : envelope.length < 28
  · have : openUnder key envelope = .error (tooShort envelope.length) := if_pos hshort
    exact ⟨fun _ => .inl hshort, fun _ => ⟨_, this⟩⟩
  · obtain ⟨iv, ciphertext, given, rfl, hiv, hgiven⟩ := exists_eq_append (Nat.not_lt.1 hshort)
    rw [openUnder_append key hiv hgiven]
    constructor
    · rintro ⟨e, he⟩
      split at he
      · cases he
      · next htag => exact .inr ⟨iv, ciphertext, given, rfl, hiv, hgiven, htag⟩
    · rintro (h | ⟨iv', ciphertext', given', heq, hiv', hgiven', htag⟩)
      · exact absurd h hshort
      · -- The sizes of the parts fix where one ends and the next one starts
        obtain ⟨hfront, rfl⟩ := List.append_inj' heq (hgiven.trans hgiven'.symm)
        obtain ⟨rfl, rfl⟩ := List.append_inj hfront (hiv.trans hiv'.symm)
        exact ⟨forged, if_neg htag⟩

theorem exists_reason_of_openUnder {key : Key} {envelope : Bytes} {e : CipherError}
    (h : openUnder key envelope = .error e) : ∃ reason, e = .authenticationFailed reason := by
  have hauth := isAuthenticationFailure_of_openUnder h
  cases e with
  | authenticationFailed reason => exact ⟨reason, rfl⟩
  | _ => cases hauth

/-- What a stored text is under a key, and the result of opening it for that reason. -/
inductive Verdict (key : Key) (entry : String) : Except CipherError String → Prop where
  | opened (iv : Iv) (text : String) (hentry : entry = spell key iv text) :
    Verdict key entry (.ok text)
  | misspelled (reason : String) (hentry : ∀ bytes, entry ≠ Base64.encode bytes) :
    Verdict key entry (.error (.invalidEncoding reason))
  | rejected (bytes : Bytes) (reason : String) (hentry : entry = Base64.encode bytes)
    (hbytes : bytes.length < 28 ∨ Forged key bytes) :
    Verdict key entry (.error (.authenticationFailed reason))
  | garbled (iv : Iv) (plaintext : Bytes)
    (hentry : entry = Base64.encode (sealUnder key iv plaintext))
    (hplaintext : ∀ text, plaintext ≠ utf8 text) : Verdict key entry (.error .notUtf8)

end Envelope

namespace Session

variable {session : Session} {supply : Supply} {entry : String}

theorem decrypt_of_ne_encode (h : ∀ bytes, entry ≠ Base64.encode bytes) :
    (session.decrypt supply entry).1 = .error Envelope.invalidBase64 := by
  have hdecode : Base64.decode? entry = none := by
    rw [Option.eq_none_iff_forall_ne_some]
    exact fun bytes hbytes => h bytes (Base64.decode?_eq_some_iff.1 hbytes)
  rw [decrypt_fst, Envelope.ofBase64, hdecode]
  rfl

theorem decrypt_encode (bytes : Bytes) :
    (session.decrypt supply (Base64.encode bytes)).1 =
      (Envelope.openUnder (session.activeKey supply) bytes).bind Envelope.textOf := by
  rw [decrypt_fst, Envelope.ofBase64, Base64.decode?_encode]
  rfl

theorem decrypt_encode_of_rejected {bytes : Bytes}
    (h : bytes.length < 28 ∨ Envelope.Forged (session.activeKey supply) bytes) :
    ∃ reason, (session.decrypt supply (Base64.encode bytes)).1 =
      .error (.authenticationFailed reason) := by
  obtain ⟨e, he⟩ := Envelope.openUnder_eq_error_iff.2 h
  obtain ⟨reason, rfl⟩ := Envelope.exists_reason_of_openUnder he
  rw [decrypt_encode, he]
  exact ⟨reason, rfl⟩

theorem decrypt_encode_sealUnder (iv : Iv) (plaintext : Bytes) :
    (session.decrypt supply
      (Base64.encode (Envelope.sealUnder (session.activeKey supply) iv plaintext))).1 =
        Envelope.textOf plaintext := by
  rw [decrypt_encode, Envelope.openUnder_sealUnder]
  rfl

theorem decrypt_of_garbled {iv : Iv} {plaintext : Bytes} (h : ∀ text, plaintext ≠ utf8 text) :
    (session.decrypt supply
      (Base64.encode (Envelope.sealUnder (session.activeKey supply) iv plaintext))).1 =
        .error .notUtf8 := by
  have htext : ofUtf8? plaintext = none := by
    rw [Option.eq_none_iff_forall_ne_some]
    exact fun text htext => h text (eq_utf8_of_ofUtf8? htext)
  rw [decrypt_encode_sealUnder, Envelope.textOf, htext]

variable (session supply entry) in
theorem verdict_decrypt :
    Envelope.Verdict (session.activeKey supply) entry (session.decrypt supply entry).1 := by
  by_cases hspelled : ∃ bytes, entry = Base64.encode bytes
  · obtain ⟨bytes, rfl⟩ := hspelled
    by_cases hrejected : bytes.length < 28 ∨ Envelope.Forged (session.activeKey supply) bytes
    · obtain ⟨reason, hreason⟩ := decrypt_encode_of_rejected hrejected
      rw [hreason]
      exact .rejected bytes reason rfl hrejected
    · cases hopen : Envelope.openUnder (session.activeKey supply) bytes with
      | error e => exact absurd (Envelope.openUnder_eq_error_iff.1 ⟨e, hopen⟩) hrejected
      | ok plaintext =>
        obtain ⟨iv, rfl⟩ := Envelope.eq_sealUnder_of_openUnder hopen
        by_cases htext : ∃ text, plaintext = utf8 text
        · obtain ⟨text, rfl⟩ := htext
          rw [← Envelope.spell, decrypt_spell]
          exact .opened iv text rfl
        · rw [not_exists] at htext
          rw [decrypt_of_garbled htext]
          exact .garbled iv plaintext rfl htext
  · rw [not_exists] at hspelled
    rw [decrypt_of_ne_encode hspelled]
    exact .misspelled _ hspelled

/--
A text opens under a key exactly if it is the spelling of an envelope that was sealed under that
key. Any other one is rejected, and the reason is that it is no canonical Base64, or else that it is
too short or forged, or else that what was sealed is no text.
-/
theorem decrypt_exact (key : Key) (keysDrawn ivsDrawn : Nat) (supply : Supply) (entry : String) :
    let session : Session := ⟨some key, keysDrawn, ivsDrawn⟩
    let result := (session.decrypt supply entry).1
    (∀ text, result = .ok text ↔
      ∃ iv : Iv, entry =
        Base64.encode (iv.bytes ++ Cipher.Gcm.encrypt key.bytes iv.bytes (utf8 text))) ∧
    (∀ text, result = .ok text ↔ ∃ drawn, entry = (session.encrypt drawn text).1) ∧
    ((∃ reason, result = .error (.invalidEncoding reason)) ↔
      ∀ bytes, entry ≠ Base64.encode bytes) ∧
    ((∃ reason, result = .error (.authenticationFailed reason)) ↔
      ∃ bytes, entry = Base64.encode bytes ∧
        (bytes.length < 28 ∨ Envelope.Forged key bytes)) ∧
    (result = .error .notUtf8 ↔
      ∃ (iv : Iv) (plaintext : Bytes), entry =
        Base64.encode (iv.bytes ++ Cipher.Gcm.encrypt key.bytes iv.bytes plaintext) ∧
          ∀ text, plaintext ≠ utf8 text) ∧
    ((∃ text, result = .ok text) ∨ (∃ reason, result = .error (.invalidEncoding reason)) ∨
      (∃ reason, result = .error (.authenticationFailed reason)) ∨ result = .error .notUtf8) := by
  intro session result
  have hverdict : Envelope.Verdict key entry result := verdict_decrypt session supply entry
  refine ⟨?_, ?_, ?_, ?_, ?_, ?_⟩
  · intro text
    exact decrypt_eq_ok_iff session supply
  · intro text
    refine (decrypt_eq_ok_iff session supply).trans ?_
    constructor
    · rintro ⟨iv, rfl⟩
      exact ⟨⟨fun _ => key, fun _ => iv⟩, rfl⟩
    · rintro ⟨drawn, rfl⟩
      exact ⟨drawn.iv ivsDrawn, rfl⟩
  · constructor
    · rintro ⟨reason, hresult⟩
      rw [hresult] at hverdict
      cases hverdict with
      | misspelled _ hentry => exact hentry
    · exact fun hentry => ⟨_, decrypt_of_ne_encode hentry⟩
  · constructor
    · rintro ⟨reason, hresult⟩
      rw [hresult] at hverdict
      cases hverdict with
      | rejected bytes _ hentry hbytes => exact ⟨bytes, hentry, hbytes⟩
    · rintro ⟨bytes, rfl, hbytes⟩
      exact decrypt_encode_of_rejected hbytes
  · constructor
    · intro hresult
      rw [hresult] at hverdict
      cases hverdict with
      | garbled iv plaintext hentry hplaintext => exact ⟨iv, plaintext, hentry, hplaintext⟩
    · rintro ⟨iv, plaintext, rfl, hplaintext⟩
      exact decrypt_of_garbled hplaintext
  · clear_value result
    cases hverdict with
    | opened iv text _ => exact .inl ⟨text, rfl⟩
    | misspelled reason _ => exact .inr (.inl ⟨reason, rfl⟩)
    | rejected _ reason _ _ => exact .inr (.inr (.inl ⟨reason, rfl⟩))
    | garbled => exact .inr (.inr (.inr rfl))

end Session

end SealedVault
