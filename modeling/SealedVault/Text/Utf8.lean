/-!
This module contains the two directions between text and the bytes that encode it. Main statements:
`ofUtf8?_utf8` and `eq_utf8_of_ofUtf8?`, so the bytes that are text are exactly the image of `utf8`.
-/

namespace SealedVault

/-- A run of bytes, first byte first. -/
abbrev Bytes := List UInt8

/-- The UTF-8 encoding of a text. -/
def utf8 (text : String) : Bytes :=
  text.toByteArray.data.toList

/-- The text that `bytes` encode, if they are well-formed UTF-8. -/
def ofUtf8? (bytes : Bytes) : Option String :=
  String.fromUTF8? ⟨bytes.toArray⟩

@[simp]
theorem length_utf8 (text : String) : (utf8 text).length = text.utf8ByteSize := by
  rfl

@[simp]
theorem ofUtf8?_utf8 (text : String) : ofUtf8? (utf8 text) = some text := by
  have h : text.toByteArray.IsValidUTF8 := text.isValidUTF8
  simp [ofUtf8?, utf8, String.fromUTF8?, String.fromUTF8, h]

theorem eq_utf8_of_ofUtf8? {bytes : Bytes} {text : String} (h : ofUtf8? bytes = some text) :
    bytes = utf8 text := by
  simp only [ofUtf8?, String.fromUTF8?] at h
  split at h
  · cases h
    simp [utf8, String.fromUTF8]
  · cases h

theorem utf8_injective {a b : String} (h : utf8 a = utf8 b) : a = b := by
  have := congrArg ofUtf8? h
  simpa using this

end SealedVault
