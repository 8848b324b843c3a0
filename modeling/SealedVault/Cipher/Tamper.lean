import SealedVault.Base64

/-!
This module contains ways to damage an envelope: edits of its bytes and of its spelling.
-/

namespace SealedVault

inductive ByteEdit where
  /-- Adds `mask` to the byte at `index`, counted round and round. -/
  | flip (index : Nat) (mask : UInt8)
  | truncate (size : Nat)
  | skip (size : Nat)
  | append (bytes : Bytes)
deriving DecidableEq, Repr

inductive TextEdit where
  | truncate (size : Nat)
  | append (text : String)
  | prepend (text : String)
deriving DecidableEq, Repr

/-- Edits of the bytes that an envelope spells, if there are any, then of its text. -/
structure EnvelopeEdit where
  bytes : Option (List ByteEdit)
  text : List TextEdit
deriving DecidableEq, Repr

def ByteEdit.apply : ByteEdit → Bytes → Bytes
  | flip index mask, bytes => bytes.modify (index % bytes.length) (· ^^^ mask)
  | truncate size, bytes => bytes.take size
  | skip size, bytes => bytes.drop size
  | append more, bytes => bytes ++ more

def TextEdit.apply : TextEdit → String → String
  | truncate size, text => String.ofList (text.toList.take size)
  | append more, text => text ++ more
  | prepend more, text => more ++ text

/-- An envelope that spells no bytes counts as empty. -/
def EnvelopeEdit.apply (edit : EnvelopeEdit) (envelope : String) : String :=
  let respelled :=
    match edit.bytes with
    | none => envelope
    | some edits =>
      Base64.encode (edits.foldl (fun bytes edit => edit.apply bytes)
        ((Base64.decode? envelope).getD []))
  edit.text.foldl (fun text edit => edit.apply text) respelled

end SealedVault
