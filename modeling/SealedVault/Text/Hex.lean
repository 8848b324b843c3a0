import SealedVault.Text.Utf8

/-!
This module contains the hexadecimal spelling of bytes: two lower-case digits each.
-/

namespace SealedVault.Hex

def digit (n : Nat) : Char :=
  if n < 10 then Char.ofNat ('0'.toNat + n) else Char.ofNat ('a'.toNat + (n - 10))

def ofByte (byte : UInt8) : List Char :=
  [digit (byte.toNat / 16), digit (byte.toNat % 16)]

def encode (bytes : Bytes) : String :=
  String.ofList (bytes.flatMap ofByte)

example : encode [0x00, 0x9A, 0xFF] = "009aff" := by decide

end SealedVault.Hex
