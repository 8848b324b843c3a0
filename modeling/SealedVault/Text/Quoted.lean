import SealedVault.Text.Printable

/-!
This module contains texts in quotes, as messages show them.
-/

namespace SealedVault.Quoted

/-- How a character is shown inside quotes. -/
def escape (c : Char) : List Char :=
  if c = '\x00' then ['\\', '0']
  else if c = '\t' then ['\\', 't']
  else if c = '\r' then ['\\', 'r']
  else if c = '\n' then ['\\', 'n']
  else if c = '"' then ['\\', '"']
  else if c = '\\' then ['\\', '\\']
  else if isPrintable c then [c]
  else ['\\', 'u', '\x7b'] ++ Nat.toDigits 16 c.toNat ++ ['\x7d']

def quote (text : String) : String :=
  String.ofList ('"' :: text.toList.flatMap escape ++ ['"'])

/-- A filler is hidden, a sound mark is not. -/
example : quote "\u3164\uFF9E" = "\"\\u\x7b3164\x7d\uFF9E\"" := by decide +kernel

end SealedVault.Quoted
