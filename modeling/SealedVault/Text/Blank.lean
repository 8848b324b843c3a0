/-!
This module contains the layout of a text: its lines, and the words of a line. A blank character is
one with the Unicode property White_Space, which has 25 members.
-/

namespace SealedVault

/-- The code points of blank characters, as ranges that include both ends. -/
def blankRanges : List (Nat × Nat) :=
  [(0x09, 0x0D), (0x20, 0x20), (0x85, 0x85), (0xA0, 0xA0), (0x1680, 0x1680), (0x2000, 0x200A),
    (0x2028, 0x2029), (0x202F, 0x202F), (0x205F, 0x205F), (0x3000, 0x3000)]

/-- Whether the character belongs to White_Space. -/
def isBlank (c : Char) : Bool :=
  blankRanges.any fun range => range.1 ≤ c.toNat && c.toNat ≤ range.2

/-- The maximal runs of characters that are not blank, in order. -/
def words (text : List Char) : List (List Char) :=
  (text.splitOnP isBlank).filter (!·.isEmpty)

/--
The lines of a text, without the line feeds that end them. A final line feed ends the last line and
starts no other. A carriage return before a line feed stays in its line, where it counts as blank.
-/
def lines (text : List Char) : List (List Char) :=
  let pieces := text.splitOn '\n'
  if pieces.getLast? = some [] then pieces.dropLast else pieces

example : (blankRanges.map fun range => range.2 - range.1 + 1).sum = 25 := by decide

end SealedVault
