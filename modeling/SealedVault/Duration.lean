/-!
This module contains spans of time, which are counted in nanoseconds.
-/

namespace SealedVault

structure Duration where
  nanoseconds : Nat
deriving DecidableEq, Repr

namespace Duration

/-- How many nanoseconds a millisecond has. -/
def millisecond : Nat := 1000000

/-- How many nanoseconds a second has. -/
def second : Nat := 1000000000

def ofMilliseconds (milliseconds : Nat) : Duration :=
  ⟨milliseconds * millisecond⟩

def ofSeconds (seconds nanoseconds : Nat) : Duration :=
  ⟨seconds * second + nanoseconds⟩

/-- The whole milliseconds of a span. -/
def milliseconds (duration : Duration) : Nat :=
  duration.nanoseconds / millisecond

@[simp]
theorem milliseconds_ofMilliseconds (n : Nat) : (ofMilliseconds n).milliseconds = n := by
  simp [ofMilliseconds, milliseconds, millisecond]

/-- A unit of time. The places are those between the unit and a nanosecond. -/
structure Unit where
  name : String
  places : Nat

/-- The nanoseconds in a unit. -/
def Unit.size (unit : Unit) : Nat :=
  Nat.pow 10 unit.places

/-- The largest unit that a span fills. -/
def unit (duration : Duration) : Unit :=
  if second ≤ duration.nanoseconds then ⟨"s", 9⟩
  else if millisecond ≤ duration.nanoseconds then ⟨"ms", 6⟩
  else if 1000 ≤ duration.nanoseconds then ⟨"µs", 3⟩
  else ⟨"ns", 0⟩

/-- The places behind the point, without the zeros at their end. -/
def fraction (places value : Nat) : List Char :=
  let digits := (Nat.toDigits 10 value).leftpad places '0'
  (digits.reverse.dropWhile (· = '0')).reverse

/-- Writes a span in its unit, with a point only if the span is no multiple of the unit. -/
def render (duration : Duration) : String :=
  let unit := duration.unit
  let whole := toString (duration.nanoseconds / unit.size)
  match fraction unit.places (duration.nanoseconds % unit.size) with
  | [] => whole ++ unit.name
  | digits => whole ++ "." ++ String.ofList digits ++ unit.name

end Duration

end SealedVault
