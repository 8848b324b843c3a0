import SealedVault.Decimal.Layout
import SealedVault.Json.Number
import SealedVault.Json.Quote
import SealedVault.Text.Quoted

/-!
This module contains the kind of value that stands at the front of some JSON text.
-/

namespace SealedVault.Json

/-- A value, of which only the kind counts if it is a container. -/
inductive Shape where
  | null
  | boolean (value : Bool)
  | number (value : Number)
  | text (value : String)
  | list
  | object
deriving DecidableEq, Repr

/-- Large and small numbers have an exponent, which always has a sign, all others have a point. -/
def layout : Decimal.Layout where
  minPlain := -5
  maxPlain := 15
  integral := ".0"
  plusSign := "+"

example : layout.render ⟨0x3EB0C6F7A0B5ED8D⟩ = "1e-6" := by decide +kernel

example : layout.render ⟨0x3EE4F8B588E368F1⟩ = "0.00001" := by decide +kernel

example : layout.render ⟨0x430C6BF526340000⟩ = "1000000000000000.0" := by decide +kernel

example : layout.render ⟨0xC341C37937E08000⟩ = "-1e+16" := by decide +kernel

def Number.describe : Number → String
  | natural value => s!"integer `{value}`"
  | negative value => s!"integer `-{value}`"
  | real value => "floating point `" ++ layout.render value ++ "`"

def Shape.describe : Shape → String
  | null => "null"
  | boolean true => "boolean `true`"
  | boolean false => "boolean `false`"
  | number value => value.describe
  | text value => "string " ++ Quoted.quote value
  | list => "sequence"
  | object => "map"

/-- The numeral at the front, with its minus sign if it has one. -/
def scanNumeral (bytes : Bytes) : Except Fault (Numeral × Bytes) :=
  match bytes with
  | [] => .error .truncated
  | byte :: behind =>
    if byte = ascii '-' then scanUnsigned true behind else scanUnsigned false bytes

def scanNumber (bytes : Bytes) : Except Fault (Number × Bytes) := do
  let (numeral, behind) ← scanNumeral bytes
  match numeral.number? with
  | some number => return (number, behind)
  | none => throw .malformed

def startsNumber (byte : UInt8) : Bool :=
  byte = ascii '-' || isDigit byte

/-- The words behind their first letters. -/
def nullTail : Bytes := [ascii 'u', ascii 'l', ascii 'l']

def trueTail : Bytes := [ascii 'r', ascii 'u', ascii 'e']

def falseTail : Bytes := [ascii 'a', ascii 'l', ascii 's', ascii 'e']

/-- The value at the front and the bytes behind it or, for a container, behind its bracket. -/
def scanShape (bytes : Bytes) : Except Fault (Shape × Bytes) :=
  match bytes with
  | [] => .error .truncated
  | byte :: behind =>
    if byte = ascii 'n' then return (.null, ← skipWord nullTail behind)
    else if byte = ascii 't' then return (.boolean true, ← skipWord trueTail behind)
    else if byte = ascii 'f' then return (.boolean false, ← skipWord falseTail behind)
    else if byte = ascii '"' then do
      let (text, behind) ← scanString behind
      return (.text text, behind)
    else if byte = ascii '[' then .ok (.list, behind)
    else if byte = ascii '{' then .ok (.object, behind)
    else if startsNumber byte then do
      let (number, behind) ← scanNumber bytes
      return (.number number, behind)
    else .error .malformed

theorem length_scanNumeral_lt {bytes behind : Bytes} {numeral : Numeral}
    (h : scanNumeral bytes = .ok (numeral, behind)) : behind.length < bytes.length := by
  unfold scanNumeral at h
  split at h
  · cases h
  · split at h
    · have := length_scanUnsigned_lt h
      simp; omega
    · exact length_scanUnsigned_lt h

theorem length_scanNumber_lt {bytes behind : Bytes} {number : Number}
    (h : scanNumber bytes = .ok (number, behind)) : behind.length < bytes.length := by
  simp only [scanNumber, bind, Except.bind] at h
  split at h
  · cases h
  · next hn =>
    split at h <;> cases h
    exact length_scanNumeral_lt hn

theorem length_scanShape_lt {bytes behind : Bytes} {shape : Shape}
    (h : scanShape bytes = .ok (shape, behind)) : behind.length < bytes.length := by
  have word {tail rest : Bytes} {s : Shape}
      (h : (do return (s, ← skipWord tail rest) : Except Fault (Shape × Bytes)) =
        .ok (shape, behind)) :
      behind.length ≤ rest.length := by
    simp only [bind, Except.bind] at h
    split at h <;> cases h
    next hw => exact length_skipWord_le hw
  unfold scanShape at h
  split at h
  · cases h
  · next byte rest =>
    simp only [List.length_cons]
    split at h
    · have := word h; omega
    · split at h
      · have := word h; omega
      · split at h
        · have := word h; omega
        · split at h
          · simp only [bind, Except.bind] at h
            split at h
            · cases h
            · next hs =>
              cases h
              have := length_scanString_lt hs
              omega
          · split at h
            · cases h; omega
            · split at h
              · cases h; omega
              · split at h
                · simp only [bind, Except.bind] at h
                  split at h
                  · cases h
                  · next hn =>
                    cases h
                    simpa using length_scanNumber_lt hn
                · cases h

end SealedVault.Json
