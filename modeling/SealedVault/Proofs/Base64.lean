import SealedVault.Base64

/-!
This module contains the theory of Base64. Main statements: `decode?_encode` and
`encode_of_decode?`, so a text is decoded exactly if it is the one spelling of some bytes, and
`utf8ByteSize_encode`, the size of that spelling.
-/

namespace SealedVault.Base64

theorem digit_ne_padding {n : Nat} (h : n < 64) : digit n ≠ padding := by
  revert h n
  decide

theorem utf8Size_digit {n : Nat} (h : n < 64) : (digit n).utf8Size = 1 := by
  revert h n
  decide

theorem ofNat_eq_of_eq_toNat {n : Nat} {byte : UInt8} (h : n = byte.toNat) :
    UInt8.ofNat n = byte := by
  rw [h, UInt8.ofNat_toNat]

theorem fullGroup?_digits (a b c : UInt8) :
    fullGroup? (digit (a.toNat / 4)) (digit (a.toNat % 4 * 16 + b.toNat / 16))
      (digit (b.toNat % 16 * 4 + c.toNat / 64)) (digit (c.toNat % 64)) = some [a, b, c] := by
  have ha := a.toNat_lt
  have hb := b.toNat_lt
  have hc := c.toNat_lt
  unfold fullGroup?
  rw [value?_digit (by omega), value?_digit (by omega), value?_digit (by omega),
    value?_digit (by omega)]
  simp only [Option.bind_eq_bind, Option.bind_some, Option.some.injEq]
  congr
  · apply ofNat_eq_of_eq_toNat
    omega
  · apply ofNat_eq_of_eq_toNat
    omega
  · apply ofNat_eq_of_eq_toNat
    omega

/-- A last group without padding reads like any other group. -/
theorem lastGroup?_eq_fullGroup? {p q r s : Char} (hr : r ≠ padding) (hs : s ≠ padding) :
    lastGroup? p q r s = fullGroup? p q r s := by
  unfold lastGroup? fullGroup?
  simp only [if_neg hr, if_neg hs]

theorem lastGroup?_two (a b : UInt8) :
    lastGroup? (digit (a.toNat / 4)) (digit (a.toNat % 4 * 16 + b.toNat / 16))
      (digit (b.toNat % 16 * 4)) padding = some [a, b] := by
  have ha := a.toNat_lt
  have hb := b.toNat_lt
  unfold lastGroup?
  rw [value?_digit (by omega), value?_digit (by omega)]
  simp only [Option.bind_eq_bind, Option.bind_some]
  rw [if_neg (digit_ne_padding (by omega)), value?_digit (by omega)]
  simp only [Option.bind_some, if_true]
  rw [if_pos (by omega)]
  congr
  · apply ofNat_eq_of_eq_toNat
    omega
  · apply ofNat_eq_of_eq_toNat
    omega

theorem lastGroup?_one (a : UInt8) :
    lastGroup? (digit (a.toNat / 4)) (digit (a.toNat % 4 * 16)) padding padding = some [a] := by
  have ha := a.toNat_lt
  unfold lastGroup?
  rw [value?_digit (by omega), value?_digit (by omega)]
  simp only [Option.bind_eq_bind, Option.bind_some, if_true, true_and]
  rw [if_pos (by omega)]
  congr
  apply ofNat_eq_of_eq_toNat
  omega

theorem ofGroups?_cons {p q r s : Char} {rest : List Char} (h : rest ≠ []) :
    ofGroups? (p :: q :: r :: s :: rest) =
      (fullGroup? p q r s).bind fun front => (ofGroups? rest).bind fun behind =>
        some (front ++ behind) := by
  cases rest with
  | nil => exact absurd rfl h
  | cons c rest => rfl

theorem ofGroups?_groups (bytes : Bytes) : ofGroups? (groups bytes) = some bytes := by
  fun_induction groups bytes with
  | case1 a b c rest _ _ _ ih =>
    cases hrest : groups rest with
    | nil =>
      -- There are no digits behind this group, so it is read as the last one
      have hc := c.toNat_lt
      have hb := b.toNat_lt
      rw [hrest] at ih
      cases ih
      show lastGroup? _ _ _ _ = _
      rw [lastGroup?_eq_fullGroup? (digit_ne_padding (by omega)) (digit_ne_padding (by omega))]
      apply fullGroup?_digits
    | cons d more =>
      rw [hrest] at ih
      rw [ofGroups?_cons (List.cons_ne_nil _ _), ih, fullGroup?_digits]
      rfl
  | case2 a b => exact lastGroup?_two a b
  | case3 a => exact lastGroup?_one a
  | case4 => rfl

@[simp]
theorem decode?_encode (bytes : Bytes) : decode? (encode bytes) = some bytes := by
  unfold decode? encode
  rw [String.toList_ofList]
  apply ofGroups?_groups

theorem groups_of_fullGroup? {p q r s : Char} {front : Bytes} (h : fullGroup? p q r s = some front)
    (rest : Bytes) : groups (front ++ rest) = p :: q :: r :: s :: groups rest := by
  unfold fullGroup? at h
  simp only [Option.bind_eq_bind, Option.bind_eq_some_iff, Option.some.injEq] at h
  obtain ⟨p', hp, q', hq, r', hr, s', hs, rfl⟩ := h
  obtain ⟨hp, rfl⟩ := digit_of_value? hp
  obtain ⟨hq, rfl⟩ := digit_of_value? hq
  obtain ⟨hr, rfl⟩ := digit_of_value? hr
  obtain ⟨hs, rfl⟩ := digit_of_value? hs
  have hp : (p' * 4 + q' / 16) % 2 ^ 8 / 4 = p' := by omega
  have hq : (p' * 4 + q' / 16) % 2 ^ 8 % 4 * 16 + (q' % 16 * 16 + r' / 4) % 2 ^ 8 / 16 = q' := by
    omega
  have hr : (q' % 16 * 16 + r' / 4) % 2 ^ 8 % 16 * 4 + (r' % 4 * 64 + s') % 2 ^ 8 / 64 = r' := by
    omega
  have hs : (r' % 4 * 64 + s') % 2 ^ 8 % 64 = s' := by omega
  simp only [List.cons_append, List.nil_append, groups, UInt8.toNat_ofNat']
  rw [hp, hq, hr, hs]

theorem groups_of_lastGroup? {p q r s : Char} {bytes : Bytes}
    (h : lastGroup? p q r s = some bytes) : groups bytes = [p, q, r, s] := by
  by_cases hpadded : r = padding ∨ s = padding
  · unfold lastGroup? at h
    simp only [Option.bind_eq_bind, Option.bind_eq_some_iff] at h
    obtain ⟨p', hp, q', hq, h⟩ := h
    obtain ⟨hp, rfl⟩ := digit_of_value? hp
    obtain ⟨hq, rfl⟩ := digit_of_value? hq
    split at h
    · next hr =>
      split at h
      · next hs =>
        obtain ⟨hs, hq0⟩ := hs
        cases h
        have hp : (p' * 4 + q' / 16) % 2 ^ 8 / 4 = p' := by omega
        have hq : (p' * 4 + q' / 16) % 2 ^ 8 % 4 * 16 = q' := by omega
        simp only [groups, UInt8.toNat_ofNat']
        rw [hp, hq, hr, hs]
      · cases h
    · next hr =>
      have hs : s = padding := hpadded.resolve_left hr
      rw [Option.bind_eq_some_iff] at h
      obtain ⟨r', hr, h⟩ := h
      obtain ⟨hr, rfl⟩ := digit_of_value? hr
      rw [if_pos hs] at h
      split at h
      · next hr0 =>
        cases h
        have hp : (p' * 4 + q' / 16) % 2 ^ 8 / 4 = p' := by omega
        have hq : (p' * 4 + q' / 16) % 2 ^ 8 % 4 * 16 +
            (q' % 16 * 16 + r' / 4) % 2 ^ 8 / 16 = q' := by
          omega
        have hr : (q' % 16 * 16 + r' / 4) % 2 ^ 8 % 16 * 4 = r' := by omega
        simp only [groups, UInt8.toNat_ofNat']
        rw [hp, hq, hr, hs]
      · cases h
  · obtain ⟨hr, hs⟩ := not_or.1 hpadded
    rw [lastGroup?_eq_fullGroup? hr hs] at h
    have := groups_of_fullGroup? h []
    simpa [groups] using this

theorem groups_of_ofGroups? {text : List Char} {bytes : Bytes} (h : ofGroups? text = some bytes) :
    groups bytes = text := by
  fun_induction ofGroups? text generalizing bytes with
  | case1 =>
    cases h
    rfl
  | case2 p q r s => exact groups_of_lastGroup? h
  | case3 p q r s rest _ ih =>
    simp only [Option.bind_eq_bind, Option.bind_eq_some_iff, Option.pure_def,
      Option.some.injEq] at h
    obtain ⟨front, hfront, behind, hbehind, rfl⟩ := h
    rw [groups_of_fullGroup? hfront, ih hbehind]
  | case4 => cases h

theorem encode_of_decode? {text : String} {bytes : Bytes} (h : decode? text = some bytes) :
    encode bytes = text := by
  unfold encode
  rw [groups_of_ofGroups? h, String.ofList_toList]

theorem decode?_eq_some_iff {text : String} {bytes : Bytes} :
    decode? text = some bytes ↔ text = encode bytes := by
  constructor
  · exact fun h => (encode_of_decode? h).symm
  · rintro rfl
    apply decode?_encode

theorem size_utf8Encode_cons (c : Char) (rest : List Char) :
    (c :: rest).utf8Encode.size = c.utf8Size + rest.utf8Encode.size := by
  rw [List.utf8Encode_cons, ByteArray.size_append, List.utf8Encode_singleton]
  simp

theorem utf8Size_padding : padding.utf8Size = 1 := by
  rfl

-- Every character of a spelling is ASCII, so that characters and bytes are counted alike
theorem size_utf8Encode_groups (bytes : Bytes) :
    (groups bytes).utf8Encode.size = 4 * ((bytes.length + 2) / 3) := by
  fun_induction groups bytes with
  | case1 a b c rest a' b' c' ih =>
    have ha := a.toNat_lt
    have hb := b.toNat_lt
    have hc := c.toNat_lt
    simp only [size_utf8Encode_cons]
    rw [utf8Size_digit (by omega), utf8Size_digit (by omega), utf8Size_digit (by omega),
      utf8Size_digit (by omega), ih]
    simp only [List.length_cons]
    omega
  | case2 a b =>
    have ha := a.toNat_lt
    have hb := b.toNat_lt
    simp only [size_utf8Encode_cons]
    rw [utf8Size_digit (by omega), utf8Size_digit (by omega), utf8Size_digit (by omega),
      utf8Size_padding]
    simp
  | case3 a =>
    have ha := a.toNat_lt
    simp only [size_utf8Encode_cons]
    rw [utf8Size_digit (by omega), utf8Size_digit (by omega), utf8Size_padding]
    simp
  | case4 => simp

theorem utf8ByteSize_encode (bytes : Bytes) :
    (encode bytes).utf8ByteSize = 4 * ((bytes.length + 2) / 3) := by
  unfold encode String.utf8ByteSize
  rw [String.toByteArray_ofList]
  apply size_utf8Encode_groups

end SealedVault.Base64
