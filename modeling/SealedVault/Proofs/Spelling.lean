import Mathlib.Algebra.Group.Nat.Defs
import SealedVault.Cipher.Envelope
import SealedVault.Proofs.Base64

/-!
This module contains the spelling of bytes in Base64, told by their bits. Main statements:
`encode_eq_iff`, so bytes are spelled by the one canonical text with the same bits, and
`ofBase64_exact`, so exactly the canonical texts are read, each as the bytes it spells.
-/

namespace SealedVault

namespace Base64

/-- The lowest bits of a number, `width` of them, the highest one first. -/
def bits : Nat → Nat → List Bool
  | 0, _ => []
  | width + 1, n => bits width (n / 2) ++ [n % 2 == 1]

/-- The characters of some digits, with padding behind them. -/
def spelling (digits : List Nat) (pads : Nat) : List Char :=
  digits.map digit ++ List.replicate pads padding

/-- Digits in groups of four, the last one padded. Bits that belong to no byte are zero. -/
structure Canonical (digits : List Nat) (pads : Nat) : Prop where
  digits_lt : ∀ n ∈ digits, n < 64
  pads_le : pads ≤ 2
  grouped : (digits.length + pads) % 4 = 0
  unused : ∀ last ∈ digits.getLast?, last % 4 ^ pads = 0

/-- The digits have the bits of the bytes, six each, and two more bits for each padding. -/
def Regroups (digits : List Nat) (pads : Nat) (bytes : Bytes) : Prop :=
  digits.flatMap (bits 6) =
    bytes.flatMap (fun byte => bits 8 byte.toNat) ++ List.replicate (2 * pads) false

section Bits

theorem length_bits (width n : Nat) : (bits width n).length = width := by
  induction width generalizing n with
  | zero => rfl
  | succ width ih => rw [bits, List.length_append, ih, List.length_singleton]

theorem bits_append (width more high : Nat) {low : Nat} (h : low < 2 ^ more) :
    bits (width + more) (high * 2 ^ more + low) = bits width high ++ bits more low := by
  induction more generalizing low with
  | zero =>
    have hlow : low = 0 := by omega
    rw [hlow, Nat.pow_zero, Nat.mul_one]
    exact (List.append_nil _).symm
  | succ more ih =>
    rw [Nat.pow_succ] at h
    have hhalf : (high * 2 ^ (more + 1) + low) / 2 = high * 2 ^ more + low / 2 := by
      rw [Nat.pow_succ, ← Nat.mul_assoc]
      omega
    have hlast : (high * 2 ^ (more + 1) + low) % 2 = low % 2 := by
      rw [Nat.pow_succ, ← Nat.mul_assoc]
      omega
    rw [← Nat.add_assoc, bits, bits, hhalf, hlast, ih (by omega), List.append_assoc]

theorem bits_injective {width m n : Nat} (hm : m < 2 ^ width) (hn : n < 2 ^ width)
    (h : bits width m = bits width n) : m = n := by
  induction width generalizing m n with
  | zero => omega
  | succ width ih =>
    rw [Nat.pow_succ] at hm hn
    obtain ⟨hfront, hlast⟩ := List.append_inj h (by rw [length_bits, length_bits])
    have hhalf := ih (by omega) (by omega) hfront
    have hparity := List.singleton_inj.1 hlast
    rw [Bool.eq_iff_iff, beq_iff_eq, beq_iff_eq] at hparity
    omega

theorem bits_zero (width : Nat) : bits width 0 = List.replicate width false := by
  induction width with
  | zero => rfl
  | succ width ih => rw [bits, Nat.zero_div, ih, List.replicate_succ']; rfl

theorem eq_of_flatMap_bits {bytes others : Bytes}
    (h : bytes.flatMap (fun byte => bits 8 byte.toNat) =
      others.flatMap fun byte => bits 8 byte.toNat) : bytes = others := by
  induction bytes generalizing others with
  | nil =>
    cases others with
    | nil => rfl
    | cons other rest => cases h
  | cons byte more ih =>
    cases others with
    | nil => cases h
    | cons other rest =>
      rw [List.flatMap_cons, List.flatMap_cons] at h
      obtain ⟨hfirst, hrest⟩ := List.append_inj h (by rw [length_bits, length_bits])
      rw [UInt8.toNat_inj.1 (bits_injective byte.toNat_lt other.toNat_lt hfirst), ih hrest]

end Bits

section Regroups

variable {p q r s : Nat} {a b c : UInt8}

theorem Regroups.cons {digits : List Nat} {pads : Nat} {bytes : Bytes}
    (h : Regroups digits pads bytes) (hq : q < 64) (hr : r < 64) (hs : s < 64)
    (hgroup : ((p * 64 + q) * 64 + r) * 64 + s = (a.toNat * 256 + b.toNat) * 256 + c.toNat) :
    Regroups (p :: q :: r :: s :: digits) pads (a :: b :: c :: bytes) := by
  have hbits : bits 6 p ++ bits 6 q ++ bits 6 r ++ bits 6 s =
      bits 8 a.toNat ++ bits 8 b.toNat ++ bits 8 c.toNat := by
    rw [← bits_append 6 6 p hq, ← bits_append 12 6 _ hr, ← bits_append 18 6 _ hs,
      ← bits_append 8 8 _ b.toNat_lt, ← bits_append 16 8 _ c.toNat_lt]
    exact congrArg (bits 24) hgroup
  unfold Regroups at h ⊢
  simp only [List.flatMap_cons, ← List.append_assoc]
  rw [hbits, h, ← List.append_assoc]

theorem regroups_two (hq : q < 64) (hr : r < 64)
    (hgroup : (p * 64 + q) * 64 + r = (a.toNat * 256 + b.toNat) * 4) :
    Regroups [p, q, r] 1 [a, b] := by
  unfold Regroups
  rw [Nat.mul_one, ← bits_zero]
  simp only [List.flatMap_cons, List.flatMap_nil, List.append_nil, ← List.append_assoc]
  rw [← bits_append 6 6 p hq, ← bits_append 12 6 _ hr, ← bits_append 8 8 _ b.toNat_lt,
    ← bits_append 16 2 _ (by decide)]
  exact congrArg (bits 18) hgroup

theorem regroups_one (hq : q < 64) (hgroup : p * 64 + q = a.toNat * 16) :
    Regroups [p, q] 2 [a] := by
  unfold Regroups
  rw [← bits_zero]
  simp only [List.flatMap_cons, List.flatMap_nil, List.append_nil]
  rw [← bits_append 6 6 p hq, ← bits_append 8 4 _ (by decide)]
  exact congrArg (bits 12) hgroup

end Regroups

theorem Canonical.cons {digits : List Nat} {pads : Nat} (h : Canonical digits pads) {p q r s : Nat}
    (hp : p < 64) (hq : q < 64) (hr : r < 64) (hs : s < 64) :
    Canonical (p :: q :: r :: s :: digits) pads where
  digits_lt := by
    simp only [List.forall_mem_cons]
    exact ⟨hp, hq, hr, hs, h.digits_lt⟩
  pads_le := h.pads_le
  grouped := by
    have hgrouped := h.grouped
    simp only [List.length_cons]
    omega
  unused := by
    cases digits with
    | nil =>
      have hgrouped := h.grouped
      have hpads := h.pads_le
      have hnone : pads = 0 := by simp at hgrouped; omega
      intro last hlast
      rw [hnone, Nat.pow_zero, Nat.mod_one]
    | cons d rest => exact h.unused

theorem Canonical.tail {digits : List Nat} {pads : Nat} {p q r s : Nat}
    (h : Canonical (p :: q :: r :: s :: digits) pads) : Canonical digits pads where
  digits_lt := by
    have hdigits := h.digits_lt
    simp only [List.forall_mem_cons] at hdigits
    exact hdigits.2.2.2.2
  pads_le := h.pads_le
  grouped := by
    have hgrouped := h.grouped
    simp only [List.length_cons] at hgrouped
    omega
  unused := by
    cases digits with
    | nil => nofun
    | cons d rest => exact h.unused

theorem canonical_two {p q r : Nat} (hp : p < 64) (hq : q < 64) (hr : r < 64)
    (hunused : r % 4 = 0) : Canonical [p, q, r] 1 where
  digits_lt := by
    simp only [List.forall_mem_cons]
    exact ⟨hp, hq, hr, nofun⟩
  pads_le := by decide
  grouped := by simp
  unused := by
    rintro last ⟨⟩
    exact hunused

theorem canonical_one {p q : Nat} (hp : p < 64) (hq : q < 64) (hunused : q % 16 = 0) :
    Canonical [p, q] 2 where
  digits_lt := by
    simp only [List.forall_mem_cons]
    exact ⟨hp, hq, nofun⟩
  pads_le := by decide
  grouped := by simp
  unused := by
    rintro last ⟨⟩
    exact hunused

theorem canonical_nil : Canonical [] 0 where
  digits_lt := nofun
  pads_le := by decide
  grouped := rfl
  unused := nofun

/-- The digits and the padding of every spelling. -/
theorem exists_digits (bytes : Bytes) :
    ∃ digits pads, Canonical digits pads ∧ groups bytes = spelling digits pads ∧
      Regroups digits pads bytes := by
  fun_induction groups bytes with
  | case1 a' b' c' rest a b c ih =>
    obtain ⟨digits, pads, hcanonical, hspelling, hregroups⟩ := ih
    have ha := a'.toNat_lt
    have hb := b'.toNat_lt
    have hc := c'.toNat_lt
    refine ⟨a / 4 :: (a % 4 * 16 + b / 16) :: (b % 16 * 4 + c / 64) :: c % 64 :: digits, pads,
      hcanonical.cons (by omega) (by omega) (by omega) (by omega), ?_,
      hregroups.cons (by omega) (by omega) (by omega) (by omega)⟩
    rw [hspelling]
    rfl
  | case2 a' b' a b =>
    have ha := a'.toNat_lt
    have hb := b'.toNat_lt
    exact ⟨[a / 4, a % 4 * 16 + b / 16, b % 16 * 4], 1,
      canonical_two (by omega) (by omega) (by omega) (by omega), rfl,
      regroups_two (by omega) (by omega) (by omega)⟩
  | case3 a' a =>
    have ha := a'.toNat_lt
    exact ⟨[a / 4, a % 4 * 16], 2, canonical_one (by omega) (by omega) (by omega), rfl,
      regroups_one (by omega) (by omega)⟩
  | case4 => exact ⟨[], 0, canonical_nil, rfl, rfl⟩

section Digits

variable {p q r s : Nat} (hp : p < 64) (hq : q < 64)
include hp hq

theorem exists_groups_four (hr : r < 64) (hs : s < 64) (rest : Bytes) :
    ∃ a b c : UInt8,
      groups (a :: b :: c :: rest) = digit p :: digit q :: digit r :: digit s :: groups rest ∧
      ((p * 64 + q) * 64 + r) * 64 + s = (a.toNat * 256 + b.toNat) * 256 + c.toNat := by
  refine ⟨.ofNat (p * 4 + q / 16), .ofNat (q % 16 * 16 + r / 4), .ofNat (r % 4 * 64 + s), ?_, ?_⟩
  · have hgroup : fullGroup? (digit p) (digit q) (digit r) (digit s) = some
        [.ofNat (p * 4 + q / 16), .ofNat (q % 16 * 16 + r / 4), .ofNat (r % 4 * 64 + s)] := by
      unfold fullGroup?
      rw [value?_digit hp, value?_digit hq, value?_digit hr, value?_digit hs]
      rfl
    apply groups_of_fullGroup? hgroup
  · simp only [UInt8.toNat_ofNat']
    omega

theorem exists_groups_two (hr : r < 64) (hunused : r % 4 = 0) :
    ∃ a b : UInt8, groups [a, b] = [digit p, digit q, digit r, padding] ∧
      (p * 64 + q) * 64 + r = (a.toNat * 256 + b.toNat) * 4 := by
  refine ⟨.ofNat (p * 4 + q / 16), .ofNat (q % 16 * 16 + r / 4), ?_, ?_⟩
  · apply groups_of_lastGroup?
    unfold lastGroup?
    simp only [value?_digit hp, value?_digit hq, value?_digit hr, Option.bind_eq_bind,
      Option.bind_some, if_neg (digit_ne_padding hr), if_pos hunused, if_true]
  · simp only [UInt8.toNat_ofNat']
    omega

theorem exists_groups_one (hunused : q % 16 = 0) :
    ∃ a : UInt8, groups [a] = [digit p, digit q, padding, padding] ∧
      p * 64 + q = a.toNat * 16 := by
  refine ⟨.ofNat (p * 4 + q / 16), ?_, ?_⟩
  · apply groups_of_lastGroup?
    unfold lastGroup?
    simp only [value?_digit hp, value?_digit hq, Option.bind_eq_bind, Option.bind_some, if_true,
      true_and, if_pos hunused]
  · simp only [UInt8.toNat_ofNat']
    omega

end Digits

theorem Canonical.pads_eq {digits : List Nat} {pads : Nat} (h : Canonical digits pads) :
    digits.length % 4 ≠ 1 ∧ pads = (4 - digits.length % 4) % 4 := by
  have hgrouped := h.grouped
  have hpads := h.pads_le
  omega

/-- Digits and padding that are canonical are the spelling of some bytes. -/
theorem Canonical.exists_bytes {digits : List Nat} {pads : Nat} (h : Canonical digits pads) :
    ∃ bytes, groups bytes = spelling digits pads ∧ Regroups digits pads bytes := by
  obtain ⟨hshape, hpads⟩ := h.pads_eq
  match digits, h with
  | [], h =>
    cases hpads
    exact ⟨[], rfl, rfl⟩
  | [p], h => exact absurd rfl hshape
  | [p, q], h =>
    cases hpads
    obtain ⟨hdigits, -, -, hunused⟩ := h
    simp only [List.forall_mem_cons] at hdigits
    obtain ⟨hp, hq, -⟩ := hdigits
    obtain ⟨a, hgroups, hgroup⟩ := exists_groups_one hp hq (hunused q rfl)
    exact ⟨[a], hgroups, regroups_one hq hgroup⟩
  | [p, q, r], h =>
    cases hpads
    obtain ⟨hdigits, -, -, hunused⟩ := h
    simp only [List.forall_mem_cons] at hdigits
    obtain ⟨hp, hq, hr, -⟩ := hdigits
    obtain ⟨a, b, hgroups, hgroup⟩ := exists_groups_two hp hq hr (hunused r rfl)
    exact ⟨[a, b], hgroups, regroups_two hq hr hgroup⟩
  | p :: q :: r :: s :: rest, h =>
    have hdigits := h.digits_lt
    simp only [List.forall_mem_cons] at hdigits
    obtain ⟨hp, hq, hr, hs, -⟩ := hdigits
    obtain ⟨bytes, hspelling, hregroups⟩ := h.tail.exists_bytes
    obtain ⟨a, b, c, hgroups, hgroup⟩ := exists_groups_four hp hq hr hs bytes
    refine ⟨a :: b :: c :: bytes, ?_, hregroups.cons hq hr hs hgroup⟩
    rw [hgroups, hspelling]
    rfl

theorem Regroups.bytes_eq {digits : List Nat} {pads : Nat} {bytes others : Bytes}
    (h : Regroups digits pads bytes) (hothers : Regroups digits pads others) : bytes = others := by
  apply eq_of_flatMap_bits
  apply List.append_cancel_right (h.symm.trans hothers)

theorem encode_eq_iff {bytes : Bytes} {text : String} :
    encode bytes = text ↔
      ∃ digits pads, Canonical digits pads ∧ text.toList = spelling digits pads ∧
        Regroups digits pads bytes := by
  constructor
  · rintro rfl
    unfold encode
    rw [String.toList_ofList]
    apply exists_digits
  · rintro ⟨digits, pads, hcanonical, htext, hregroups⟩
    obtain ⟨others, hspelling, hothers⟩ := hcanonical.exists_bytes
    rw [hregroups.bytes_eq hothers, encode, hspelling, ← htext, String.ofList_toList]

theorem exists_encode_eq_iff {text : String} :
    (∃ bytes, encode bytes = text) ↔
      ∃ digits pads, Canonical digits pads ∧ text.toList = spelling digits pads := by
  constructor
  · rintro ⟨bytes, h⟩
    obtain ⟨digits, pads, hcanonical, htext, -⟩ := encode_eq_iff.1 h
    exact ⟨digits, pads, hcanonical, htext⟩
  · rintro ⟨digits, pads, hcanonical, htext⟩
    obtain ⟨bytes, -, hregroups⟩ := hcanonical.exists_bytes
    exact ⟨bytes, encode_eq_iff.2 ⟨digits, pads, hcanonical, htext, hregroups⟩⟩

theorem length_groups (bytes : Bytes) : (groups bytes).length = 4 * ((bytes.length + 2) / 3) := by
  fun_induction groups bytes with
  | case1 a b c rest _ _ _ ih =>
    simp only [List.length_cons, ih]
    omega
  | case2 a b => simp
  | case3 a => simp
  | case4 => rfl

end Base64

namespace Envelope

theorem ofBase64_eq_ok_iff {text : String} {bytes : Bytes} :
    ofBase64 text = .ok bytes ↔ Base64.encode bytes = text := by
  rw [@eq_comm _ (Base64.encode bytes), ← Base64.decode?_eq_some_iff]
  unfold ofBase64
  cases Base64.decode? text with
  | none => exact ⟨nofun, nofun⟩
  | some found => rw [Except.ok.injEq, Option.some.injEq]

theorem ofBase64_eq_error_iff {text : String} :
    ofBase64 text = .error invalidBase64 ↔ ∀ bytes, Base64.encode bytes ≠ text := by
  constructor
  · intro h bytes hspelled
    rw [ofBase64_eq_ok_iff.2 hspelled] at h
    cases h
  · intro h
    unfold ofBase64
    cases hdecode : Base64.decode? text with
    | none => rfl
    | some bytes => exact absurd (Base64.encode_of_decode? hdecode) (h bytes)

/--
Encoding is one-to-one onto the canonical texts, and decoding is its inverse. Every other text is
refused. The bytes that a canonical text spells are the bits of its digits.
-/
theorem ofBase64_exact :
    (∀ bytes : Bytes, ofBase64 (Base64.encode bytes) = .ok bytes ∧
      (Base64.encode bytes).length = 4 * ((bytes.length + 2) / 3)) ∧
    ∀ text : String,
      (∀ bytes, ofBase64 text = .ok bytes ↔ Base64.encode bytes = text) ∧
      (ofBase64 text = .error (.invalidEncoding "invalid Base64 encoding") ↔
        ∀ bytes, Base64.encode bytes ≠ text) ∧
      (∀ bytes, Base64.encode bytes = text ↔
        ∃ digits pads, Base64.Canonical digits pads ∧
          text.toList = Base64.spelling digits pads ∧ Base64.Regroups digits pads bytes) ∧
      ((∃ bytes, Base64.encode bytes = text) ↔
        ∃ digits pads, Base64.Canonical digits pads ∧
          text.toList = Base64.spelling digits pads) := by
  constructor
  · intro bytes
    refine ⟨ofBase64_eq_ok_iff.2 rfl, ?_⟩
    unfold Base64.encode
    rw [String.length_ofList, Base64.length_groups]
  · intro text
    exact ⟨fun bytes => ofBase64_eq_ok_iff, ofBase64_eq_error_iff,
      fun bytes => Base64.encode_eq_iff, Base64.exists_encode_eq_iff⟩

-- The third digit of two bytes has two bits too many, and they must be zero
example : ofBase64 "+/8=" = .ok [0xFB, 0xFF] := rfl
example : ofBase64 "+/9=" = .error invalidBase64 := rfl

end Envelope

end SealedVault
