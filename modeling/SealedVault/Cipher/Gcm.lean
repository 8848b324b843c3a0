import SealedVault.Cipher.Aes
import SealedVault.Cipher.BlockField

/-!
This module contains Galois/Counter Mode over AES, with initialisation vectors of twelve bytes and
no additional data. Main statements: `crypt_crypt`, so the key stream that hides a plaintext also
uncovers it, and `length_tag`.
-/

namespace SealedVault.Cipher.Gcm

def tagSize : Nat := 16

/-- The input of the cipher for one counter value of one initialisation vector. -/
def counterBlock (iv : Bytes) (counter : Nat) : Aes.Block :=
  .ofBytes (iv ++ (BlockField.ofWord (UInt64.ofNat counter)).drop 4)

/-- As many bytes as the blocks hold that cover `size` bytes. Counters start at two. -/
def keyStream (schedule : Aes.Schedule) (iv : Bytes) (size : Nat) : Bytes :=
  (List.range ((size + 15) / 16)).flatMap fun i =>
    (schedule.encrypt (counterBlock iv (i + 2))).toBytes

/-- Adds the key stream to some bytes. -/
def crypt (schedule : Aes.Schedule) (iv bytes : Bytes) : Bytes :=
  List.zipWith (· ^^^ ·) bytes (keyStream schedule iv bytes.length)

/-- The value of some bytes, block by block, at the point `h`. Zeros fill the last block. -/
def hash (h : BlockField) (sum : BlockField) (bytes : Bytes) : BlockField :=
  if bytes.isEmpty then sum
  else hash h (((BlockField.ofBytes bytes).add sum).mul h) (bytes.drop 16)
termination_by bytes.length
decreasing_by
  have : bytes ≠ [] := by simp_all
  have := List.length_pos_iff.2 this
  simp only [List.length_drop]
  omega

/-- The tag of a ciphertext: its hash with its length in bits, hidden by block number one. -/
def tag (schedule : Aes.Schedule) (iv ciphertext : Bytes) : Bytes :=
  let h := BlockField.ofBytes (schedule.encrypt (.ofBytes [])).toBytes
  let sum := hash h .zero ciphertext
  let lengths : BlockField := ⟨0, UInt64.ofNat (8 * ciphertext.length)⟩
  let hidden := BlockField.ofBytes (schedule.encrypt (counterBlock iv 1)).toBytes
  (((lengths.add sum).mul h).add hidden).toBytes

/-- The ciphertext of a plaintext and, behind it, the tag. -/
def encrypt (key iv plaintext : Bytes) : Bytes :=
  let schedule := Aes.Schedule.ofKey key
  let ciphertext := crypt schedule iv plaintext
  ciphertext ++ tag schedule iv ciphertext

/-- The plaintext of a ciphertext, if `given` is the tag that belongs to it. -/
def decrypt? (key iv ciphertext given : Bytes) : Option Bytes :=
  let schedule := Aes.Schedule.ofKey key
  if tag schedule iv ciphertext = given then some (crypt schedule iv ciphertext) else none

@[simp]
theorem length_tag (schedule : Aes.Schedule) (iv ciphertext : Bytes) :
    (tag schedule iv ciphertext).length = tagSize := by
  rfl

theorem length_keyStream (schedule : Aes.Schedule) (iv : Bytes) (size : Nat) :
    (keyStream schedule iv size).length = 16 * ((size + 15) / 16) := by
  simp [keyStream, List.length_flatMap, List.map_const', Nat.mul_comm]

@[simp]
theorem length_crypt (schedule : Aes.Schedule) (iv bytes : Bytes) :
    (crypt schedule iv bytes).length = bytes.length := by
  simp [crypt, length_keyStream]
  omega

theorem zipWith_xor_zipWith_xor (a b : Bytes) (h : a.length ≤ b.length) :
    List.zipWith (· ^^^ ·) (List.zipWith (· ^^^ ·) a b) b = a := by
  induction a generalizing b with
  | nil => simp
  | cons x xs ih =>
    cases b with
    | nil => simp at h
    | cons y ys =>
      simp only [List.length_cons, Nat.add_le_add_iff_right] at h
      simp only [List.zipWith_cons_cons, ih ys h, UInt8.xor_assoc, UInt8.xor_self, UInt8.xor_zero]

@[simp]
theorem crypt_crypt (schedule : Aes.Schedule) (iv bytes : Bytes) :
    crypt schedule iv (crypt schedule iv bytes) = bytes := by
  have h : bytes.length ≤ (keyStream schedule iv bytes.length).length := by
    rw [length_keyStream]; omega
  rw [crypt, length_crypt]
  exact zipWith_xor_zipWith_xor _ _ h

@[simp]
theorem length_encrypt (key iv plaintext : Bytes) :
    (encrypt key iv plaintext).length = plaintext.length + tagSize := by
  simp [encrypt]

end SealedVault.Cipher.Gcm
