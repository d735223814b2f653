import Mathlib

namespace PackagedTask.Library.LittleEndian

/-- The `width` bytes of `value`, least significant first; higher bits are dropped. -/
def encode : Nat → Nat → List UInt8
  | 0, _ => []
  | width + 1, value => UInt8.ofNat value :: encode width (value / 256)

def decode : List UInt8 → Nat
  | [] => 0
  | byte :: rest => byte.toNat + 256 * decode rest

@[simp] theorem encode_length (width value : Nat) : (encode width value).length = width := by
  induction width generalizing value with
  | zero => rfl
  | succ width ih => simp [encode, ih]

theorem decode_encode (width value : Nat) : decode (encode width value) = value % 256 ^ width := by
  induction width generalizing value with
  | zero => simp [encode, decode, Nat.mod_one]
  | succ width ih =>
      have split : 256 ^ (width + 1) = 256 * 256 ^ width := pow_succ' 256 width
      rw [encode, decode, ih, UInt8.toNat_ofNat', split, Nat.mod_mul]

theorem decode_encode_of_lt {width value : Nat} (fits : value < 256 ^ width) :
    decode (encode width value) = value := by
  rw [decode_encode, Nat.mod_eq_of_lt fits]

theorem decode_lt (bytes : List UInt8) : decode bytes < 256 ^ bytes.length := by
  induction bytes with
  | nil => exact Nat.one_pos
  | cons byte rest ih =>
      have small := byte.toNat_lt
      rw [decode, List.length_cons, pow_succ']
      omega

theorem encode_decode (bytes : List UInt8) : encode bytes.length (decode bytes) = bytes := by
  induction bytes with
  | nil => rfl
  | cons byte rest ih =>
      have small := byte.toNat_lt
      have higher : (byte.toNat + 256 * decode rest) / 256 = decode rest := by omega
      have lowest : UInt8.ofNat (byte.toNat + 256 * decode rest) = byte := by
        rw [UInt8.ofNat_add, UInt8.ofNat_toNat, UInt8.ofNat_mul]
        simp
      rw [decode, List.length_cons, encode, higher, lowest, ih]

end PackagedTask.Library.LittleEndian
