import Mathlib.Data.Nat.Digits.Lemmas
import Mathlib.Tactic

/-!
# Byte order

Words as the bytes that a little-endian host stores, and the conversion between host
and network order, which reverses them.
-/

namespace Foundation

def littleEndian (width value : Nat) : List UInt8 :=
  (List.range width).map fun i => UInt8.ofNat (value / 256 ^ i)

def fromLittleEndian (bytes : List UInt8) : Nat := Nat.ofDigits 256 (bytes.map UInt8.toNat)

@[simp] theorem length_littleEndian (width value : Nat) : (littleEndian width value).length = width := by
  simp [littleEndian]

theorem littleEndian_succ (width value : Nat) :
    littleEndian (width + 1) value = UInt8.ofNat value :: littleEndian width (value / 256) := by
  simp [littleEndian, List.range_succ_eq_map, Function.comp_def, Nat.pow_succ', Nat.div_div_eq_div_mul]

theorem fromLittleEndian_cons (byte : UInt8) (rest : List UInt8) :
    fromLittleEndian (byte :: rest) = byte.toNat + 256 * fromLittleEndian rest := by
  simp [fromLittleEndian, Nat.ofDigits_cons]

theorem fromLittleEndian_littleEndian (width value : Nat) :
    fromLittleEndian (littleEndian width value) = value % 256 ^ width := by
  induction width generalizing value with
  | zero => simp [littleEndian, fromLittleEndian, Nat.mod_one]
  | succ width ih =>
    rw [littleEndian_succ, fromLittleEndian_cons, ih, Nat.pow_succ', Nat.mod_mul, UInt8.toNat_ofNat']

theorem littleEndian_fromLittleEndian (bytes : List UInt8) :
    littleEndian bytes.length (fromLittleEndian bytes) = bytes := by
  induction bytes with
  | nil => rfl
  | cons byte rest ih =>
    have small := byte.toNat_lt
    have low : UInt8.ofNat (byte.toNat + 256 * fromLittleEndian rest) = byte := by
      apply UInt8.toNat.inj
      rw [UInt8.toNat_ofNat']
      omega
    have high : (byte.toNat + 256 * fromLittleEndian rest) / 256 = fromLittleEndian rest := by omega
    rw [List.length_cons, littleEndian_succ, fromLittleEndian_cons, low, high, ih]

theorem fromLittleEndian_lt (bytes : List UInt8) : fromLittleEndian bytes < 256 ^ bytes.length := by
  have value := fromLittleEndian_littleEndian bytes.length (fromLittleEndian bytes)
  rw [littleEndian_fromLittleEndian] at value
  exact value ▸ Nat.mod_lt _ (by positivity)

def byteSwap (width value : Nat) : Nat := fromLittleEndian (littleEndian width value).reverse

theorem byteSwap_lt (width value : Nat) : byteSwap width value < 256 ^ width := by
  simpa [byteSwap] using fromLittleEndian_lt (littleEndian width value).reverse

theorem littleEndian_byteSwap (width value : Nat) :
    littleEndian width (byteSwap width value) = (littleEndian width value).reverse := by
  simpa [byteSwap] using littleEndian_fromLittleEndian (littleEndian width value).reverse

theorem byteSwap_byteSwap (width value : Nat) : byteSwap width (byteSwap width value) = value % 256 ^ width := by
  rw [byteSwap, littleEndian_byteSwap, List.reverse_reverse, fromLittleEndian_littleEndian]

/-! ### Two-byte and four-byte words -/

theorem littleEndian_two (value : Nat) : ∃ a b, littleEndian 2 value = [a, b] :=
  ⟨_, _, by rw [littleEndian_succ, littleEndian_succ]; rfl⟩

theorem littleEndian_four (value : Nat) : ∃ a b c d, littleEndian 4 value = [a, b, c, d] :=
  ⟨_, _, _, _, by rw [littleEndian_succ, littleEndian_succ, littleEndian_succ, littleEndian_succ]; rfl⟩

theorem uint16_of_littleEndian (x : UInt16) :
    UInt16.ofNat (fromLittleEndian (littleEndian 2 x.toNat)) = x := by
  have word := x.toNat_lt
  rw [fromLittleEndian_littleEndian, Nat.mod_eq_of_lt (by simpa using word), UInt16.ofNat_toNat]

theorem uint32_of_littleEndian (x : UInt32) :
    UInt32.ofNat (fromLittleEndian (littleEndian 4 x.toNat)) = x := by
  have word := x.toNat_lt
  rw [fromLittleEndian_littleEndian, Nat.mod_eq_of_lt (by simpa using word), UInt32.ofNat_toNat]

theorem littleEndian_of_uint16 {bytes : List UInt8} (width : bytes.length = 2) :
    littleEndian 2 (UInt16.ofNat (fromLittleEndian bytes)).toNat = bytes := by
  have small := fromLittleEndian_lt bytes
  rw [width] at small
  rw [UInt16.toNat_ofNat', Nat.mod_eq_of_lt (by simpa using small)]
  exact width ▸ littleEndian_fromLittleEndian bytes

theorem littleEndian_of_uint32 {bytes : List UInt8} (width : bytes.length = 4) :
    littleEndian 4 (UInt32.ofNat (fromLittleEndian bytes)).toNat = bytes := by
  have small := fromLittleEndian_lt bytes
  rw [width] at small
  rw [UInt32.toNat_ofNat', Nat.mod_eq_of_lt (by simpa using small)]
  exact width ▸ littleEndian_fromLittleEndian bytes

end Foundation
