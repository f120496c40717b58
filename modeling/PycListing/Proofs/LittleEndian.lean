import PycListing.Cursor
import Mathlib.Algebra.Order.Ring.Nat

/-! # Numbers as little-endian bytes

A number of a given width is written least significant byte first, and a signed one in two's
complement. Reading the bytes back gives the number again, as long as it fits the width
(`PycListing.littleEndian_littleEndianBytes`, `PycListing.bmod_littleEndian_signedBytes`), and
writing a number that was read gives its bytes again
(`PycListing.littleEndianBytes_littleEndian`).
-/

namespace PycListing

def littleEndianBytes : Nat → Nat → List UInt8
  | 0, _ => []
  | width + 1, n => n.toUInt8 :: littleEndianBytes width (n / 256)

def signedBytes (width : Nat) (n : Int) : List UInt8 :=
  littleEndianBytes width (n % (256 ^ width : Nat)).toNat

@[simp] theorem length_littleEndianBytes (width n : Nat) :
    (littleEndianBytes width n).length = width := by
  induction width generalizing n with
  | zero => rfl
  | succ width ih => rw [littleEndianBytes, List.length_cons, ih]

@[simp] theorem length_signedBytes (width : Nat) (n : Int) :
    (signedBytes width n).length = width :=
  length_littleEndianBytes _ _

theorem littleEndian_littleEndianBytes_eq_mod (width n : Nat) :
    littleEndian (littleEndianBytes width n) = n % 256 ^ width := by
  induction width generalizing n with
  | zero => rw [Nat.pow_zero, Nat.mod_one]; rfl
  | succ width ih =>
      rw [littleEndianBytes, littleEndian, ih, Nat.pow_succ', Nat.mod_mul]
      rfl

theorem littleEndian_littleEndianBytes {width n : Nat} (fits : n < 256 ^ width) :
    littleEndian (littleEndianBytes width n) = n := by
  rw [littleEndian_littleEndianBytes_eq_mod, Nat.mod_eq_of_lt fits]

theorem littleEndian_lt (bytes : List UInt8) : littleEndian bytes < 256 ^ bytes.length := by
  induction bytes with
  | nil => exact Nat.one_pos
  | cons byte rest ih =>
      have small : byte.toNat < 256 := byte.toNat_lt
      rw [littleEndian, List.length_cons, Nat.pow_succ']
      omega

theorem littleEndianBytes_littleEndian (bytes : List UInt8) :
    littleEndianBytes bytes.length (littleEndian bytes) = bytes := by
  induction bytes with
  | nil => rfl
  | cons byte rest ih =>
      have small : byte.toNat < 256 := byte.toNat_lt
      have low : (byte.toNat + 256 * littleEndian rest).toUInt8 = byte := by
        rw [← UInt8.toNat_inj, Nat.toUInt8_eq, UInt8.toNat_ofNat']
        omega
      have high : (byte.toNat + 256 * littleEndian rest) / 256 = littleEndian rest := by omega
      rw [List.length_cons, littleEndian, littleEndianBytes, low, high, ih]

/-- Bytes of some width show nothing of what lies above it. -/
theorem littleEndianBytes_add_mul (width n high : Nat) :
    littleEndianBytes width (n + 256 ^ width * high) = littleEndianBytes width n := by
  induction width generalizing n with
  | zero => rfl
  | succ width ih =>
      have scaled : 256 ^ (width + 1) * high = 256 * (256 ^ width * high) := by
        rw [Nat.pow_succ', Nat.mul_assoc]
      have low : (n + 256 * (256 ^ width * high)).toUInt8 = n.toUInt8 := by
        rw [← UInt8.toNat_inj, Nat.toUInt8_eq, Nat.toUInt8_eq, UInt8.toNat_ofNat',
          UInt8.toNat_ofNat']
        exact Nat.add_mul_mod_self_left _ _ _
      have rest : (n + 256 * (256 ^ width * high)) / 256 = n / 256 + 256 ^ width * high :=
        Nat.add_mul_div_left _ _ (by decide)
      rw [littleEndianBytes, littleEndianBytes, scaled, low, rest, ih]

/-- A signed number is read back if it lies in the upper or lower half of its width. -/
theorem bmod_littleEndian_signedBytes {width : Nat} {n : Int}
    (low : -((256 ^ width / 2 : Nat) : Int) ≤ n) (high : n < ((256 ^ width + 1) / 2 : Nat)) :
    Int.bmod (littleEndian (signedBytes width n)) (256 ^ width) = n := by
  have positive : 0 < 256 ^ width := Nat.pow_pos (by decide)
  have nonneg : 0 ≤ n % (256 ^ width : Nat) := Int.emod_nonneg _ (by omega)
  have below : n % (256 ^ width : Nat) < (256 ^ width : Nat) := Int.emod_lt_of_pos _ (by omega)
  rw [signedBytes, littleEndian_littleEndianBytes (by omega), Int.toNat_of_nonneg nonneg,
    Int.emod_bmod]
  exact Int.bmod_eq_of_le (by omega) (by omega)

end PycListing
