import Mathlib.Data.List.Basic
import Mathlib.Data.Nat.ModEq

/-!
# Little-endian fields

Fields decoded by shifts and ors, and the bytes of a number.

## Main definitions

* `le32`, `le16`: a 32-bit and a 16-bit field from its bytes
* `le32Bytes`, `le16Bytes`: the bytes of a number

## Main results

* `toNat_le32`, `toNat_le16`: the value of a field
* `le32Bytes_le32`, `le16Bytes_le16`: encoding what was decoded
-/

namespace Data

/-- `(uint32_t)b0 | ((uint32_t)b1 << 8) | ((uint32_t)b2 << 16) | ((uint32_t)b3 << 24)`. -/
def le32 (b0 b1 b2 b3 : UInt8) : UInt32 :=
  b0.toUInt32 ||| (b1.toUInt32 <<< 8) ||| (b2.toUInt32 <<< 16) ||| (b3.toUInt32 <<< 24)

/-- `(uint16_t)b0 | ((uint16_t)b1 << 8)`. -/
def le16 (b0 b1 : UInt8) : UInt16 :=
  b0.toUInt16 ||| (b1.toUInt16 <<< 8)

/-- Byte `i` of a number, the low one first. -/
def leByte (n i : ℕ) : UInt8 := UInt8.ofNat (n / 256 ^ i)

/-- The four low bytes of a number, the low one first. -/
def le32Bytes (n : ℕ) : List UInt8 := [leByte n 0, leByte n 1, leByte n 2, leByte n 3]

/-- The two low bytes of a number, the low one first. -/
def le16Bytes (n : ℕ) : List UInt8 := [leByte n 0, leByte n 1]

/-- A shifted field does not overlap what lies below it. -/
theorem or_shiftLeft_eq_add {a b i : ℕ} (ha : a < 2 ^ i) : a ||| (b <<< i) = a + 2 ^ i * b := by
  rw [Nat.shiftLeft_eq, Nat.mul_comm b, Nat.or_comm, ← Nat.two_pow_add_eq_or_of_lt ha, Nat.add_comm]

theorem toNat_le32 (b0 b1 b2 b3 : UInt8) :
    (le32 b0 b1 b2 b3).toNat =
      b0.toNat + 256 * b1.toNat + 65536 * b2.toNat + 16777216 * b3.toNat := by
  have h0 := b0.toNat_lt
  have h1 := b1.toNat_lt
  have h2 := b2.toNat_lt
  have h3 := b3.toNat_lt
  have hs : ∀ (b : UInt8) (i : ℕ), i ≤ 24 → (b.toNat <<< i) % 2 ^ 32 = b.toNat <<< i := by
    intro b i hi
    have hb := b.toNat_lt
    refine Nat.mod_eq_of_lt ?_
    rw [Nat.shiftLeft_eq]
    calc b.toNat * 2 ^ i < 2 ^ 8 * 2 ^ i := Nat.mul_lt_mul_of_pos_right hb (Nat.two_pow_pos i)
      _ = 2 ^ (8 + i) := (Nat.pow_add 2 8 i).symm
      _ ≤ 2 ^ 32 := Nat.pow_le_pow_right (by decide) (by omega)
  simp only [le32, UInt32.toNat_or, UInt32.toNat_shiftLeft, UInt8.toNat_toUInt32]
  simp only [UInt32.reduceToNat, Nat.reduceMod]
  have h01 : b0.toNat ||| b1.toNat <<< 8 = b0.toNat + 2 ^ 8 * b1.toNat := or_shiftLeft_eq_add h0
  have h012 : (b0.toNat + 2 ^ 8 * b1.toNat) ||| b2.toNat <<< 16 =
      b0.toNat + 2 ^ 8 * b1.toNat + 2 ^ 16 * b2.toNat := or_shiftLeft_eq_add (by omega)
  have h0123 : (b0.toNat + 2 ^ 8 * b1.toNat + 2 ^ 16 * b2.toNat) ||| b3.toNat <<< 24 =
      b0.toNat + 2 ^ 8 * b1.toNat + 2 ^ 16 * b2.toNat + 2 ^ 24 * b3.toNat :=
    or_shiftLeft_eq_add (by omega)
  rw [hs b1 8 (by decide), hs b2 16 (by decide), hs b3 24 (by decide), h01, h012]
  exact h0123

theorem toNat_le16 (b0 b1 : UInt8) : (le16 b0 b1).toNat = b0.toNat + 256 * b1.toNat := by
  have h0 := b0.toNat_lt
  have h1 := b1.toNat_lt
  simp only [le16, UInt16.toNat_or, UInt16.toNat_shiftLeft, UInt8.toNat_toUInt16]
  simp only [UInt16.reduceToNat, Nat.reduceMod]
  rw [Nat.mod_eq_of_lt (by rw [Nat.shiftLeft_eq]; omega)]
  exact or_shiftLeft_eq_add h0

theorem toNat_leByte (n i : ℕ) : (leByte n i).toNat = n / 256 ^ i % 256 := by
  simp [leByte]

theorem leByte_eq {n i : ℕ} {b : UInt8} (h : n / 256 ^ i % 256 = b.toNat) : leByte n i = b :=
  UInt8.toNat_inj.mp ((toNat_leByte n i).trans h)

/-- Encoding a decoded 32-bit field gives its bytes back. -/
theorem le32Bytes_le32 (b0 b1 b2 b3 : UInt8) :
    le32Bytes (le32 b0 b1 b2 b3).toNat = [b0, b1, b2, b3] := by
  have h0 := b0.toNat_lt
  have h1 := b1.toNat_lt
  have h2 := b2.toNat_lt
  have h3 := b3.toNat_lt
  rw [toNat_le32, le32Bytes, leByte_eq (b := b0), leByte_eq (b := b1), leByte_eq (b := b2),
    leByte_eq (b := b3)] <;> omega

/-- Encoding a decoded 16-bit field gives its bytes back. -/
theorem le16Bytes_le16 (b0 b1 : UInt8) : le16Bytes (le16 b0 b1).toNat = [b0, b1] := by
  have h0 := b0.toNat_lt
  have h1 := b1.toNat_lt
  rw [toNat_le16, le16Bytes, leByte_eq (b := b0), leByte_eq (b := b1)] <;> omega

end Data
