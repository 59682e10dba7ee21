import Mathlib.Data.List.Basic
import Mathlib.Data.Nat.ModEq

/-!
# Hexadecimal text

Bytes as two uppercase hexadecimal digits each, and back.

## Main definitions

* `hexByte`, `hex`: the text of a byte (`"%02X"`), and of a list of bytes
* `unhex`: the bytes of a text, if it is one

## Main results

* `unhex_hex`: reading a hex text back gives the bytes
* `isAlphanum_of_mem_hex`: a hex text holds only digits and letters
-/

namespace Data

/-- The uppercase hexadecimal digit of `d < 16`. -/
def hexDigit (d : ℕ) : Char :=
  if d < 10 then Char.ofNat (48 + d) else Char.ofNat (55 + d)

/-- The value of an uppercase hexadecimal digit. -/
def hexValue (c : Char) : Option ℕ :=
  if 48 ≤ c.toNat ∧ c.toNat < 58 then some (c.toNat - 48)
  else if 65 ≤ c.toNat ∧ c.toNat < 71 then some (c.toNat - 55)
  else none

/-- The two digits of a byte, as `"%02X"` prints it. -/
def hexByte (b : UInt8) : List Char := [hexDigit (b.toNat / 16), hexDigit (b.toNat % 16)]

/-- The digits of a list of bytes. -/
def hex (bs : List UInt8) : List Char := bs.flatMap hexByte

/-- The bytes whose digits a text is. -/
def unhex : List Char → Option (List UInt8)
  | [] => some []
  | [_] => none
  | c :: d :: cs => do
    let hi ← hexValue c
    let lo ← hexValue d
    let bs ← unhex cs
    pure (UInt8.ofNat (16 * hi + lo) :: bs)

@[simp] theorem hex_append (bs cs : List UInt8) : hex (bs ++ cs) = hex bs ++ hex cs :=
  List.flatMap_append

theorem hex_singleton (b : UInt8) : hex [b] = hexByte b := List.flatMap_singleton hexByte b

theorem hexValue_hexDigit : ∀ d < 16, hexValue (hexDigit d) = some d := by
  decide

/-- **Reading a hex text back gives the bytes.** -/
theorem unhex_hex (bs : List UInt8) : unhex (hex bs) = some bs := by
  induction bs with
  | nil => rfl
  | cons b bs ih =>
    have hb := b.toNat_lt
    have hhi := hexValue_hexDigit (b.toNat / 16) (by omega)
    have hlo := hexValue_hexDigit (b.toNat % 16) (by omega)
    have hsum : 16 * (b.toNat / 16) + b.toNat % 16 = b.toNat := by omega
    show unhex (hexDigit (b.toNat / 16) :: hexDigit (b.toNat % 16) :: hex bs) = _
    simp only [unhex, hhi, hlo, ih]
    show some (UInt8.ofNat (16 * (b.toNat / 16) + b.toNat % 16) :: bs) = _
    rw [hsum, UInt8.ofNat_toNat]

theorem isAlphanum_hexDigit : ∀ d < 16, (hexDigit d).isAlphanum = true := by
  decide

/-- A hex text holds only digits and letters. -/
theorem isAlphanum_of_mem_hex {bs : List UInt8} {c : Char} (h : c ∈ hex bs) :
    c.isAlphanum = true := by
  obtain ⟨b, -, hb⟩ := List.mem_flatMap.mp h
  have hlt := b.toNat_lt
  simp only [hexByte, List.mem_cons, List.not_mem_nil, or_false] at hb
  rcases hb with rfl | rfl
  · exact isAlphanum_hexDigit _ (by omega)
  · exact isAlphanum_hexDigit _ (by omega)

end Data
