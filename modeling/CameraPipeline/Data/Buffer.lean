import Mathlib.Data.List.Range
import Mathlib.Data.Nat.ModEq

/-!
# Byte buffers

A fixed-size array of bytes, with the C operations the program uses on it. The operations are
total: positions beyond the end read as zero and are not written. Whether a position is inside the
array is checked by the program that uses it, not here.

## Main definitions

* `Buf n`: an array of `n` bytes
* `Buf.byte`, `Buf.slice`: one byte, and a run of bytes
* `Buf.clear`, `Buf.store`, `Buf.blit`: `memset` to zero, one store, and `memcpy` into the array
* `Buf.AgreeBelow k b b'`: the first `k` bytes agree

## Main results

* `Buf.byte_clear`, `Buf.byte_store`, `Buf.byte_blit`: the bytes after each operation
* `Buf.slice_add`: a run of bytes splits anywhere
-/

namespace Data

/-- An array of `n` bytes. -/
@[ext] structure Buf (n : ℕ) where
  /-- The bytes, by position. -/
  get : Fin n → UInt8

namespace Buf

variable {n m : ℕ}

/-- The array of zero bytes. -/
def zero (n : ℕ) : Buf n := ⟨fun _ => 0⟩

/-- The byte at position `i`, zero beyond the end. -/
def byte (b : Buf n) (i : ℕ) : UInt8 :=
  if h : i < n then b.get ⟨i, h⟩ else 0

/-- The `len` bytes from position `off` on. -/
def slice (b : Buf n) (off len : ℕ) : List UInt8 :=
  (List.range len).map fun k => b.byte (off + k)

/-- `memset(b, 0, len)`. -/
def clear (b : Buf n) (len : ℕ) : Buf n :=
  ⟨fun i => if i.val < len then 0 else b.get i⟩

/-- `b[k] = v`. -/
def store (b : Buf n) (k : ℕ) (v : UInt8) : Buf n :=
  ⟨fun i => if i.val = k then v else b.get i⟩

/-- `memcpy(&b[off], src, len)`, the source read through `src`. -/
def blit (b : Buf n) (off : ℕ) (src : ℕ → UInt8) (len : ℕ) : Buf n :=
  ⟨fun i => if off ≤ i.val ∧ i.val < off + len then src (i.val - off) else b.get i⟩

/-- The first `k` bytes of two arrays agree. -/
def AgreeBelow (k : ℕ) (b b' : Buf n) : Prop :=
  ∀ i < k, b.byte i = b'.byte i

theorem byte_of_lt (b : Buf n) {i : ℕ} (h : i < n) : b.byte i = b.get ⟨i, h⟩ := dif_pos h

theorem ext_byte {b b' : Buf n} (h : ∀ i < n, b.byte i = b'.byte i) : b = b' := by
  refine Buf.ext (funext fun i => ?_)
  simpa [byte_of_lt _ i.isLt] using h i i.isLt

@[simp] theorem byte_zero (n i : ℕ) : (zero n).byte i = 0 := by
  simp [byte, zero]

theorem byte_clear (b : Buf n) (len i : ℕ) :
    (b.clear len).byte i = if i < len then 0 else b.byte i := by
  by_cases h : i < n
  · rw [byte_of_lt _ h, byte_of_lt _ h]; rfl
  · simp [byte, h]

theorem byte_store (b : Buf n) {k : ℕ} (hk : k < n) (v : UInt8) (i : ℕ) :
    (b.store k v).byte i = if i = k then v else b.byte i := by
  by_cases h : i < n
  · rw [byte_of_lt _ h, byte_of_lt _ h]; rfl
  · have hik : i ≠ k := by omega
    simp [byte, h, hik]

theorem byte_blit (b : Buf n) {off len : ℕ} (hn : off + len ≤ n) (src : ℕ → UInt8) (i : ℕ) :
    (b.blit off src len).byte i =
      if off ≤ i ∧ i < off + len then src (i - off) else b.byte i := by
  by_cases h : i < n
  · rw [byte_of_lt _ h, byte_of_lt _ h]; rfl
  · have hi : ¬ (off ≤ i ∧ i < off + len) := by omega
    rw [if_neg hi]
    simp [byte, h]

@[simp] theorem blit_nil (b : Buf n) (off : ℕ) (src : ℕ → UInt8) : b.blit off src 0 = b := by
  refine Buf.ext (funext fun i => ?_)
  simp only [blit]
  rw [if_neg (by omega)]

theorem blit_congr (b : Buf n) (off : ℕ) {src src' : ℕ → UInt8} {len : ℕ}
    (h : ∀ k < len, src k = src' k) : b.blit off src len = b.blit off src' len := by
  refine Buf.ext (funext fun i => ?_)
  simp only [blit]
  split
  · rw [h _ (by omega)]
  · rfl

/-- A store is a copy of one byte. -/
theorem store_eq_blit (b : Buf n) (k : ℕ) (src : ℕ → UInt8) :
    b.store k (src 0) = b.blit k src 1 := by
  refine Buf.ext (funext fun i => ?_)
  simp only [store, blit]
  by_cases h : i.val = k
  · rw [if_pos h, if_pos (by omega), h, Nat.sub_self]
  · rw [if_neg h, if_neg (by omega)]

/-- A copy can be made in two parts. -/
theorem blit_add (b : Buf n) (off : ℕ) (src : ℕ → UInt8) (k l : ℕ) :
    (b.blit off src k).blit (off + k) (fun j => src (k + j)) l = b.blit off src (k + l) := by
  refine Buf.ext (funext fun i => ?_)
  simp only [blit]
  by_cases hl : off + k ≤ i.val ∧ i.val < off + k + l
  · rw [if_pos hl, if_pos (by omega)]
    congr 1
    omega
  · rw [if_neg hl]
    by_cases hk : off ≤ i.val ∧ i.val < off + k
    · rw [if_pos hk, if_pos (by omega)]
    · rw [if_neg hk, if_neg (by omega)]

theorem slice_zeroes (n off len : ℕ) : (zero n).slice off len = List.replicate len 0 := by
  simp [slice, List.map_const']

@[simp] theorem slice_length (b : Buf n) (off len : ℕ) : (b.slice off len).length = len := by
  simp [slice]

@[simp] theorem slice_zero (b : Buf n) (off : ℕ) : b.slice off 0 = [] := rfl

/-- A run of bytes splits anywhere. -/
theorem slice_add (b : Buf n) (off k l : ℕ) :
    b.slice off (k + l) = b.slice off k ++ b.slice (off + k) l := by
  simp [slice, List.range_add, Nat.add_assoc, Function.comp_def]

theorem slice_succ (b : Buf n) (off k : ℕ) :
    b.slice off (k + 1) = b.slice off k ++ [b.byte (off + k)] := by
  rw [slice_add]
  simp [slice]

theorem slice_congr {b : Buf n} {b' : Buf m} {off off' len : ℕ}
    (h : ∀ k < len, b.byte (off + k) = b'.byte (off' + k)) :
    b.slice off len = b'.slice off' len :=
  List.map_congr_left fun k hk => h k (List.mem_range.mp hk)

theorem clear_eq_zero (b : Buf n) : b.clear n = zero n := by
  refine ext_byte fun i hi => ?_
  rw [byte_clear, if_pos hi, byte_zero]

theorem AgreeBelow.eq {b b' : Buf n} (h : AgreeBelow n b b') : b = b' := ext_byte h

theorem AgreeBelow.clear (b b' : Buf n) (k : ℕ) : AgreeBelow k (b.clear k) (b'.clear k) := by
  intro i hi
  rw [byte_clear, byte_clear, if_pos hi, if_pos hi]

theorem AgreeBelow.blit {k : ℕ} {b b' : Buf n} (h : AgreeBelow k b b') {off len : ℕ}
    (hn : off + len ≤ n) (src : ℕ → UInt8) :
    AgreeBelow k (b.blit off src len) (b'.blit off src len) := by
  intro i hi
  rw [byte_blit b hn, byte_blit b' hn, h i hi]

end Buf

end Data
