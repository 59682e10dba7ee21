import CameraPipeline.Camera.Slicing
import Mathlib.Algebra.Order.Floor.Div

/-!
# The canonical chunking

The slicing loop at an arbitrary chunk size, with its `uint32_t` counter. The rounding-up division,
the clamped remainder and the test for the last chunk are computed apart from each other, and agree:
the loop makes the one chunking of the image in which only the last chunk may be short.

## Main definitions

* `sliceLoop C image n ci`: the chunks the loop makes from `ci` on

## Main results

* `sliceLoop_zero`: the loop makes the data chunks
* `slicing_is_canonical`: what the chunks are, for every chunk size and image
-/

namespace CameraPipeline

open Data

/-- `for (uint32_t ci = …; ci < total; ci++)`: the chunks made from `ci` on. -/
def sliceLoop (C : ℕ) {m : ℕ} (image : Buf m) (imgSize ci : UInt32) : List (ImageChunk C) :=
  if ci < sliceTotal C imgSize then
    sliceChunk C image imgSize ci :: sliceLoop C image imgSize (ci + 1)
  else []
termination_by (sliceTotal C imgSize).toNat - ci.toNat
decreasing_by
  have hlt := UInt32.lt_iff_toNat_lt.mp ‹ci < sliceTotal C imgSize›
  have hnext := toNat_succ_of_lt_total hlt
  omega

section Loop

variable {C : ℕ} {n : UInt32} {m : ℕ}

/-- From `ci` on, the loop makes the chunks that are left. -/
theorem sliceLoop_eq (image : Buf m) (ci : UInt32) :
    sliceLoop C image n ci =
      (List.range' ci.toNat ((sliceTotal C n).toNat - ci.toNat)).map
        fun i => sliceChunk C image n (.ofNat i) := by
  induction ci using sliceLoop.induct C n with
  | case1 ci hci ih =>
    have hlt := UInt32.lt_iff_toNat_lt.mp hci
    have hleft : (sliceTotal C n).toNat - ci.toNat =
        (sliceTotal C n).toNat - (ci + 1).toNat + 1 := by
      rw [toNat_succ_of_lt_total hlt]
      omega
    rw [sliceLoop, if_pos hci, ih, hleft, List.range'_succ, List.map_cons, UInt32.ofNat_toNat,
      toNat_succ_of_lt_total hlt]
  | case2 ci hci =>
    have hle : (sliceTotal C n).toNat ≤ ci.toNat := by
      rw [UInt32.lt_iff_toNat_lt] at hci
      omega
    rw [sliceLoop, if_neg hci, Nat.sub_eq_zero_of_le hle]
    rfl

/-- **The loop makes the data chunks.** -/
theorem sliceLoop_zero (image : Buf m) : sliceLoop C image n 0 = dataChunks C image n := by
  rw [sliceLoop_eq, UInt32.toNat_zero, Nat.sub_zero, ← List.range_eq_range', dataChunks]

theorem getElem_dataChunks (image : Buf m) {i : ℕ} (hi : i < (dataChunks C image n).length) :
    (dataChunks C image n)[i] = sliceChunk C image n (.ofNat i) := by
  simp [dataChunks]

end Loop

/-! ## The chunks -/

/-- The loop's `uint32_t` values `total`, `ci`, `off` and `len` are the natural numbers they stand
for, `off` never passes the image, and the cast of the length to 16 bits loses nothing. -/
structure ExactSlicing (C : ℕ) (n : UInt32) : Prop where
  total : (sliceTotal C n).toNat = n.toNat ⌈/⌉ C
  next : ∀ ci < sliceTotal C n, (ci + 1).toNat = ci.toNat + 1
  off : ∀ ci < sliceTotal C n, (sliceOff C ci).toNat = ci.toNat * C
  off_lt : ∀ ci < sliceTotal C n, (sliceOff C ci).toNat < n.toNat
  len : ∀ ci < sliceTotal C n, (sliceLen C n ci).toNat = min C (n.toNat - ci.toNat * C)
  cast : ∀ ci < sliceTotal C n, (sliceLen C n ci).toUInt16.toNat = (sliceLen C n ci).toNat

/-- **The canonical chunk** at position `i` of `total`: its length, what it holds, and its flags. -/
structure CanonicalChunk {C : ℕ} {n : UInt32} (image : Buf n.toNat) (total i : ℕ)
    (c : ImageChunk C) : Prop where
  len_of_lt : i + 1 < total → c.len.toNat = C
  len_last : i + 1 = total → 1 ≤ c.len.toNat ∧ c.len.toNat ≤ C
  inside : i * C + c.len.toNat ≤ n.toNat
  data : ∀ j < C, c.data.byte j = if j < c.len.toNat then image.byte (i * C + j) else 0
  isLast : c.isLast = if i + 1 = total then 1 else 0
  isMeta : c.isMeta = 0
  frameId : c.frameId = 1

section Canonical

variable {C : ℕ} {n : UInt32}

theorem Sliceable.exactSlicing (h : Sliceable C n) : ExactSlicing C n := by
  have hlt : ∀ ci < sliceTotal C n, ci.toNat < (sliceTotal C n).toNat :=
    fun ci hci => UInt32.lt_iff_toNat_lt.mp hci
  constructor
  -- at the largest sizes `img_size + CHUNK_SIZE` is `2 ^ 32`, and the `- 1` comes back from zero
  · rw [toNat_sliceTotal h, Nat.ceilDiv_eq_add_pred_div]
  · exact fun ci hci => toNat_succ_of_lt_total (hlt ci hci)
  · exact fun ci hci => toNat_sliceOff h (hlt ci hci)
  · intro ci hci
    rw [toNat_sliceOff h (hlt ci hci)]
    exact mul_lt_of_lt_total h (hlt ci hci)
  · exact fun ci hci => toNat_sliceLen h (hlt ci hci)
  · intro ci hci
    exact (toNat_len_sliceChunk h (Buf.zero 0) (hlt ci hci)).trans
      (toNat_sliceLen h (hlt ci hci)).symm

/-- All chunks before the last one end inside the image. -/
theorem succ_mul_lt_of_lt_total (h : Sliceable C n) {i : ℕ}
    (hi : i + 1 < (sliceTotal C n).toNat) : i * C + C < n.toNat := by
  rw [← Nat.succ_mul]
  exact mul_lt_of_lt_total h hi

theorem canonicalChunk_sliceChunk (h : Sliceable C n) (image : Buf n.toNat) {i : ℕ}
    (hi : i < (sliceTotal C n).toNat) :
    CanonicalChunk image (sliceTotal C n).toNat i (sliceChunk C image n (.ofNat i)) := by
  have hof := ofNat_toNat_of_lt_total hi
  have hci : (UInt32.ofNat i).toNat < (sliceTotal C n).toNat := by
    rw [hof]
    exact hi
  have hlen := toNat_len_sliceChunk h image hci
  have hlt := mul_lt_of_lt_total h hi
  have hpos := h.pos
  rw [hof] at hlen
  constructor
  · intro hnext
    have hinside := succ_mul_lt_of_lt_total h hnext
    rw [hlen]
    omega
  · intro _
    rw [hlen]
    omega
  · rw [hlen]
    omega
  · intro j _
    rw [byte_sliceChunk h image (by rw [hof]; exact hi), hof]
  · exact isLast_sliceChunk image hi
  · rfl
  · rfl

/-- Images with the same bytes are the same image. -/
theorem image_eq_of_slice_eq {n' : UInt32} {image : Buf n.toNat} {image' : Buf n'.toNat}
    (h : image'.slice 0 n'.toNat = image.slice 0 n.toNat) :
    (⟨n', image'⟩ : (k : UInt32) × Buf k.toNat) = ⟨n, image⟩ := by
  have hsize : n' = n := by
    have hlen := congrArg List.length h
    rwa [Buf.slice_length, Buf.slice_length, UInt32.toNat_inj] at hlen
  subst hsize
  refine congrArg (Sigma.mk n') (Buf.ext_byte fun i hi => ?_)
  have hbyte := congrArg (fun bs => bs[i]?) h
  simpa [Buf.slice, hi] using hbyte

end Canonical

/-- **The slicing loop produces the canonical chunking**, for every chunk size that fits `len` and
every image whose rounding-up sum fits `uint32_t`: the arithmetic is exact, there are as many chunks
as the size over the chunk size rounded up, each is the canonical one, and put together they are the
image. So no other image, of whatever size, has the same chunks. -/
theorem slicing_is_canonical {C : ℕ} {n : UInt32} (hC : 1 ≤ C) (hC' : C ≤ 65535)
    (hn : 1 ≤ n.toNat) (hsum : n.toNat + C - 1 < 2 ^ 32) (image : Buf n.toNat) :
    let chunks := sliceLoop C image n 0
    ExactSlicing C n ∧ chunks.length = n.toNat ⌈/⌉ C ∧ 1 ≤ chunks.length ∧
      (∀ i (hi : i < chunks.length), CanonicalChunk image chunks.length i chunks[i]) ∧
      chunks.flatMap ImageChunk.payload = image.slice 0 n.toNat ∧
      ∀ (n' : UInt32) (image' : Buf n'.toNat), 1 ≤ n'.toNat → n'.toNat + C - 1 < 2 ^ 32 →
        sliceLoop C image' n' 0 = chunks →
          (⟨n', image'⟩ : (k : UInt32) × Buf k.toNat) = ⟨n, image⟩ := by
  intro chunks
  have hs : Sliceable C n := ⟨hC, by omega, hsum⟩
  have hchunks : chunks = dataChunks C image n := sliceLoop_zero image
  have hlength : chunks.length = (sliceTotal C n).toNat := by rw [hchunks, length_dataChunks]
  have hconcat : chunks.flatMap ImageChunk.payload = image.slice 0 n.toNat := by
    rw [hchunks]
    exact flatMap_payload_dataChunks hs image
  refine ⟨hs.exactSlicing, hlength.trans hs.exactSlicing.total, ?_, ?_, hconcat, ?_⟩
  · rw [hlength]
    exact total_pos hs hn
  · intro i hi
    have hget : chunks[i] = sliceChunk C image n (.ofNat i) := by
      simp only [hchunks, getElem_dataChunks]
    rw [hget, hlength]
    exact canonicalChunk_sliceChunk hs image (hlength ▸ hi)
  · intro n' image' _ hsum' heq
    have hs' : Sliceable C n' := ⟨hC, by omega, hsum'⟩
    apply image_eq_of_slice_eq
    rw [← hconcat, ← heq, sliceLoop_zero, flatMap_payload_dataChunks hs']

/-- Three bytes in chunks of two. -/
theorem slicing_is_canonical_three :
    (sliceLoop 2 (Buf.zero (3 : UInt32).toNat) 3 0).length = 2 :=
  (slicing_is_canonical (by decide) (by decide) (by decide) (by decide) (Buf.zero _)).2.1

end CameraPipeline
