import CameraPipeline.Camera.Main

/-!
# The slicing of an image into chunks

The slicing loop computes the number of chunks, the offset and the length of each chunk, and the
`is_last` flag in `uint32_t`. For every chunk size `C` that fits `len`, and every size `n` with
`n + C ≤ 2 ^ 32`, these are the natural-number quantities, and the payloads put together are the
image. At the bound `n + C` itself wraps to zero, and the subtraction of one undoes it.

## Main definitions

* `Sliceable C n`: the sizes for which the loop computes the natural-number quantities
* `ImageChunk.payload`: the valid bytes of a chunk
* `dataChunks C image n`: the data chunks in the order pushed

## Main results

* `toNat_sliceTotal`, `toNat_sliceOff`, `toNat_sliceLen`: the loop's arithmetic
* `payload_sliceChunk`, `flatMap_payload_dataChunks`: the payloads are the image, piece by piece
-/

namespace CameraPipeline

open Data

/-- The valid bytes of a chunk. -/
def ImageChunk.payload {C : ℕ} (c : ImageChunk C) : List UInt8 := c.data.slice 0 c.len.toNat

/-- The data chunks of step 9, in the order pushed. -/
def dataChunks (C : ℕ) {m : ℕ} (image : Buf m) (n : UInt32) : List (ImageChunk C) :=
  (List.range (sliceTotal C n).toNat).map fun i => sliceChunk C image n (.ofNat i)

/-- The sizes for which the slicing arithmetic gives the natural-number quantities: the dividend
`img_size + CHUNK_SIZE - 1` fits `uint32_t`, though `img_size + CHUNK_SIZE` may be `2 ^ 32`. -/
structure Sliceable (C : ℕ) (n : UInt32) : Prop where
  pos : 0 < C
  lt : C < 2 ^ 16
  sum_lt : n.toNat + C - 1 < 2 ^ 32

theorem sliceable_chunkSize {n : UInt32} (hn : n.toNat ≤ imgBufSize) : Sliceable chunkSize n := by
  have h : imgBufSize + chunkSize - 1 < 2 ^ 32 := by decide
  exact ⟨by decide, by decide, by omega⟩

section Arithmetic

variable {C : ℕ} {n : UInt32}

theorem toNat_sub_one (h : 1 ≤ n.toNat) : (n - 1).toNat = n.toNat - 1 :=
  UInt32.toNat_sub_of_le _ _ (UInt32.le_iff_toNat_le.mpr h)

theorem Sliceable.toNat_ofNat (h : Sliceable C n) : (UInt32.ofNat C).toNat = C :=
  UInt32.toNat_ofNat_of_lt' (h.lt.trans (by decide))

/-- The number of chunks is the size over the chunk size, rounded up. The dividend is taken modulo
`2 ^ 32` twice, so that a sum of `2 ^ 32` does no harm. -/
theorem toNat_sliceTotal (h : Sliceable C n) :
    (sliceTotal C n).toNat = (n.toNat + C - 1) / C := by
  have hpos := h.pos
  have hlt := h.lt
  have hsum := h.sum_lt
  have hn := n.toNat_lt
  rw [sliceTotal, UInt32.toNat_div, UInt32.toNat_sub, UInt32.toNat_add, h.toNat_ofNat,
    UInt32.toNat_one]
  congr 1
  omega

/-- Chunks start inside the image. -/
theorem mul_lt_of_lt_total (h : Sliceable C n) {i : ℕ} (hi : i < (sliceTotal C n).toNat) :
    i * C < n.toNat := by
  rw [toNat_sliceTotal h, Nat.lt_div_iff_mul_lt h.pos] at hi
  have := h.pos
  omega

/-- The last chunk reaches the end of the image. -/
theorem le_total_mul (h : Sliceable C n) : n.toNat ≤ (sliceTotal C n).toNat * C := by
  have hdiv := Nat.lt_div_mul_add (a := n.toNat + C - 1) h.pos
  rw [toNat_sliceTotal h]
  omega

theorem total_pos (h : Sliceable C n) (hn : 0 < n.toNat) : 0 < (sliceTotal C n).toNat := by
  rw [toNat_sliceTotal h]
  have := h.pos
  exact Nat.div_pos (by omega) h.pos

theorem toNat_sliceOff (h : Sliceable C n) {ci : UInt32}
    (hi : ci.toNat < (sliceTotal C n).toNat) : (sliceOff C ci).toNat = ci.toNat * C := by
  have hlt := (mul_lt_of_lt_total h hi).trans n.toNat_lt
  rw [sliceOff, UInt32.toNat_mul, h.toNat_ofNat, Nat.mod_eq_of_lt hlt]

theorem toNat_sliceLen (h : Sliceable C n) {ci : UInt32}
    (hi : ci.toNat < (sliceTotal C n).toNat) :
    (sliceLen C n ci).toNat = min C (n.toNat - ci.toNat * C) := by
  have hoff := toNat_sliceOff h hi
  have hlt := mul_lt_of_lt_total h hi
  have hsub : (n - sliceOff C ci).toNat = n.toNat - ci.toNat * C := by
    rw [UInt32.toNat_sub_of_le _ _ (by rw [UInt32.le_iff_toNat_le, hoff]; exact hlt.le), hoff]
  simp only [sliceLen, UInt32.lt_iff_toNat_lt, hsub, h.toNat_ofNat]
  split
  · rw [h.toNat_ofNat]
    omega
  · rw [hsub]
    omega

theorem toNat_len_sliceChunk (h : Sliceable C n) {m : ℕ} (image : Buf m) {ci : UInt32}
    (hi : ci.toNat < (sliceTotal C n).toNat) :
    (sliceChunk C image n ci).len.toNat = min C (n.toNat - ci.toNat * C) := by
  have hlt := h.lt
  show (sliceLen C n ci).toUInt16.toNat = _
  rw [UInt32.toNat_toUInt16, toNat_sliceLen h hi, Nat.mod_eq_of_lt (by omega)]

/-- A chunk holds its stretch of the image, and zeros after it. -/
theorem byte_sliceChunk (h : Sliceable C n) {m : ℕ} (image : Buf m) {ci : UInt32}
    (hi : ci.toNat < (sliceTotal C n).toNat) (j : ℕ) :
    (sliceChunk C image n ci).data.byte j =
      if j < (sliceChunk C image n ci).len.toNat then image.byte (ci.toNat * C + j) else 0 := by
  rw [toNat_len_sliceChunk h image hi]
  simp only [sliceChunk, toNat_sliceLen h hi, toNat_sliceOff h hi]
  rw [Buf.byte_blit _ (by omega), Buf.byte_zero]
  simp only [Nat.zero_le, true_and, Nat.zero_add, Nat.sub_zero]

/-- The payload of a chunk is its stretch of the image. -/
theorem payload_sliceChunk (h : Sliceable C n) {m : ℕ} (image : Buf m) {ci : UInt32}
    (hi : ci.toNat < (sliceTotal C n).toNat) :
    (sliceChunk C image n ci).payload =
      image.slice (ci.toNat * C) (min C (n.toNat - ci.toNat * C)) := by
  have hlen := toNat_len_sliceChunk h image hi
  rw [ImageChunk.payload, hlen]
  refine Buf.slice_congr fun k hk => ?_
  rw [byte_sliceChunk h image hi, hlen, if_pos (by omega), Nat.zero_add]

/-- A chunk depends only on the image as far as it goes. -/
theorem sliceChunk_congr (h : Sliceable C n) {m : ℕ} {image image' : Buf m}
    (hagree : Buf.AgreeBelow n.toNat image image') (ci : UInt32)
    (hi : ci.toNat < (sliceTotal C n).toNat) :
    sliceChunk C image n ci = sliceChunk C image' n ci := by
  have hlt := mul_lt_of_lt_total h hi
  have hdata : (sliceChunk C image n ci).data = (sliceChunk C image' n ci).data := by
    refine Buf.ext_byte fun j _ => ?_
    rw [byte_sliceChunk h image hi, byte_sliceChunk h image' hi, toNat_len_sliceChunk h image hi,
      toNat_len_sliceChunk h image' hi]
    split
    · exact hagree _ (by omega)
    · rfl
  rw [sliceChunk, sliceChunk, ImageChunk.mk.injEq]
  exact ⟨hdata, rfl, rfl, rfl, rfl⟩

theorem ofNat_toNat_of_lt_total {i : ℕ} (hi : i < (sliceTotal C n).toNat) :
    (UInt32.ofNat i).toNat = i :=
  UInt32.toNat_ofNat_of_lt' (hi.trans (sliceTotal C n).toNat_lt)

/-- The loop counter does not wrap. -/
theorem toNat_succ_of_lt_total {ci : UInt32} (hi : ci.toNat < (sliceTotal C n).toNat) :
    (ci + 1).toNat = ci.toNat + 1 := by
  have htotal := (sliceTotal C n).toNat_lt
  rw [UInt32.toNat_add, UInt32.toNat_one, Nat.mod_eq_of_lt (by omega)]

/-- `is_last` is set on the last chunk and on no other. -/
theorem isLast_sliceChunk {m : ℕ} (image : Buf m) {i : ℕ} (hi : i < (sliceTotal C n).toNat) :
    (sliceChunk C image n (.ofNat i)).isLast = if i + 1 = (sliceTotal C n).toNat then 1 else 0 := by
  have hof := ofNat_toNat_of_lt_total hi
  have hone := toNat_sub_one (n := sliceTotal C n) (by omega)
  have hiff : UInt32.ofNat i = sliceTotal C n - 1 ↔ i + 1 = (sliceTotal C n).toNat := by
    rw [← UInt32.toNat_inj, hof, hone]
    omega
  simp only [sliceChunk, hiff]

/-- The first `k` payloads are the first `k * C` bytes of the image, as far as it goes. -/
theorem flatMap_payload_range (h : Sliceable C n) {m : ℕ} (image : Buf m) (k : ℕ)
    (hk : k ≤ (sliceTotal C n).toNat) :
    (List.range k).flatMap (fun i => (sliceChunk C image n (.ofNat i)).payload) =
      image.slice 0 (min (k * C) n.toNat) := by
  induction k with
  | zero => simp
  | succ k ih =>
    have hi := ofNat_toNat_of_lt_total (Nat.lt_of_succ_le hk)
    have hlt := mul_lt_of_lt_total h (Nat.lt_of_succ_le hk)
    rw [List.range_succ, List.flatMap_append, List.flatMap_singleton, ih (by omega),
      payload_sliceChunk h image (by rw [hi]; omega), hi, Nat.min_eq_left hlt.le]
    have hsplit : min ((k + 1) * C) n.toNat = k * C + min C (n.toNat - k * C) := by
      rw [Nat.succ_mul]
      omega
    rw [hsplit, Buf.slice_add, Nat.zero_add]

/-- **The payloads put together are the image.** -/
theorem flatMap_payload_dataChunks (h : Sliceable C n) {m : ℕ} (image : Buf m) :
    (dataChunks C image n).flatMap ImageChunk.payload = image.slice 0 n.toNat := by
  rw [dataChunks, List.flatMap_map, flatMap_payload_range h image _ le_rfl,
    Nat.min_eq_right (le_total_mul h)]

/-- The data chunks, the last one apart. -/
theorem dataChunks_eq {m : ℕ} (image : Buf m) (hpos : 0 < (sliceTotal C n).toNat) :
    dataChunks C image n =
      (List.range ((sliceTotal C n).toNat - 1)).map (fun i => sliceChunk C image n (.ofNat i)) ++
        [sliceChunk C image n (.ofNat ((sliceTotal C n).toNat - 1))] := by
  obtain ⟨t, ht⟩ := Nat.exists_eq_succ_of_ne_zero hpos.ne'
  rw [dataChunks, ht, Nat.succ_sub_one, List.range_succ, List.map_append, List.map_singleton]

/-- Data chunks are not empty, and fit their payload array. -/
theorem len_of_mem_dataChunks (h : Sliceable C n) {m : ℕ} {image : Buf m} {c : ImageChunk C}
    (hc : c ∈ dataChunks C image n) : 0 < c.len.toNat ∧ c.len.toNat ≤ C := by
  obtain ⟨i, hi, rfl⟩ := List.mem_map.mp hc
  rw [List.mem_range] at hi
  have hof := ofNat_toNat_of_lt_total hi
  have hlt := mul_lt_of_lt_total h hi
  have hpos := h.pos
  rw [toNat_len_sliceChunk h image (by rw [hof]; exact hi), hof]
  omega

theorem length_dataChunks {m : ℕ} (image : Buf m) :
    (dataChunks C image n).length = (sliceTotal C n).toNat := by
  rw [dataChunks, List.length_map, List.length_range]

end Arithmetic

end CameraPipeline
