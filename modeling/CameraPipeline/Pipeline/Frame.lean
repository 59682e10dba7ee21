import CameraPipeline.Pipeline.System

/-!
# Frames, and how far `hello_main` is in one

A frame is what the camera pushes for one image: chunks of which the last one, and no other data
chunk, carries `is_last`. `hello_main` prints the data bytes of the chunks it takes and leaves its
loop on the first data chunk that carries `is_last`, so on a frame it takes all of it.

## Main definitions

* `dataBytes cs`: the payloads of the data chunks of `cs`
* `Frame`: a frame, with what makes it one
* `pushedFrame`: the frame `camera_MSN2_main` pushes
* `HelloAt taken hello out`: `hello_main`, having taken the chunks `taken`, has printed `out`

## Main results

* `pushedFrame_image`: the frame carries the image
* `helloStep_cases`: everything a move of `hello_main` does to the chunks and the console
* `HelloAt.out_isPrefix`, `HelloAt.done_eq`: the output inside a frame, and at its end
-/

namespace CameraPipeline

open Data Systems

/-! ## Frames -/

/-- The payloads of the data chunks, in order. -/
def dataBytes (cs : List (ImageChunk chunkSize)) : List UInt8 :=
  (cs.filter fun c => c.isMeta = 0).flatMap ImageChunk.payload

/-- **A frame**: chunks ending in the one data chunk that carries `is_last`. -/
structure Frame where
  body : List (ImageChunk chunkSize)
  last : ImageChunk chunkSize
  last_isMeta : last.isMeta = 0
  last_isLast : last.isLast ≠ 0
  body_isLast : ∀ c ∈ body, c.isMeta = 0 → c.isLast = 0
  len_le : ∀ c ∈ body ++ [last], c.len.toNat ≤ chunkSize
  len_pos : ∀ c ∈ body ++ [last], c.isMeta = 0 → 0 < c.len.toNat

/-- The chunks of a frame. -/
def Frame.chunks (f : Frame) : List (ImageChunk chunkSize) := f.body ++ [f.last]

/-- The image a frame carries. -/
def Frame.image (f : Frame) : List UInt8 := dataBytes f.chunks

theorem dataBytes_append (cs ds : List (ImageChunk chunkSize)) :
    dataBytes (cs ++ ds) = dataBytes cs ++ dataBytes ds := by
  simp [dataBytes]

theorem dataBytes_singleton {c : ImageChunk chunkSize} (h : c.isMeta = 0) :
    dataBytes [c] = c.payload := by
  simp [dataBytes, h]

theorem dataBytes_meta {c : ImageChunk chunkSize} (h : c.isMeta ≠ 0) : dataBytes [c] = [] := by
  simp [dataBytes, h]

/-- **A data chunk carrying `is_last` ends the frame.** -/
theorem Frame.eq_chunks (f : Frame) {cs ds : List (ImageChunk chunkSize)}
    {c : ImageChunk chunkSize} (h : f.chunks = cs ++ [c] ++ ds) (hm : c.isMeta = 0)
    (hl : c.isLast ≠ 0) : ds = [] ∧ f.chunks = cs ++ [c] := by
  rcases List.eq_nil_or_concat ds with rfl | ⟨ds', d, rfl⟩
  · exact ⟨rfl, by rw [h, List.append_nil]⟩
  · rw [Frame.chunks, List.concat_eq_append, ← List.append_assoc] at h
    obtain ⟨hbody, -⟩ := List.append_inj' h rfl
    have hmem : c ∈ f.body := by simp [hbody]
    exact absurd (f.body_isLast c hmem hm) hl

/-! ## The frame the camera pushes -/

section Pushed

variable (st : Statics) {hdr : Header} (h : hdr.Admitted)

/-- **The frame `camera_MSN2_main` pushes**: the metadata chunk and the data chunks. -/
def pushedFrame : Frame where
  body := metaChunk st.metaBuf hdr.metaLen ::
    (List.range ((sliceTotal chunkSize hdr.imgSize).toNat - 1)).map fun i =>
      sliceChunk chunkSize st.imageBuf hdr.imgSize (.ofNat i)
  last := sliceChunk chunkSize st.imageBuf hdr.imgSize
    (.ofNat ((sliceTotal chunkSize hdr.imgSize).toNat - 1))
  last_isMeta := rfl
  last_isLast := by
    have hpos := total_pos (sliceable_chunkSize h.imgSize_le) h.imgSize_pos
    rw [isLast_sliceChunk _ (Nat.sub_one_lt hpos.ne'), if_pos (Nat.sub_one_add_one hpos.ne')]
    decide
  body_isLast := by
    intro c hc hm
    rcases List.mem_cons.mp hc with rfl | hc
    · cases hm
    · obtain ⟨i, hi, rfl⟩ := List.mem_map.mp hc
      rw [List.mem_range] at hi
      rw [isLast_sliceChunk _ (by omega), if_neg (by omega)]
  len_le := by
    have hs := sliceable_chunkSize h.imgSize_le
    intro c hc
    rw [List.cons_append, ← dataChunks_eq _ (total_pos hs h.imgSize_pos)] at hc
    rcases List.mem_cons.mp hc with rfl | hc
    · exact h.metaLen_lt.le.trans (by decide)
    · exact (len_of_mem_dataChunks hs hc).2
  len_pos := by
    have hs := sliceable_chunkSize h.imgSize_le
    intro c hc hm
    rw [List.cons_append, ← dataChunks_eq _ (total_pos hs h.imgSize_pos)] at hc
    rcases List.mem_cons.mp hc with rfl | hc
    · cases hm
    · exact (len_of_mem_dataChunks hs hc).1

theorem pushedFrame_chunks : (pushedFrame st h).chunks =
    metaChunk st.metaBuf hdr.metaLen :: dataChunks chunkSize st.imageBuf hdr.imgSize := by
  rw [dataChunks_eq _ (total_pos (sliceable_chunkSize h.imgSize_le) h.imgSize_pos)]
  rfl

theorem dataBytes_dataChunks (image : Buf imgBufSize) (n : UInt32) :
    dataBytes (dataChunks chunkSize image n) =
      (dataChunks chunkSize image n).flatMap ImageChunk.payload := by
  rw [dataBytes, List.filter_eq_self.mpr]
  intro c hc
  obtain ⟨i, -, rfl⟩ := List.mem_map.mp hc
  rfl

/-- **The frame carries the image.** -/
theorem pushedFrame_image :
    (pushedFrame st h).image = st.imageBuf.slice 0 hdr.imgSize.toNat := by
  have hmeta : (metaChunk st.metaBuf hdr.metaLen).isMeta ≠ 0 := by simp [metaChunk]
  rw [Frame.image, pushedFrame_chunks, ← List.singleton_append, dataBytes_append,
    dataBytes_meta hmeta, List.nil_append, dataBytes_dataChunks,
    flatMap_payload_dataChunks (sliceable_chunkSize h.imgSize_le)]

end Pushed

/-! ## How far `hello_main` is -/

/-- No data chunk among `cs` carries `is_last`. -/
def NoneLast (cs : List (ImageChunk chunkSize)) : Prop := ∀ c ∈ cs, c.isMeta = 0 → c.isLast = 0

/-- **`hello_main` having taken the chunks `taken`**: what it has printed, by where it is. -/
def HelloAt (taken : List (ImageChunk chunkSize)) (hello : Hello) (out : List Char) : Prop :=
  match hello.pc with
  | .reading => NoneLast taken ∧ out = hex (dataBytes taken)
  | .printing i => ∃ cs, taken = cs ++ [hello.chunk] ∧ hello.chunk.isMeta = 0 ∧ NoneLast cs ∧
      i ≤ hello.chunk.len.toNat ∧ out = hex (dataBytes cs ++ hello.chunk.data.slice 0 i)
  | .done => ∃ cs, taken = cs ++ [hello.chunk] ∧ hello.chunk.isMeta = 0 ∧
      hello.chunk.isLast ≠ 0 ∧ out = hex (dataBytes taken) ++ ['\n']
  | .fault _ => False

theorem helloAt_start (junk : ImageChunk chunkSize) : HelloAt [] (Hello.start junk) [] :=
  ⟨fun _ h => absurd h List.not_mem_nil, rfl⟩

theorem NoneLast.snoc {cs : List (ImageChunk chunkSize)} (h : NoneLast cs)
    {c : ImageChunk chunkSize} (hc : c.isMeta = 0 → c.isLast = 0) : NoneLast (cs ++ [c]) := by
  intro d hd
  rcases List.mem_append.mp hd with hd | hd
  · exact h d hd
  · rw [List.mem_singleton.mp hd]
    exact hc

/-- **Everything a move of `hello_main` does** when it has taken `taken` and the ring holds `q`: an
attempt on an empty ring, the next chunk taken, something printed, or a turn of its loop. -/
theorem helloStep_cases {w w' : World} {taken q : List (ImageChunk chunkSize)} {out : List Char}
    (hq : Represents w.ring q) (hat : HelloAt taken w.hello out)
    (hlen : ∀ c ∈ taken, c.len.toNat ≤ chunkSize) (h : helloStep w = some w') :
    (w.hello.pc = .reading ∧ q = [] ∧ w' = w) ∨
    (∃ x q', w.hello.pc = .reading ∧ q = x :: q' ∧ Represents w'.ring q' ∧
      w'.console = w.console ∧ w'.log = w.log ∧ HelloAt (taken ++ [x]) w'.hello out) ∨
    (∃ text, w.hello.pc ≠ .reading ∧ w'.ring = w.ring ∧
      w'.console = w.console ++ [(.hello, text)] ∧ w'.log = w.log ∧
      HelloAt taken w'.hello (out ++ text)) ∨
    (w.hello.pc ≠ .reading ∧ w'.ring = w.ring ∧ w'.console = w.console ∧ w'.log = w.log ∧
      HelloAt taken w'.hello out) := by
  obtain ⟨ring, ⟨pc, chunk⟩, console, log⟩ := w
  cases pc with
  | reading =>
    rcases helloStep_reading hq rfl h with ⟨rfl, rfl⟩ | ⟨x, q', rb, rfl, hrep, rfl⟩
    · exact Or.inl ⟨rfl, rfl, rfl⟩
    · refine Or.inr (Or.inl ⟨x, q', rfl, rfl, hrep, rfl, rfl, ?_⟩)
      obtain ⟨hnone, rfl⟩ : NoneLast taken ∧ out = hex (dataBytes taken) := hat
      by_cases hm : x.isMeta = 0
      · simp only [HelloAt, if_pos hm]
        exact ⟨taken, rfl, hm, hnone, Nat.zero_le _, by rw [Buf.slice_zero, List.append_nil]⟩
      · simp only [HelloAt, if_neg hm]
        refine ⟨hnone.snoc fun h => absurd h hm, ?_⟩
        rw [dataBytes_append, dataBytes_meta hm, List.append_nil]
  | printing i =>
    obtain ⟨cs, rfl, hm, hnone, hi, rfl⟩ : ∃ cs, taken = cs ++ [chunk] ∧ chunk.isMeta = 0 ∧
      NoneLast cs ∧ i ≤ chunk.len.toNat ∧ out = hex (dataBytes cs ++ chunk.data.slice 0 i) := hat
    rcases helloStep_printing rfl (hlen chunk (by simp)) h with
      ⟨hlt, rfl⟩ | ⟨hge, hl, rfl⟩ | ⟨hge, hl, rfl⟩
    · refine Or.inr (Or.inr (Or.inl ⟨_, HelloPc.noConfusion, rfl, rfl, rfl, ?_⟩))
      refine ⟨cs, rfl, hm, hnone, hlt, ?_⟩
      show hex (dataBytes cs ++ chunk.data.slice 0 i) ++ hexByte (chunk.data.byte i) =
        hex (dataBytes cs ++ chunk.data.slice 0 (i + 1))
      rw [Buf.slice_succ, Nat.zero_add, ← List.append_assoc, hex_append _ [_], hex_singleton]
    · obtain rfl : i = chunk.len.toNat := Nat.le_antisymm hi hge
      refine Or.inr (Or.inr (Or.inl ⟨_, HelloPc.noConfusion, rfl, rfl, rfl, ?_⟩))
      refine ⟨cs, rfl, hm, hl, ?_⟩
      rw [dataBytes_append, dataBytes_singleton hm]
      rfl
    · obtain rfl : i = chunk.len.toNat := Nat.le_antisymm hi hge
      refine Or.inr (Or.inr (Or.inr ⟨HelloPc.noConfusion, rfl, rfl, rfl, ?_⟩))
      refine ⟨hnone.snoc fun _ => hl, ?_⟩
      rw [dataBytes_append, dataBytes_singleton hm]
      rfl
  | done => exact absurd h (by simp [helloStep])
  | fault i => exact absurd h (by simp [helloStep])

section Output

variable {f : Frame} {taken ds : List (ImageChunk chunkSize)} {hello : Hello} {out : List Char}

/-- **When `hello_main` has left its loop** it has taken the whole frame and printed its image. -/
theorem HelloAt.done_eq (h : HelloAt taken hello out) (hf : f.chunks = taken ++ ds)
    (hpc : hello.pc = .done) :
    ds = [] ∧ f.chunks = taken ∧ out = hex f.image ++ ['\n'] := by
  rw [HelloAt, hpc] at h
  obtain ⟨cs, rfl, hm, hl, rfl⟩ := h
  obtain ⟨rfl, hcs⟩ := f.eq_chunks hf hm hl
  exact ⟨rfl, hcs, by rw [Frame.image, hcs]⟩

theorem hex_isPrefix {bs cs : List UInt8} (h : bs <+: cs) : hex bs <+: hex cs ++ ['\n'] := by
  obtain ⟨ds, rfl⟩ := h
  rw [hex_append, List.append_assoc]
  exact List.prefix_append _ _

/-- **Inside a frame** `hello_main` has printed a beginning of the image. -/
theorem HelloAt.out_isPrefix (h : HelloAt taken hello out) (hf : f.chunks = taken ++ ds) :
    out <+: hex f.image ++ ['\n'] := by
  have himage : f.image = dataBytes taken ++ dataBytes ds := by
    rw [Frame.image, hf, dataBytes_append]
  cases hpc : hello.pc with
  | reading =>
    rw [HelloAt, hpc] at h
    rw [h.2, himage]
    exact hex_isPrefix (List.prefix_append _ _)
  | printing i =>
    rw [HelloAt, hpc] at h
    obtain ⟨cs, rfl, hm, -, hi, rfl⟩ := h
    refine hex_isPrefix ?_
    have hsplit : hello.chunk.payload = hello.chunk.data.slice 0 i ++
        hello.chunk.data.slice (0 + i) (hello.chunk.len.toNat - i) := by
      rw [ImageChunk.payload, ← Buf.slice_add, Nat.add_sub_cancel' hi]
    rw [himage, dataBytes_append, dataBytes_singleton hm, hsplit, List.append_assoc,
      List.append_assoc]
    exact List.prefix_append_right_inj _ |>.mpr (List.prefix_append _ _)
  | done =>
    exact (h.done_eq hf hpc).2.2 ▸ List.prefix_rfl
  | fault i =>
    rw [HelloAt, hpc] at h
    exact h.elim

end Output

end CameraPipeline
