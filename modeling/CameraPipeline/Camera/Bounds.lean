import CameraPipeline.Camera.Slicing

/-!
# What the camera does whatever it is answered

Specifications of the camera's functions that hold for every sequence of responses: which calls they
make, that their array accesses are inside the arrays, and what their results satisfy. The header
is checked once, and every later index is bounded through `Header.Admitted`.

## Main definitions

* `Header.Admitted`: the header passes the checks of `camera_MSN2_main`
* `Call.Ringless`, `Call.Fits`: calls that leave the ring alone, and calls that write no chunk
  longer than its payload array

## Main results

* `all_beginRun`: the header of every run is admitted
* `all_fetchImage`: the transfer makes no busy-wait and writes the first `img_size` bytes only
* `all_finishRun`: with at least two bytes, every access after the header is in bounds
-/

namespace CameraPipeline

open Data Systems

/-! ## Assertions -/

/-- The header passes the checks of `camera_MSN2_main`. -/
structure Header.Admitted (hdr : Header) : Prop where
  imgSize_pos : 0 < hdr.imgSize.toNat
  imgSize_le : hdr.imgSize.toNat ≤ imgBufSize
  metaLen_pos : 0 < hdr.metaLen.toNat
  metaLen_lt : hdr.metaLen.toNat < metaBufSize

/-- The check of the JPEG size lets exactly the admitted sizes pass. -/
theorem not_badSize_iff {n : UInt32} :
    ¬ (n = 0 ∨ imgBufSize < n.toNat) ↔ 0 < n.toNat ∧ n.toNat ≤ imgBufSize := by
  rw [not_or, ← UInt32.toNat_inj, UInt32.toNat_zero, Nat.not_lt, Nat.pos_iff_ne_zero]

/-- The check of the metadata length lets exactly the admitted lengths pass. -/
theorem not_badMetaLen_iff {n : UInt16} :
    ¬ (n = 0 ∨ metaBufSize ≤ n.toNat) ↔ 0 < n.toNat ∧ n.toNat < metaBufSize := by
  rw [not_or, ← UInt16.toNat_inj, UInt16.toNat_zero, Nat.not_le, Nat.pos_iff_ne_zero]

/-- The call leaves the ring alone. -/
def Call.Ringless : Call → Prop
  | .rbInit => False
  | .rbWrite _ => False
  | _ => True

/-- The call neither asks for an image nor ends the session, and leaves the ring and the SPI bus
alone. -/
def Call.Preparatory : Call → Prop
  | .printf _ | .openUart | .tcsetattr | .read | .tcflush | .spibusInitialize => True
  | .write v => v ≠ cmdCapture
  | _ => False

/-- The call writes no chunk whose `len` exceeds its payload array. -/
def Call.Fits : Call → Prop
  | .rbWrite c => c.len.toNat ≤ chunkSize
  | _ => True

theorem Call.Ringless.fits {c : Call} (h : c.Ringless) : c.Fits := by
  cases c <;> trivial

theorem Call.Preparatory.ringless {c : Call} (h : c.Preparatory) : c.Ringless := by
  cases c <;> trivial

section Rules

variable {P : (c : Call) → (c.Resp → Bool) → Prop}

theorem all_once (c : Call) (h : P c fun _ => false) :
    Prog.All P (fun _ => True) (Prog.once c : CamProg c.Resp) := Prog.All.once h

theorem all_printf {text : String} (h : P (.printf text) fun _ => false) :
    Prog.All P (fun _ => True) (printf text) := all_once _ h

theorem all_inBounds {array : ArrayName} {size i : ℕ} (h : i < size) :
    Prog.All P (fun _ => True) (inBounds array size i) := by
  rw [inBounds_of_lt h]
  exact Prog.All.ret trivial

theorem all_inRange {array : ArrayName} {size off len : ℕ} (h : off + len ≤ size) :
    Prog.All P (fun _ => True) (inRange array size off len) := by
  rw [inRange_of_le h]
  exact Prog.All.ret trivial

/-- Preparatory calls leave the ring alone. -/
theorem all_ringless {α : Type} {Q : α → Prop} {x : CamProg α}
    (h : Prog.All (fun c _ => c.Preparatory) Q x) : Prog.All (fun c _ => c.Ringless) Q x :=
  h.mono (fun _ _ hc => hc.ringless) fun _ ha => ha

end Rules

/-! ## The UART -/

theorem all_uartReadByte (t : ℕ) :
    Prog.All (fun c _ => c.Preparatory) (fun _ => True) (uartReadByte t) := by
  induction t with
  | zero => exact Prog.All.ret trivial
  | succ t ih =>
    refine Prog.All.bind (all_once .read trivial) fun r _ => ?_
    cases r with
    | some v => exact Prog.All.ret trivial
    | none => exact ih

/-- The bytes beyond those read are untouched. -/
theorem all_uartReadFrom {n : ℕ} (array : ArrayName) (len retries k i : ℕ) (buf : Buf n)
    (h : i + k ≤ n) :
    Prog.All (fun c _ => c.Ringless) (fun r => ∀ j, i + k ≤ j → r.2.byte j = buf.byte j)
      (uartReadFrom array len retries k i buf) := by
  induction k generalizing i buf with
  | zero => exact Prog.All.ret fun _ _ => rfl
  | succ k ih =>
    refine Prog.All.bind (all_inBounds (by omega)) fun _ _ => ?_
    refine Prog.All.bind (all_ringless (all_uartReadByte retries)) fun r _ => ?_
    cases r with
    | none =>
      refine Prog.All.bind (all_printf trivial) fun _ _ => ?_
      exact Prog.All.ret fun _ _ => rfl
    | some v =>
      refine (ih (i + 1) (buf.store i v) (by omega)).mono (fun _ _ h => h) fun r hr j hj => ?_
      rw [hr j (by omega), Buf.byte_store buf (by omega), if_neg (by omega)]

theorem all_uartFlush : Prog.All (fun c _ => c.Preparatory) (fun _ => True) uartFlush :=
  Prog.All.bind (Prog.All.poll trivial) fun _ _ => all_once .tcflush trivial

theorem all_uartConfigure : Prog.All (fun c _ => c.Preparatory) (fun _ => True) uartConfigure :=
  Prog.All.bind (all_once .tcsetattr trivial) fun _ _ => all_printf trivial

theorem cmdHandshake_ne_cmdCapture : cmdHandshake ≠ cmdCapture := by decide

theorem all_handshakePoll (p : ℕ) :
    Prog.All (fun c _ => c.Preparatory) (fun _ => True) (handshakePoll p) := by
  induction p with
  | zero => exact Prog.All.ret trivial
  | succ p ih =>
    refine Prog.All.bind (all_uartReadByte 1) fun r _ => ?_
    split
    · refine Prog.All.bind all_uartFlush fun _ _ => ?_
      exact Prog.All.bind (all_printf trivial) fun _ _ => Prog.All.ret trivial
    · exact ih

theorem all_handshakeFrom (k attempt : ℕ) :
    Prog.All (fun c _ => c.Preparatory) (fun _ => True) (handshakeFrom k attempt) := by
  induction k generalizing attempt with
  | zero => exact Prog.All.bind (all_printf trivial) fun _ _ => Prog.All.ret trivial
  | succ k ih =>
    refine Prog.All.bind all_uartFlush fun _ _ => ?_
    refine Prog.All.bind (all_once (.write _) cmdHandshake_ne_cmdCapture) fun _ _ => ?_
    refine Prog.All.bind (all_printf trivial) fun _ _ => ?_
    refine Prog.All.bind (all_handshakePoll _) fun ok _ => ?_
    split
    · exact Prog.All.ret trivial
    · exact ih (attempt + 1)

theorem all_uartHandshake : Prog.All (fun c _ => c.Preparatory) (fun _ => True) uartHandshake :=
  Prog.All.bind (all_printf trivial) fun _ _ => all_handshakeFrom _ _

/-- An exit of the capture: a message, the UART closed, no header. -/
theorem all_abort {Q : Option Header × Buf metaBufSize → Prop} {text : String}
    {metaBuf : Buf metaBufSize} (h : Q (none, metaBuf)) :
    Prog.All (fun c _ => c.Ringless) Q (do printf text; closeUart; pure (none, metaBuf)) :=
  Prog.All.bind (all_printf trivial) fun _ _ =>
    Prog.All.bind (all_once .close trivial) fun _ _ => Prog.All.ret h

/-- The string ends inside `meta_buf` when its last byte is zero. -/
theorem length_takeWhile_lt (metaBuf : Buf metaBufSize) (h : metaBuf.byte (metaBufSize - 1) = 0) :
    ((metaBuf.slice 0 metaBufSize).takeWhile (· ≠ 0)).length < metaBufSize := by
  have hsplit : metaBuf.slice 0 metaBufSize = metaBuf.slice 0 (metaBufSize - 1) ++ [0] := by
    rw [← h]
    exact Buf.slice_succ metaBuf 0 (metaBufSize - 1)
  have hlen := (List.takeWhile_sublist (l := metaBuf.slice 0 (metaBufSize - 1)) (· ≠ 0)).length_le
  rw [Buf.slice_length] at hlen
  rw [hsplit, List.takeWhile_append]
  split
  · simp
  · exact hlen.trans_lt (by decide)

/-- The results of a capture request: a header only if it is admitted. -/
def HeaderAdmitted (r : Option Header × Buf metaBufSize) : Prop :=
  ∀ hdr, r.1 = some hdr → hdr.Admitted

theorem headerAdmitted_none (metaBuf : Buf metaBufSize) : HeaderAdmitted (none, metaBuf) :=
  fun _ h => nomatch h

theorem all_receiveMeta {hdr : Header} (h : hdr.Admitted) (metaBuf : Buf metaBufSize) :
    Prog.All (fun c _ => c.Ringless) HeaderAdmitted (receiveMeta hdr metaBuf) := by
  have hlt := h.metaLen_lt
  refine Prog.All.bind (all_uartReadFrom _ _ _ _ 0 _ (by omega)) fun r hr => ?_
  obtain ⟨ret, buf⟩ := r
  dsimp only
  split
  · exact all_abort (headerAdmitted_none _)
  · -- `meta_len` is below the size of the array, whose last byte is still the zero of the `memset`
    have hzero : buf.byte (metaBufSize - 1) = 0 := by
      rw [hr _ (by omega), Buf.byte_clear, if_pos (by decide)]
    refine Prog.All.bind (Prog.All.bind (all_inBounds (length_takeWhile_lt buf hzero))
      fun _ _ => all_printf trivial) fun _ _ => ?_
    exact Prog.All.ret fun hdr' hh => Option.some.inj hh ▸ h

theorem all_receiveMetaLen {imgSize : UInt32} (hpos : 0 < imgSize.toNat)
    (hle : imgSize.toNat ≤ imgBufSize) (metaBuf : Buf metaBufSize) :
    Prog.All (fun c _ => c.Ringless) HeaderAdmitted (receiveMetaLen imgSize metaBuf) := by
  refine Prog.All.bind (all_uartReadFrom _ _ _ _ 0 _ (by omega)) fun r _ => ?_
  obtain ⟨ret, ml⟩ := r
  dsimp only
  split
  · exact all_abort (headerAdmitted_none _)
  · refine Prog.All.bind (all_printf trivial) fun _ _ => ?_
    split
    · exact all_abort (headerAdmitted_none _)
    · rename_i hlen
      obtain ⟨hlpos, hlt⟩ := not_badMetaLen_iff.mp hlen
      exact all_receiveMeta ⟨hpos, hle, hlpos, hlt⟩ metaBuf

theorem all_receiveSize (metaBuf : Buf metaBufSize) :
    Prog.All (fun c _ => c.Ringless) HeaderAdmitted (receiveSize metaBuf) := by
  refine Prog.All.bind (all_uartReadFrom _ _ _ _ 0 _ (by omega)) fun r _ => ?_
  obtain ⟨ret, sz⟩ := r
  dsimp only
  split
  · exact all_abort (headerAdmitted_none _)
  · refine Prog.All.bind (all_printf trivial) fun _ _ => ?_
    split
    · exact all_abort (headerAdmitted_none _)
    · rename_i hsize
      obtain ⟨hpos, hle⟩ := not_badSize_iff.mp hsize
      exact all_receiveMetaLen hpos hle metaBuf

theorem all_receiveReply (metaBuf : Buf metaBufSize) :
    Prog.All (fun c _ => c.Ringless) HeaderAdmitted (receiveReply metaBuf) := by
  refine Prog.All.bind (all_ringless (all_uartReadByte _)) fun r _ => ?_
  split
  · exact Prog.All.bind (all_printf trivial) fun _ _ => all_receiveSize metaBuf
  · exact all_abort (headerAdmitted_none _)

theorem all_requestImage (metaBuf : Buf metaBufSize) :
    Prog.All (fun c _ => c.Ringless) HeaderAdmitted (requestImage metaBuf) := by
  refine Prog.All.bind (all_ringless all_uartFlush) fun _ _ => ?_
  refine Prog.All.bind (all_once .spibusInitialize trivial) fun up _ => ?_
  split
  · refine Prog.All.bind (all_printf trivial) fun _ _ => ?_
    refine Prog.All.bind (all_ringless all_uartHandshake) fun ret _ => ?_
    split
    · exact Prog.All.bind (all_once .close trivial) fun _ _ =>
        Prog.All.ret (headerAdmitted_none _)
    · refine Prog.All.bind (all_printf trivial) fun _ _ => ?_
      refine Prog.All.bind (all_ringless all_uartFlush) fun _ _ => ?_
      refine Prog.All.bind (all_once (.write _) trivial) fun _ _ => ?_
      exact Prog.All.bind (all_printf trivial) fun _ _ => all_receiveReply metaBuf
  · exact all_abort (headerAdmitted_none _)

/-- **The header of every run is admitted**, and no access up to there leaves its array. -/
theorem all_beginRun (metaBuf : Buf metaBufSize) :
    Prog.All (fun c _ => c.Fits) HeaderAdmitted (beginRun metaBuf) := by
  refine Prog.All.bind (all_printf trivial) fun _ _ => ?_
  refine Prog.All.bind (all_once .rbInit trivial) fun _ _ => ?_
  refine Prog.All.bind (all_once .openUart trivial) fun r _ => ?_
  cases r with
  | some error =>
    exact Prog.All.bind (all_printf trivial) fun _ _ => Prog.All.ret (headerAdmitted_none _)
  | none =>
    refine Prog.All.mono ?_ (fun _ _ h => Call.Ringless.fits h) fun _ h => h
    exact Prog.All.bind (all_ringless all_uartConfigure) fun _ _ => all_requestImage metaBuf

/-! ## The SPI transfer -/

/-- A call that leaves the ring alone and is made once. -/
def Calm (c : Call) (again : c.Resp → Bool) : Prop := c.Ringless ∧ ∀ r, again r = false

theorem calm_once {c : Call} (h : c.Ringless) : Calm c fun _ => false := ⟨h, fun _ => rfl⟩

/-- The two buffers an exchange does not touch. -/
def SameBuffers (st st' : Statics) : Prop :=
  st'.metaBuf = st.metaBuf ∧ st'.imageBuf = st.imageBuf

theorem all_spiExchange (st : Statics) {k : ℕ} (hk : k ≤ spiXferSize) :
    Prog.All Calm (SameBuffers st) (spiExchange st k) := by
  refine Prog.All.bind (all_inRange (by omega)) fun _ _ => ?_
  refine Prog.All.bind (all_inRange (by omega)) fun _ _ => ?_
  exact Prog.All.bind (all_once (.spiExchange _ k) (calm_once trivial)) fun _ _ =>
    Prog.All.ret ⟨rfl, rfl⟩

theorem all_spiDiscard (st : Statics) (remaining : UInt32) :
    Prog.All Calm (SameBuffers st) (spiDiscard st remaining) := by
  induction st, remaining using spiDiscard.induct with
  | case1 st remaining h ih =>
    rw [spiDiscard, if_pos h]
    refine Prog.All.bind (all_spiExchange _ (spiXfer_le_size remaining)) fun st' hst' => ?_
    exact (ih st').mono (fun _ _ h => h) fun a ha => ⟨ha.1.trans hst'.1, ha.2.trans hst'.2⟩
  | case2 st remaining h =>
    rw [spiDiscard, if_neg h]
    exact Prog.All.ret ⟨rfl, rfl⟩

/-- The buffers after image bytes below `k` were written: the rest is untouched. -/
def WroteBelow (k : ℕ) (st st' : Statics) : Prop :=
  st'.metaBuf = st.metaBuf ∧ ∀ j, k ≤ j → st'.imageBuf.byte j = st.imageBuf.byte j

theorem WroteBelow.trans {k : ℕ} {st st' st'' : Statics} (h : WroteBelow k st st')
    (h' : WroteBelow k st' st'') : WroteBelow k st st'' :=
  ⟨h'.1.trans h.1, fun j hj => (h'.2 j hj).trans (h.2 j hj)⟩

theorem SameBuffers.wroteBelow {st st' : Statics} (h : SameBuffers st st') (k : ℕ) :
    WroteBelow k st st' :=
  ⟨h.1, fun j _ => by rw [h.2]⟩

/-- The bytes from `off` on, a stretch that ends at `k`, stay below `k`. -/
theorem wroteBelow_blit (st : Statics) (off len : ℕ) {k : ℕ} (hk : off + len ≤ k)
    (hn : k ≤ imgBufSize) (src : ℕ → UInt8) :
    WroteBelow k st { st with imageBuf := st.imageBuf.blit off src len } := by
  refine ⟨rfl, fun j hj => ?_⟩
  show (st.imageBuf.blit off src len).byte j = _
  rw [Buf.byte_blit _ (by omega), if_neg (by omega)]

theorem all_spiReadBlocks (st : Statics) (remaining offset : UInt32) {k : ℕ}
    (hk : offset.toNat + remaining.toNat = k) (hn : k ≤ imgBufSize) :
    Prog.All Calm (WroteBelow k st) (spiReadBlocks st remaining offset) := by
  induction st, remaining, offset using spiReadBlocks.induct with
  | case1 st remaining offset h xfer ih =>
    have hle := spiXfer_le_size remaining
    have hrest := spiXfer_add_rest remaining
    have hadd := toNat_add_spiXfer (hk.le.trans hn)
    have hxfer : xfer = (spiXfer remaining).toNat := rfl
    rw [spiReadBlocks, if_pos h]
    refine Prog.All.bind (all_spiExchange _ (spiXfer_le_size remaining)) fun st₁ hst₁ => ?_
    refine Prog.All.bind (all_inRange (by omega)) fun _ _ => ?_
    refine Prog.All.bind (all_inRange (by omega)) fun _ _ => ?_
    refine (ih st₁ (by omega)).mono (fun _ _ h => h) fun st₂ hst₂ => ?_
    have hblit := wroteBelow_blit st₁ offset.toNat xfer (by omega) hn st₁.spiRx.byte
    exact (hst₁.wroteBelow k).trans (hblit.trans hst₂)
  | case2 st remaining offset h =>
    rw [spiReadBlocks, if_neg h]
    exact Prog.All.ret ⟨rfl, fun _ _ => rfl⟩

/-- **The transfer** makes no busy-wait, stays in its arrays, and writes the first `img_size` bytes
of `image_buf` only. -/
theorem all_fetchImage (st : Statics) {imgSize : UInt32} (hn : imgSize.toNat ≤ imgBufSize) :
    Prog.All Calm (WroteBelow imgSize.toNat st) (fetchImage st imgSize) := by
  refine Prog.All.bind (all_printf (calm_once trivial)) fun _ _ => ?_
  refine Prog.All.bind (all_printf (calm_once trivial)) fun _ _ => ?_
  refine Prog.All.bind (all_inRange (by omega)) fun _ _ => ?_
  refine Prog.All.bind (Q := fun r => WroteBelow imgSize.toNat st r.2) ?_
    fun r hr => Prog.All.ret hr
  refine Prog.All.bind (all_once (.spiLock true) (calm_once trivial)) fun _ _ => ?_
  refine Prog.All.bind (all_once .spiSetMode (calm_once trivial)) fun _ _ => ?_
  refine Prog.All.bind (all_once (.spiSetBits 8) (calm_once trivial)) fun _ _ => ?_
  refine Prog.All.bind (all_once (.spiSetFrequency 4000000) (calm_once trivial)) fun _ _ => ?_
  refine Prog.All.bind (all_once (.spiSelect true) (calm_once trivial)) fun _ _ => ?_
  refine Prog.All.bind (all_spiDiscard _ _) fun st₁ hst₁ => ?_
  refine Prog.All.bind (all_printf (calm_once trivial)) fun _ _ => ?_
  refine Prog.All.bind (all_spiReadBlocks st₁ imgSize 0 (by simp) hn) fun st₂ hst₂ => ?_
  refine Prog.All.bind (all_once (.spiSelect false) (calm_once trivial)) fun _ _ => ?_
  refine Prog.All.bind (all_once (.spiLock false) (calm_once trivial)) fun _ _ => ?_
  have hclear : WroteBelow imgSize.toNat st
      { st with imageBuf := st.imageBuf.clear imgSize.toNat } := by
    refine ⟨rfl, fun j hj => ?_⟩
    show (st.imageBuf.clear imgSize.toNat).byte j = _
    rw [Buf.byte_clear, if_neg (by omega)]
  exact Prog.All.ret (hclear.trans ((hst₁.wroteBelow _).trans hst₂))

/-! ## The markers -/

/-- The verdict on the JPEG header. -/
def hdrOk (image : Buf imgBufSize) : Bool :=
  image.byte 0 == 0xFF && (image.byte 1 == 0xD8 && image.byte 2 == 0xFF)

/-- The verdict on the JPEG trailer. -/
def trlOk (image : Buf imgBufSize) (n : UInt32) : Bool :=
  decide (2 ≤ n) && (image.byte (n - 2).toNat == 0xFF && image.byte (n - 1).toNat == 0xD9)

/-- The line on the JPEG header. -/
def headerLine (image : Buf imgBufSize) : String :=
  if hdrOk image then "[CAM] JPEG header OK  : FF D8 FF\n"
  else
    s!"[CAM] WARN bad header : {hex02 (image.byte 0)} {hex02 (image.byte 1)} {hex02 (image.byte 2)}\n"

theorem imageByte_of_lt (image : Buf imgBufSize) {i : UInt32} (h : i.toNat < imgBufSize) :
    imageByte image i = .ret (image.byte i.toNat) := by
  rw [imageByte, inBounds_of_lt h]
  rfl

theorem headerOk_eq (image : Buf imgBufSize) : headerOk image = .ret (hdrOk image) := by
  have h0 := imageByte_of_lt image (i := 0) (by decide)
  have h1 := imageByte_of_lt image (i := 1) (by decide)
  have h2 := imageByte_of_lt image (i := 2) (by decide)
  simp only [headerOk, h0, h1, h2, Prog.ret_bind, Prog.pure_eq_ret, hdrOk]
  by_cases h0 : image.byte 0 = 0xFF
  · by_cases h1 : image.byte 1 = 0xD8
    · simp [h0, h1]
    · simp [h0, h1]
  · simp [h0]

theorem reportHeader_eq (image : Buf imgBufSize) :
    reportHeader image (hdrOk image) = printf (headerLine image) := by
  have h0 := imageByte_of_lt image (i := 0) (by decide)
  have h1 := imageByte_of_lt image (i := 1) (by decide)
  have h2 := imageByte_of_lt image (i := 2) (by decide)
  simp only [reportHeader, headerLine, h0, h1, h2, Prog.ret_bind]
  split
  · rfl
  · rfl

section Trailer

variable {n : UInt32}

theorem toNat_sub_two (h : 2 ≤ n.toNat) : (n - 2).toNat = n.toNat - 2 :=
  UInt32.toNat_sub_of_le _ _ (UInt32.le_iff_toNat_le.mpr h)

theorem trailerOk_eq (image : Buf imgBufSize) (hn : n.toNat ≤ imgBufSize) :
    trailerOk image n = .ret (trlOk image n) := by
  unfold trailerOk trlOk
  by_cases h2 : 2 ≤ n
  · have hnat : 2 ≤ n.toNat := UInt32.le_iff_toNat_le.mp h2
    rw [if_pos h2, imageByte_of_lt image (by rw [toNat_sub_two hnat]; omega),
      imageByte_of_lt image (by rw [toNat_sub_one (by omega)]; omega)]
    generalize image.byte (n - 2).toNat = b
    by_cases hb : b = 0xFF
    · simp [h2, hb]
    · simp [h2, hb]
  · simp [h2]

theorem checkMarkers_eq (image : Buf imgBufSize) (hn : n.toNat ≤ imgBufSize) :
    checkMarkers image n =
      (do printf (headerLine image); reportTrailer image n (trlOk image n)) := by
  rw [checkMarkers, headerOk_eq, trailerOk_eq image hn, Prog.ret_bind, Prog.ret_bind,
    reportHeader_eq]

theorem all_reportTrailer (image : Buf imgBufSize) (ok : Bool) (h2 : 2 ≤ n.toNat)
    (hn : n.toNat ≤ imgBufSize) : Prog.All Calm (fun _ => True) (reportTrailer image n ok) := by
  unfold reportTrailer
  split
  · exact all_printf (calm_once trivial)
  · rw [imageByte_of_lt image (by rw [toNat_sub_two h2]; omega),
      imageByte_of_lt image (by rw [toNat_sub_one (by omega)]; omega)]
    exact all_printf (calm_once trivial)

theorem all_checkMarkers (image : Buf imgBufSize) (h2 : 2 ≤ n.toNat) (hn : n.toNat ≤ imgBufSize) :
    Prog.All Calm (fun _ => True) (checkMarkers image n) := by
  rw [checkMarkers_eq image hn]
  exact Prog.All.bind (all_printf (calm_once trivial)) fun _ _ => all_reportTrailer image _ h2 hn

/-- **One byte is too short for the trailer warning**: the verdict is negative, and the warning
indexes `image_buf` at `img_size - 2`, which has wrapped. -/
theorem reportTrailer_one (image : Buf imgBufSize) :
    reportTrailer image 1 (trlOk image 1) = .fault ⟨.imageBuf, 2 ^ 32 - 1⟩ := by
  have hbad : inBounds .imageBuf imgBufSize ((1 : UInt32) - 2).toNat =
      (.fault ⟨.imageBuf, 2 ^ 32 - 1⟩ : CamProg Unit) := rfl
  have hok : trlOk image 1 = false := rfl
  rw [hok, reportTrailer, if_neg Bool.false_ne_true, imageByte, hbad]
  rfl

end Trailer

/-! ## The pushes -/

theorem all_rbPush {c : ImageChunk chunkSize} (h : c.len.toNat ≤ chunkSize) :
    Prog.All (fun c _ => c.Fits) (fun _ => True) (rbPush c) :=
  Prog.All.bind (Prog.All.poll h) fun _ _ => Prog.All.ret trivial

theorem all_pushMetaChunk (metaBuf : Buf metaBufSize) {metaLen : UInt16}
    (h : metaLen.toNat < metaBufSize) :
    Prog.All (fun c _ => c.Fits) (fun _ => True) (pushMetaChunk metaBuf metaLen) := by
  have hsize : metaBufSize ≤ chunkSize := by decide
  refine Prog.All.bind (all_inRange (by omega)) fun _ _ => ?_
  refine Prog.All.bind (all_inRange (by omega)) fun _ _ => ?_
  refine Prog.All.bind (all_rbPush ?_) fun _ _ => all_printf trivial
  show metaLen.toNat ≤ chunkSize
  omega

theorem all_pushDataFrom (image : Buf imgBufSize) {n : UInt32} (hn : n.toNat ≤ imgBufSize)
    (k : ℕ) (ci : UInt32) (hk : ci.toNat + k = (sliceTotal chunkSize n).toNat) :
    Prog.All (fun c _ => c.Fits) (fun _ => True) (pushDataFrom image n k ci) := by
  have hs := sliceable_chunkSize hn
  induction k generalizing ci with
  | zero => exact Prog.All.ret trivial
  | succ k ih =>
    have hi : ci.toNat < (sliceTotal chunkSize n).toNat := by omega
    have hlt := mul_lt_of_lt_total hs hi
    have hoff := toNat_sliceOff hs hi
    have hlen := toNat_sliceLen hs hi
    refine Prog.All.bind (Q := fun _ => True) ?_ fun _ _ => ih (ci + 1) ?_
    · refine Prog.All.bind (all_inRange (by omega)) fun _ _ => ?_
      refine Prog.All.bind (all_inRange (by omega)) fun _ _ => ?_
      refine all_rbPush ?_
      rw [toNat_len_sliceChunk hs image hi]
      exact Nat.min_le_left _ _
    · rw [toNat_succ_of_lt_total hi]
      omega

theorem all_pushPhase (st : Statics) {hdr : Header} (h : hdr.Admitted) :
    Prog.All (fun c _ => c.Fits) (fun _ => True) (pushPhase st hdr) := by
  refine Prog.All.bind (all_pushMetaChunk _ h.metaLen_lt) fun _ _ => ?_
  refine Prog.All.bind (Q := fun _ => True) ?_ fun _ _ => ?_
  · refine Prog.All.bind (all_printf trivial) fun _ _ => ?_
    refine Prog.All.bind (all_pushDataFrom _ h.imgSize_le _ 0 (by simp)) fun _ _ => ?_
    exact all_printf trivial
  · exact Prog.All.bind (all_once .close trivial) fun _ _ => Prog.All.ret trivial

/-- **Every access after the header is in bounds**, for an image of at least two bytes. -/
theorem all_finishRun (st : Statics) {hdr : Header} (h : hdr.Admitted)
    (h2 : hdr.imgSize ≠ 1) :
    Prog.All (fun c _ => c.Fits) (fun _ => True) (finishRun st hdr) := by
  have hpos := h.imgSize_pos
  rw [Ne, ← UInt32.toNat_inj, UInt32.toNat_one] at h2
  have hcalm : ∀ (c : Call) (again : c.Resp → Bool), Calm c again → c.Fits :=
    fun _ _ hc => hc.1.fits
  refine Prog.All.bind ((all_fetchImage st h.imgSize_le).mono hcalm fun _ _ => trivial)
    fun st' _ => ?_
  refine Prog.All.bind ((all_checkMarkers st'.imageBuf (by omega) h.imgSize_le).mono hcalm
    fun _ h => h) fun _ _ => ?_
  exact Prog.All.bind (all_pushPhase st' h) fun _ _ => Prog.All.ret trivial

end CameraPipeline
