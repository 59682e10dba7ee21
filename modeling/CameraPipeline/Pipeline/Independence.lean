import CameraPipeline.Pipeline.Memory

/-!
# Independence of earlier runs

The static buffers keep their contents between runs. Two runs that find different contents in them,
under the same schedule and the same answers, make the same calls: every read of a static buffer is
covered by an earlier write of the same run. The header check is the exception. It reads the first
three bytes of `image_buf` whatever `img_size` is, so for an image of one or two bytes its message
shows bytes an earlier run left.

## Main definitions

* `Independent o w`: against the oracle `o`, runs from `w` do not depend on the static buffers

## Main results

* `rel_beginRun`, `rel_fetchImage`, `rel_finishRun`: the phases of a run from different buffers
* `not_independent_of_admits`: an admitted image of one or two bytes shows earlier contents
* `independent_iff`: that is the only way
-/

namespace CameraPipeline

open Data Systems

/-- **Independence of earlier runs**: from any two contents of the static buffers, the same schedule
leads to the same world (the same calls with the same texts and chunks) and to the same status. -/
def Independent (o : Oracle) (w : World) : Prop :=
  ∀ st₁ st₂ ls p₁ w', run (pipeline o) (cameraMSN2Main st₁, w) ls = some (p₁, w') →
    ∃ p₂, run (pipeline o) (cameraMSN2Main st₂, w) ls = some (p₂, w') ∧
      ∀ ret, (∃ st, p₁ = .ret (ret, st)) ↔ ∃ st, p₂ = .ret (ret, st)

/-! ## Up to the metadata string -/

/-- Results of a capture request that agree on the header, and on `meta_buf` if there is one. -/
def SameHeader (r r' : Option Header × Buf metaBufSize) : Prop :=
  r.1 = r'.1 ∧ (r.1 ≠ none → r.2 = r'.2)

theorem sameHeader_none (b b' : Buf metaBufSize) : SameHeader (none, b) (none, b') :=
  ⟨rfl, fun h => absurd rfl h⟩

theorem rel_abort (text : String) (b b' : Buf metaBufSize) :
    Prog.Rel (R := Call.Resp) SameHeader (do printf text; closeUart; pure (none, b))
      (do printf text; closeUart; pure (none, b')) :=
  Prog.Rel.call fun _ => Prog.Rel.call fun _ => Prog.Rel.ret (sameHeader_none b b')

/-- The metadata read clears `meta_buf` first, so it is the same program. -/
theorem receiveMeta_eq (hdr : Header) (b b' : Buf metaBufSize) :
    receiveMeta hdr b = receiveMeta hdr b' := by
  have hclear : b.clear metaBufSize = b'.clear metaBufSize := (Buf.AgreeBelow.clear b b' _).eq
  simp only [receiveMeta, hclear]

theorem rel_receiveMetaLen (imgSize : UInt32) (b b' : Buf metaBufSize) :
    Prog.Rel SameHeader (receiveMetaLen imgSize b) (receiveMetaLen imgSize b') := by
  refine Prog.Rel.bind_left fun r => ?_
  obtain ⟨ret, ml⟩ := r
  dsimp only
  split
  · exact rel_abort _ b b'
  · refine Prog.Rel.bind_left fun _ => ?_
    split
    · exact rel_abort _ b b'
    · rw [receiveMeta_eq _ b b']
      exact Prog.Rel.refl (fun _ => ⟨rfl, fun _ => rfl⟩) _

theorem rel_receiveSize (b b' : Buf metaBufSize) :
    Prog.Rel SameHeader (receiveSize b) (receiveSize b') := by
  refine Prog.Rel.bind_left fun r => ?_
  obtain ⟨ret, sz⟩ := r
  dsimp only
  split
  · exact rel_abort _ b b'
  · refine Prog.Rel.bind_left fun _ => ?_
    split
    · exact rel_abort _ b b'
    · exact rel_receiveMetaLen _ b b'

theorem rel_receiveReply (b b' : Buf metaBufSize) :
    Prog.Rel SameHeader (receiveReply b) (receiveReply b') := by
  refine Prog.Rel.bind_left fun r => ?_
  split
  · exact Prog.Rel.bind_left fun _ => rel_receiveSize b b'
  · exact rel_abort _ b b'

theorem rel_requestImage (b b' : Buf metaBufSize) :
    Prog.Rel SameHeader (requestImage b) (requestImage b') := by
  refine Prog.Rel.bind_left fun _ => ?_
  refine Prog.Rel.bind_left fun up => ?_
  split
  · refine Prog.Rel.bind_left fun _ => ?_
    refine Prog.Rel.bind_left fun ret => ?_
    split
    · exact Prog.Rel.bind_left fun _ => Prog.Rel.ret (sameHeader_none b b')
    · refine Prog.Rel.bind_left fun _ => ?_
      refine Prog.Rel.bind_left fun _ => ?_
      refine Prog.Rel.bind_left fun _ => ?_
      exact Prog.Rel.bind_left fun _ => rel_receiveReply b b'
  · exact rel_abort _ b b'

theorem rel_beginRun (b b' : Buf metaBufSize) :
    Prog.Rel SameHeader (beginRun b) (beginRun b') := by
  refine Prog.Rel.bind_left fun _ => ?_
  refine Prog.Rel.bind_left fun _ => ?_
  refine Prog.Rel.bind_left fun r => ?_
  cases r with
  | some error =>
    exact Prog.Rel.bind_left fun _ => Prog.Rel.ret (sameHeader_none b b')
  | none => exact Prog.Rel.bind_left fun _ => rel_requestImage b b'

/-! ## The transfer -/

/-- Buffers a transfer of the first `k` bytes treats alike. -/
structure Alike (k : ℕ) (st st' : Statics) : Prop where
  spiTx : st.spiTx = st'.spiTx
  metaBuf : st.metaBuf = st'.metaBuf
  imageBuf : Buf.AgreeBelow k st.imageBuf st'.imageBuf

/-- An exchange into a cleared `spi_rx` gives both runs the same `spi_rx`. -/
theorem rel_spiExchange {n : ℕ} {st st' : Statics} (h : Alike n st st') (k : ℕ) :
    Prog.Rel (fun s s' => Alike n s s' ∧ s.spiRx = s'.spiRx)
      (spiExchange { st with spiRx := st.spiRx.clear spiXferSize } k)
      (spiExchange { st' with spiRx := st'.spiRx.clear spiXferSize } k) := by
  obtain ⟨image, rx, tx, metaBuf⟩ := st
  obtain ⟨image', rx', tx', metaBuf'⟩ := st'
  obtain rfl : tx = tx' := h.spiTx
  have hclear : rx.clear spiXferSize = rx'.clear spiXferSize := (Buf.AgreeBelow.clear _ _ _).eq
  simp only [spiExchange, hclear]
  refine Prog.Rel.bind_left fun _ => ?_
  refine Prog.Rel.bind_left fun _ => ?_
  refine Prog.Rel.bind_left fun rx => ?_
  exact Prog.Rel.ret ⟨⟨rfl, h.metaBuf, h.imageBuf⟩, rfl⟩

theorem rel_spiDiscard {n : ℕ} (st st' : Statics) (remaining : UInt32) (h : Alike n st st') :
    Prog.Rel (Alike n) (spiDiscard st remaining) (spiDiscard st' remaining) := by
  induction st, remaining using spiDiscard.induct generalizing st' with
  | case1 st remaining hpos ih =>
    rw [spiDiscard, spiDiscard.eq_1 st', if_pos hpos, if_pos hpos]
    exact Prog.Rel.bind (rel_spiExchange h _) fun s s' hs => ih s s' hs.1
  | case2 st remaining hpos =>
    rw [spiDiscard, spiDiscard.eq_1 st', if_neg hpos, if_neg hpos]
    exact Prog.Rel.ret h

theorem rel_spiReadBlocks {n : ℕ} (st st' : Statics) (remaining offset : UInt32)
    (h : Alike n st st') :
    Prog.Rel (Alike n) (spiReadBlocks st remaining offset)
      (spiReadBlocks st' remaining offset) := by
  induction st, remaining, offset using spiReadBlocks.induct generalizing st' with
  | case1 st remaining offset hpos xfer ih =>
    rw [spiReadBlocks, spiReadBlocks.eq_1 st', if_pos hpos, if_pos hpos]
    refine Prog.Rel.bind (rel_spiExchange h _) fun s s' hs => ?_
    refine Prog.Rel.bind_left fun _ => ?_
    by_cases hrange : offset.toNat + xfer ≤ imgBufSize
    · refine Prog.Rel.bind_left fun _ => ih s _ ?_
      refine ⟨hs.1.spiTx, hs.1.metaBuf, ?_⟩
      rw [hs.2]
      exact hs.1.imageBuf.blit hrange _
    · simp only [inRange, xfer] at hrange ⊢
      rw [if_neg hrange]
      exact Prog.Rel.fault _
  | case2 st remaining offset hpos =>
    rw [spiReadBlocks, spiReadBlocks.eq_1 st', if_neg hpos, if_neg hpos]
    exact Prog.Rel.ret h

/-- **The transfer overwrites what it hands on**: afterwards the images agree as far as they go. -/
theorem rel_fetchImage (st st' : Statics) (h : st.metaBuf = st'.metaBuf) (imgSize : UInt32) :
    Prog.Rel (Alike imgSize.toNat) (fetchImage st imgSize) (fetchImage st' imgSize) := by
  refine Prog.Rel.bind_left fun _ => ?_
  refine Prog.Rel.bind_left fun _ => ?_
  refine Prog.Rel.bind_left fun _ => ?_
  refine Prog.Rel.bind (E := fun r r' => Alike imgSize.toNat r.2 r'.2) ?_
    fun _ _ hr => Prog.Rel.ret hr
  refine Prog.Rel.bind_left fun _ => ?_
  refine Prog.Rel.bind_left fun _ => ?_
  refine Prog.Rel.bind_left fun _ => ?_
  refine Prog.Rel.bind_left fun _ => ?_
  refine Prog.Rel.bind_left fun _ => ?_
  -- `spi_tx` and `image_buf` were cleared by now, and every block clears `spi_rx`
  refine Prog.Rel.bind (rel_spiDiscard (n := imgSize.toNat) _ _ _ ?_) fun s s' hs => ?_
  · exact ⟨(Buf.AgreeBelow.clear _ _ _).eq, h, Buf.AgreeBelow.clear _ _ _⟩
  refine Prog.Rel.bind_left fun _ => ?_
  refine Prog.Rel.bind (rel_spiReadBlocks s s' imgSize 0 hs) fun t t' ht => ?_
  refine Prog.Rel.bind_left fun _ => ?_
  refine Prog.Rel.bind_left fun _ => ?_
  exact Prog.Rel.ret ht

/-! ## Markers and pushes -/

section Finish

variable {n : UInt32} {image image' : Buf imgBufSize}

theorem imageByte_congr (h : Buf.AgreeBelow n.toNat image image') {i : UInt32}
    (hi : i.toNat < n.toNat) : imageByte image i = imageByte image' i := by
  rw [imageByte, imageByte, h i.toNat hi]

/-- With three bytes or more, the marker checks read the image only. -/
theorem checkMarkers_congr (h : Buf.AgreeBelow n.toNat image image') (h3 : 3 ≤ n.toNat)
    (hn : n.toNat ≤ imgBufSize) : checkMarkers image n = checkMarkers image' n := by
  have hsub2 : (n - 2).toNat < n.toNat := by rw [toNat_sub_two (by omega)]; omega
  have hsub1 : (n - 1).toNat < n.toNat := by rw [toNat_sub_one (by omega)]; omega
  have hheader : headerLine image = headerLine image' := by
    rw [headerLine, headerLine, hdrOk, hdrOk, h 0 (by omega), h 1 (by omega), h 2 (by omega)]
  have htrailer : trlOk image n = trlOk image' n := by
    simp only [trlOk, h _ hsub2, h _ hsub1]
  rw [checkMarkers_eq image hn, checkMarkers_eq image' hn, hheader, htrailer]
  simp only [reportTrailer, imageByte_congr h hsub2, imageByte_congr h hsub1]

theorem pushDataFrom_congr (h : Buf.AgreeBelow n.toNat image image') (hn : n.toNat ≤ imgBufSize)
    (k : ℕ) (ci : UInt32) (hk : ci.toNat + k = (sliceTotal chunkSize n).toNat) :
    pushDataFrom image n k ci = pushDataFrom image' n k ci := by
  induction k generalizing ci with
  | zero => rfl
  | succ k ih =>
    have hi : ci.toNat < (sliceTotal chunkSize n).toNat := by omega
    have hnext : (ci + 1).toNat + k = (sliceTotal chunkSize n).toNat := by
      rw [toNat_succ_of_lt_total hi]
      omega
    have hchunk := sliceChunk_congr (sliceable_chunkSize hn) h ci hi
    simp only [pushDataFrom, pushDataChunk, hchunk, ih (ci + 1) hnext]

theorem rel_pushPhase {st st' : Statics} {hdr : Header} (h : Alike hdr.imgSize.toNat st st')
    (hn : hdr.imgSize.toNat ≤ imgBufSize) : pushPhase st hdr = pushPhase st' hdr := by
  have hdata := pushDataFrom_congr h.imageBuf hn (sliceTotal chunkSize hdr.imgSize).toNat 0
    (by simp)
  simp only [pushPhase, pushDataChunks, h.metaBuf, hdata]

end Finish

/-- **The run after the header**, for an image of three bytes or more. -/
theorem rel_finishRun {st st' : Statics} (h : st.metaBuf = st'.metaBuf) {hdr : Header}
    (hn : hdr.imgSize.toNat ≤ imgBufSize) (h3 : 3 ≤ hdr.imgSize.toNat) :
    Prog.Rel (fun r r' => r.1 = r'.1) (finishRun st hdr) (finishRun st' hdr) := by
  refine Prog.Rel.bind (rel_fetchImage _ _ h hdr.imgSize) fun s s' hs => ?_
  rw [checkMarkers_congr hs.imageBuf h3 hn, rel_pushPhase hs hn]
  refine Prog.Rel.bind_left fun _ => ?_
  exact Prog.Rel.bind_left fun _ => Prog.Rel.ret rfl

/-! ## Short images show earlier contents -/

/-- The header lines of two images that differ in the third byte, neither a marker. -/
theorem headerLine_ne {image image' : Buf imgBufSize} (h : image.byte 2 = 0)
    (h' : image'.byte 2 = 1) : headerLine image ≠ headerLine image' := by
  have hbad : hdrOk image = false := by simp [hdrOk, h]
  have hbad' : hdrOk image' = false := by simp [hdrOk, h']
  intro heq
  rw [headerLine, headerLine, hbad, hbad', if_neg Bool.false_ne_true, if_neg Bool.false_ne_true,
    h, h'] at heq
  have htext : ∀ b, (toString (hex02 b)).toList = hexByte b := fun b => String.toList_ofList
  have hlist := congrArg String.toList heq
  simp only [String.toList_append, htext] at hlist
  obtain ⟨hlist, -⟩ := List.append_inj' hlist rfl
  obtain ⟨-, hbyte⟩ := List.append_inj' hlist rfl
  exact absurd hbyte (by decide)

/-- **An admitted image of one or two bytes shows earlier contents** in the message on its
header. -/
theorem not_independent_of_admits {o : Oracle} {w : World} {hdr : Header} (h : Admits o w hdr)
    (h3 : hdr.imgSize.toNat < 3) : ¬ Independent o w := by
  intro hind
  obtain ⟨metaBuf, metaBuf', w₁, ls₁, hbegin⟩ := h
  have hn : hdr.imgSize.toNat ≤ imgBufSize := by
    have hsize : 3 ≤ imgBufSize := by decide
    omega
  let st (b : UInt8) : Statics :=
    ⟨(Buf.zero _).store 2 b, Buf.zero _, Buf.zero _, metaBuf⟩
  let st₁ (b : UInt8) : Statics := { st b with metaBuf := metaBuf' }
  have hbyte : ∀ b s, WroteBelow hdr.imgSize.toNat (st₁ b) s → s.imageBuf.byte 2 = b := by
    intro b s hs
    rw [hs.2 2 (by omega)]
    exact (Buf.byte_store _ (by decide) b 2).trans (if_pos rfl)
  obtain ⟨s, w₂, ⟨ls₂, hfetch⟩, hs⟩ := reaches_fetchImage o (st₁ 0) hn w₁
  obtain ⟨y, hfetch', hy⟩ := (rel_fetchImage (st₁ 0) (st₁ 1) rfl hdr.imgSize).run hfetch
  cases hy with
  | @ret _ s' _ =>
    have hs' := (all_fetchImage (st₁ 1) hn).result hfetch'
    have hrun := run_headerLine (st 0) hn hbegin hfetch
    have hrun' := run_headerLine (st 1) hn hbegin hfetch'
    obtain ⟨p, hp, -⟩ := hind (st 0) (st 1) _ _ _ hrun
    have hworld := congrArg Prod.snd (Option.some.inj (hp.symm.trans hrun'))
    have hlog := congrArg World.log hworld
    have hevent := List.append_cancel_left hlog
    have hline : headerLine s.imageBuf = headerLine s'.imageBuf := by
      injection List.cons.inj hevent |>.1 with hcall
      exact Call.printf.inj hcall
    exact headerLine_ne (hbyte 0 s hs) (hbyte 1 s' hs') hline

/-! ## Independence -/

/-- A reply announcing two bytes: the message on the header shows a byte an earlier run left. -/
theorem twoByteReply_not_independent : ¬ Independent (shortReply 2) (World.start 0) := by
  have hadmits : Admits (shortReply 2) (World.start 0) ⟨2, 1⟩ :=
    ⟨Buf.zero _, _, _, List.replicate 35 none, rfl⟩
  exact not_independent_of_admits hadmits (by decide)

theorem sameStatus_of_rel {p p' : CamProg (Int × Statics)}
    (h : Prog.Rel (fun r r' => r.1 = r'.1) p p') (ret : Int) :
    (∃ st, p = .ret (ret, st)) ↔ ∃ st, p' = .ret (ret, st) := by
  cases h with
  | @ret a b hab =>
    obtain ⟨r, st⟩ := a
    obtain ⟨r', st'⟩ := b
    obtain rfl : r = r' := hab
    simp
  | fault e => simp
  | call hk => simp

theorem independent_iff_admits (o : Oracle) (w : World) :
    Independent o w ↔ ∀ hdr, Admits o w hdr → 3 ≤ hdr.imgSize.toNat := by
  constructor
  · exact fun hind hdr hadmits =>
      Nat.le_of_not_lt fun h3 => not_independent_of_admits hadmits h3 hind
  · intro hadmits st₁ st₂ ls p₁ w' h
    rcases Prog.run_bind_cases h with
      ⟨y, hy, hne, rfl⟩ | ⟨ls₁, ls₂, ⟨res, metaBuf⟩, w₁, rfl, hbegin, hrest⟩
    · -- both runs are still before the metadata string
      obtain ⟨y', hy', hrel⟩ := (rel_beginRun st₁.metaBuf st₂.metaBuf).run hy
      have hne' : ∀ a, y' ≠ .ret a := by
        rintro a rfl
        cases hrel with
        | ret _ => exact hne _ rfl
      refine ⟨_, Prog.run_bind hy' _, fun ret => ⟨?_, ?_⟩⟩
      · exact fun ⟨st, hst⟩ => absurd hst (Prog.bind_ne_ret hne _ _)
      · exact fun ⟨st, hst⟩ => absurd hst (Prog.bind_ne_ret hne' _ _)
    · -- both runs have the header, and the same `meta_buf` if they go on
      obtain ⟨y', hbegin', hrel⟩ := (rel_beginRun st₁.metaBuf st₂.metaBuf).run hbegin
      cases hrel with
      | @ret _ b hb =>
        obtain ⟨res', metaBuf'⟩ := b
        obtain ⟨rfl, hmeta⟩ : res = res' ∧ (res ≠ none → metaBuf = metaBuf') := hb
        have hrel : Prog.Rel (fun r r' => r.1 = r'.1) (continueRun st₁ (res, metaBuf))
            (continueRun st₂ (res, metaBuf')) := by
          cases res with
          | none => exact Prog.Rel.ret rfl
          | some hdr =>
            have hadm : Admits o w hdr := ⟨_, _, _, _, hbegin⟩
            exact rel_finishRun (hmeta (by simp)) hadm.admitted.imgSize_le (hadmits hdr hadm)
        obtain ⟨p₂, hp₂, hp⟩ := hrel.run hrest
        exact ⟨p₂, (Prog.run_bind_ret hbegin' _ _).trans hp₂, sameStatus_of_rel hp⟩

/-- **A capture run is independent of earlier runs exactly when no run admits an image of one or
two bytes**: when a run that comes to the request does not find, in the reads after it and within
the poll limits, a reply that announces one. -/
theorem independent_iff (o : Oracle) (w : World) :
    (Independent o w ↔ ∀ hdr, Admits o w hdr → 3 ≤ hdr.imgSize.toNat) ∧
      ∀ reads, Independent (withReply reads o) w ↔
        (Requests (withReply reads o) w → ∀ (rep : Reply) (n : ℕ),
          Timely reads ackPolls sizePolls rep.bytes n → 3 ≤ rep.header.imgSize.toNat) :=
  ⟨independent_iff_admits o w, fun _ => (independent_iff_admits _ w).trans forall_admits_iff⟩

/-- A reply that announces three bytes. -/
theorem independent_iff_gappedReply :
    Admits gappedOracle (World.start 0) ⟨3, 1⟩ ∧ Independent gappedOracle (World.start 0) := by
  refine ⟨admits_gappedOracle, ?_⟩
  refine ((independent_iff _ (World.start 0)).2 gappedReads).mpr fun _ rep n hrep => ?_
  obtain ⟨rfl, -⟩ := Reply.unique timely_gappedReply hrep
  decide

end CameraPipeline
