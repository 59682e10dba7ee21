import CameraPipeline.Data.Lines
import CameraPipeline.Pipeline.Delivery

/-!
# The image on the shared console

Both tasks print on one console, and each `printf` is appended at once. The image is one unbroken
line of the transcript when the camera prints nothing while that line is open. Its messages up to
the first data chunk cannot fall into the line, which starts after that chunk was read; its message
after the last push can, since the ring holds that chunk, and up to 63 before it, unread.

## Main definitions

* `LineOpen console`: `hello_main` has printed a part of its line
* `DoneOutsideLine n`: the condition on a step that it does not print the camera's last message into
  an open line
* `Unbroken console`: the line of `hello_main` is in one piece

## Main results

* `unbroken_run`: over the steps that meet the condition, the line stays in one piece
* `image_is_one_line`: then the transcript has the image's hex as one of its lines
* `done_message_breaks_line`: a run in which it has not
-/

namespace CameraPipeline

open Data Systems

/-- `hello_main` has printed a part of its line, and not its newline. -/
def LineOpen (console : List (Task × List Char)) : Prop :=
  helloOut console ≠ [] ∧ '\n' ∉ helloOut console

instance (console : List (Task × List Char)) : Decidable (LineOpen console) :=
  inferInstanceAs (Decidable (_ ∧ _))

/-- The step does not print the camera's last message into an open line. -/
def DoneOutsideLine (n : UInt32) (s : CamProg Int × World) (l : Option Unit) : Prop :=
  l = none → (∃ again k, s.1 = .call (.printf (doneMessage n)) again k) → ¬ LineOpen s.2.console

/-- **The line of `hello_main` is in one piece**: whole lines before it, and something after it only
when it is complete. -/
def Unbroken (console : List (Task × List Char)) : Prop :=
  ∃ before after, WholeLines before ∧ transcript console = before ++ (helloOut console ++ after) ∧
    ('\n' ∉ helloOut console → after = [])

/-! ## What the two tasks print -/

theorem newline_not_mem_hex (bs : List UInt8) : '\n' ∉ hex bs :=
  fun h => absurd (isAlphanum_of_mem_hex h) (by decide)

/-- Before it returns, `hello_main` has printed no newline. -/
theorem HelloAt.newline_not_mem {taken : List (ImageChunk chunkSize)} {hello : Hello}
    {out : List Char} (h : HelloAt taken hello out) (hpc : hello.pc ≠ .done) : '\n' ∉ out := by
  cases hpc' : hello.pc with
  | reading =>
    rw [HelloAt, hpc'] at h
    rw [h.2]
    exact newline_not_mem_hex _
  | printing i =>
    rw [HelloAt, hpc'] at h
    obtain ⟨cs, -, -, -, -, rfl⟩ := h
    exact newline_not_mem_hex _
  | done => exact absurd hpc' hpc
  | fault i =>
    rw [HelloAt, hpc'] at h
    exact h.elim

/-- Before a data chunk is taken, `hello_main` has printed nothing. -/
theorem HelloAt.out_eq_nil {taken : List (ImageChunk chunkSize)} {hello : Hello} {out : List Char}
    (h : HelloAt taken hello out) (hmeta : ∀ c ∈ taken, c.isMeta ≠ 0) : out = [] := by
  have hchunk : ∀ cs, taken = cs ++ [hello.chunk] → hello.chunk.isMeta ≠ 0 := by
    rintro cs rfl
    exact hmeta _ (by simp)
  cases hpc : hello.pc with
  | reading =>
    rw [HelloAt, hpc] at h
    have hnone : taken.filter (fun c => c.isMeta = 0) = [] := by simpa using hmeta
    rw [h.2, dataBytes, hnone]
    rfl
  | printing i =>
    rw [HelloAt, hpc] at h
    obtain ⟨cs, htaken, hm, -⟩ := h
    exact absurd hm (hchunk cs htaken)
  | done =>
    rw [HelloAt, hpc] at h
    obtain ⟨cs, htaken, hm, -⟩ := h
    exact absurd hm (hchunk cs htaken)
  | fault i =>
    rw [HelloAt, hpc] at h
    exact h.elim

theorem wholeLines_append {s t : String} {u : List Char} (h : t.toList = u ++ ['\n']) :
    WholeLines (s ++ t).toList :=
  Or.inr ⟨s.toList ++ u, by rw [String.toList_append, h, List.append_assoc]⟩

/-- Every message of the push phase is a whole line. -/
theorem wholeLines_of_print_mem {st : Statics} {hdr : Header} {text : String}
    (h : Action.print text ∈ pushActions st hdr) : WholeLines text.toList := by
  simp only [pushActions, dataActions, List.mem_append, List.mem_cons, List.not_mem_nil, or_false,
    List.mem_map, reduceCtorEq, and_false, exists_const, false_or, Action.print.injEq] at h
  rcases h with (rfl | rfl) | rfl
  · exact Or.inr ⟨"[CAM] meta chunk pushed".toList, rfl⟩
  · exact wholeLines_append (u := " JPEG chunks...".toList) rfl
  · exact wholeLines_append (u := " chunks pushed — DONE".toList) rfl

/-- Once the camera is at its data chunks, its only message left is the last one. -/
theorem eq_doneMessage_of_print_mem {image : Buf imgBufSize} {n : UInt32} {text : String}
    (h : Action.print text ∈ dataActions image n) : text = doneMessage n := by
  simpa [dataActions] using h

/-- While a message other than the last one is next, `hello_main` has printed nothing. -/
theorem Tracks.helloOut_eq_nil {st : Statics} {hdr : Header} {h : hdr.Admitted} {k : Ledger}
    {s : CamProg Int × World} (hk : Tracks (pushedFrame st h) k s)
    (hsuffix : k.todo <:+ pushActions st hdr) {text : String} {todo : List Action}
    (htodo : k.todo = .print text :: todo) (htext : text ≠ doneMessage hdr.imgSize) :
    helloOut s.2.console = [] := by
  have hdata : dataActions st.imageBuf hdr.imgSize <:+ pushActions st hdr := List.suffix_append _ _
  rcases List.suffix_or_suffix_of_suffix hsuffix hdata with hin | ⟨early, hearly⟩
  · -- a message among the actions from the first data chunk on is the last one
    have hmem : Action.print text ∈ dataActions st.imageBuf hdr.imgSize :=
      hin.subset (htodo ▸ List.mem_cons_self)
    exact absurd (eq_doneMessage_of_print_mem hmem) htext
  · -- all data chunks are still to push, so only the metadata chunk can have been taken
    refine hk.hello.out_eq_nil fun c hc => ?_
    have hchunks := hk.chunks
    rw [pushedFrame_chunks, ← hearly, pushes_append, pushes_dataActions, ← List.singleton_append,
      ← List.append_assoc, ← List.append_assoc] at hchunks
    have hmeta := List.append_cancel_right hchunks
    have hmem : c ∈ [metaChunk st.metaBuf hdr.metaLen] := by
      rw [hmeta]
      simp [hc]
    rw [List.mem_singleton.mp hmem]
    exact by simp [metaChunk]

/-! ## The line stays in one piece -/

section Runs

variable {o : Oracle} (st : Statics) {hdr : Header} (h : hdr.Admitted)

/-- What the runs keep: the ledger, and the line in one piece. -/
def LineInvariant (s : CamProg Int × World) : Prop :=
  ∃ k, Tracks (pushedFrame st h) k s ∧ k.todo <:+ pushActions st hdr ∧ Unbroken s.2.console

theorem unbroken_camera {console : List (Task × List Char)} {text : List Char}
    (hc : Unbroken console) (htext : WholeLines text) (hopen : ¬ LineOpen console) :
    Unbroken (console ++ [(.camera, text)]) := by
  obtain ⟨before, after, hbefore, htrans, hafter⟩ := hc
  rw [Unbroken, helloOut_camera, transcript_append, transcript_singleton, htrans]
  -- the line is complete and the message comes after it, or empty and the message comes before
  by_cases hnl : '\n' ∈ helloOut console
  · exact ⟨before, after ++ text, hbefore, by simp, fun hn => absurd hnl hn⟩
  · have hout : helloOut console = [] := by_contra fun hne => hopen ⟨hne, hnl⟩
    rw [hafter hnl, hout]
    exact ⟨before ++ text, [], hbefore.append htext, by simp, fun _ => rfl⟩

theorem unbroken_hello {console : List (Task × List Char)} (text : List Char)
    (hc : Unbroken console) (hnl : '\n' ∉ helloOut console) :
    Unbroken (console ++ [(.hello, text)]) := by
  obtain ⟨before, after, hbefore, htrans, hafter⟩ := hc
  rw [Unbroken, helloOut_hello, transcript_append, transcript_singleton, htrans, hafter hnl]
  exact ⟨before, [], hbefore, by simp, fun _ => rfl⟩

theorem lineInvariant_step {s s' : CamProg Int × World} {l : Option Unit}
    (hs : LineInvariant st h s) (hcond : DoneOutsideLine hdr.imgSize s l)
    (hstep : pipeline o s l = some s') : LineInvariant st h s' := by
  obtain ⟨k, hk, hsuffix, hline⟩ := hs
  obtain ⟨k', hk', -, htodo, hconsole⟩ := tracks_step hk hstep
  refine ⟨k', hk', htodo.trans hsuffix, ?_⟩
  rcases hconsole with hsame | ⟨text, rfl, hprint, hcon⟩ | ⟨text, hpc, hcon⟩
  · rwa [hsame]
  · rw [hcon]
    have hmem : Action.print text ∈ pushActions st hdr :=
      hsuffix.subset (hprint ▸ List.mem_cons_self)
    refine unbroken_camera hline (wholeLines_of_print_mem hmem) ?_
    by_cases htext : text = doneMessage hdr.imgSize
    · refine hcond rfl ⟨fun _ => false, fun _ => perform k'.todo, ?_⟩
      rw [hk.program, hprint, perform_print, htext]
    · exact fun hopen => hopen.1 (hk.helloOut_eq_nil hsuffix hprint htext)
  · rw [hcon]
    exact unbroken_hello text hline (hk.hello.newline_not_mem hpc)

theorem unbroken_start (junk : ImageChunk chunkSize) :
    LineInvariant st h (pushPhase st hdr, World.start junk) :=
  ⟨_, tracks_start st h junk, List.suffix_rfl, [], [], wholeLines_nil, rfl, fun _ => rfl⟩

end Runs

/-- **The image is one unbroken line of the transcript** in every run whose steps keep the camera's
last message out of an open line, once `hello_main` has returned. -/
theorem image_is_one_line (o : Oracle) (st : Statics) {hdr : Header} (h : hdr.Admitted)
    (junk : ImageChunk chunkSize) {ls : List (Option Unit)} {p : CamProg Int} {w : World}
    (hcond : Along (pipeline o) (DoneOutsideLine hdr.imgSize)
      (pushPhase st hdr, World.start junk) ls)
    (hrun : run (pipeline o) (pushPhase st hdr, World.start junk) ls = some (p, w)) :
    Unbroken w.console ∧ (w.hello.pc = .done →
      hex (st.imageBuf.slice 0 hdr.imgSize.toNat) ∈ lines (transcript w.console)) := by
  obtain ⟨k, hk, -, hline⟩ := run_invariant_along
    (fun _ _ _ hs hc hstep => lineInvariant_step st h hs hc hstep) (unbroken_start st h junk)
    hcond hrun
  refine ⟨hline, fun hpc => ?_⟩
  obtain ⟨before, after, hbefore, htrans, -⟩ := hline
  obtain ⟨-, -, hout⟩ := hk.hello.done_eq hk.chunks hpc
  dsimp only at htrans hout
  rw [htrans, hout, pushedFrame_image, List.append_assoc, List.singleton_append]
  exact mem_lines hbefore (newline_not_mem_hex _) after

/-- The camera's last message printed after the line is complete. -/
theorem smallJpeg_is_one_line :
    ∃ p w, run (pipeline (scripted []))
        (pushPhase (Statics.jpeg 259) ⟨259, 1⟩, World.start 0)
        (gappedSchedule ++ [none, none]) = some (p, w) ∧
      hex smallJpeg ∈ lines (transcript w.console) := by
  have hpc : (run (pipeline (scripted []))
      (pushPhase (Statics.jpeg 259) ⟨259, 1⟩, World.start 0)
      (gappedSchedule ++ [none, none])).map (fun s => s.2.hello.pc) = some .done := by
    decide +kernel
  obtain ⟨⟨p, w⟩, hrun, hdone⟩ := Option.map_eq_some_iff.mp hpc
  have hcond : Along (pipeline (scripted []))
      (fun s l => l = none → s.1.asks (· matches .printf _) → ¬ LineOpen s.2.console)
      (pushPhase (Statics.jpeg 259) ⟨259, 1⟩, World.start 0)
      (gappedSchedule ++ [none, none]) := by
    decide +kernel
  have hout : Along (pipeline (scripted [])) (DoneOutsideLine 259)
      (pushPhase (Statics.jpeg 259) ⟨259, 1⟩, World.start 0)
      (gappedSchedule ++ [none, none]) := by
    refine hcond.mono fun s l hc hl hnext => hc hl ?_
    obtain ⟨again, k, hs⟩ := hnext
    rw [hs]
    rfl
  have himage :=
    image_is_one_line (scripted []) (Statics.jpeg 259) admitted_smallJpeg 0 hout hrun
  refine ⟨p, w, hrun, ?_⟩
  rw [← slice_smallJpeg]
  exact himage.2 hdone

/-- Four bytes between the markers of a JPEG. -/
def tinyJpeg : List UInt8 := [0xFF, 0xD8, 0xFF, 0xD9]

/-- The camera's last message printed after the first two bytes of the image. -/
def brokenSchedule : List (Option Unit) :=
  List.replicate 4 none ++ List.replicate 4 (some ()) ++ [none, none] ++ List.replicate 3 (some ())

theorem done_message_breaks_line :
    ∃ w, run (pipeline (scripted []))
        (pushPhase (Statics.jpeg 4) ⟨4, 1⟩, World.start 0) brokenSchedule =
          some (.ret 0, w) ∧ w.hello.pc = .done ∧
      hex ((Statics.jpeg 4).imageBuf.slice 0 4) ∉ lines (transcript w.console) :=
  ⟨_, rfl, rfl, by decide +kernel⟩

end CameraPipeline
