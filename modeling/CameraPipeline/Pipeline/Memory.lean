import CameraPipeline.Pipeline.Request

/-!
# Array accesses

Every array access of the two tasks, over whole runs. The camera stops at an access outside an
array, and so does `hello_main`; neither happens in any run, except that the warning on a bad
trailer indexes `image_buf` at `img_size - 2` without the check that guards the trailer test itself,
so an admitted image of one byte makes it read at `2 ^ 32 - 1`.

## Main definitions

* `World.InBounds`: chunks in the ring, and the chunk being printed, fit their payload arrays
* `AccessesInBounds o w`: no run from `w` leaves an array

## Main results

* `World.InBounds.handle`, `inBounds_helloTurn`: both tasks keep `World.InBounds`
* `faults_of_admits_one`: an admitted image of one byte leads outside `image_buf`
* `accessesInBounds_iff`: that is the only way
-/

namespace CameraPipeline

open Data Systems

/-- No chunk in the ring, nor the one `hello_main` prints, is longer than its payload array, and
`hello_main` has not left the array. -/
structure World.InBounds (w : World) : Prop where
  slots : ∀ i, (w.ring.slots i).len.toNat ≤ chunkSize
  chunk : ∀ i, w.hello.pc = .printing i → w.hello.chunk.len.toNat ≤ chunkSize
  not_fault : ∀ i, w.hello.pc ≠ .fault i

/-- No run of the camera from `w`, against the oracle `o`, leaves an array, and neither does
`hello_main` meanwhile. -/
def AccessesInBounds (o : Oracle) (w : World) : Prop :=
  ∀ st ls p w', run (pipeline o) (cameraMSN2Main st, w) ls = some (p, w') →
    (∀ e, p ≠ .fault e) ∧ w'.InBounds

theorem inBounds_start (junk : ImageChunk chunkSize) : (World.start junk).InBounds where
  slots _ := Nat.zero_le _
  chunk _ h := nomatch h
  not_fault _ h := nomatch h

/-! ## Both tasks stay in bounds -/

theorem World.InBounds.handle {o : Oracle} {w w' : World} {c : Call} {r : c.Resp}
    (hw : w.InBounds) (hc : c.Fits) (h : handle o w c = some (r, w')) : w'.InBounds := by
  obtain ⟨-, rfl⟩ := handle_eq_some h
  cases c with
  | rbInit => exact ⟨fun _ => Nat.zero_le _, hw.chunk, hw.not_fault⟩
  | rbWrite c =>
    refine ⟨fun i => ?_, hw.chunk, hw.not_fault⟩
    simp only [respond, rbWrite]
    split
    · exact hw.slots i
    · dsimp only
      by_cases hi : i = slot w.ring.wrPtr
      · rw [hi, Function.update_self]
        exact hc
      · rw [Function.update_of_ne hi]
        exact hw.slots i
  | _ => exact ⟨hw.slots, hw.chunk, hw.not_fault⟩

/-- A read delivers one of the slots, and leaves the slots as they are. -/
theorem rbRead_slots {α : Type} {D : ℕ} [NeZero D] (rb : RingBuffer α D) (c : α) :
    (rbRead rb (some c)).1.slots = rb.slots ∧
      ((rbRead rb (some c)).2.1 = 0 → ∃ i, (rbRead rb (some c)).2.2 = some (rb.slots i)) := by
  simp only [rbRead]
  split
  · exact ⟨rfl, fun h => absurd h (by simp)⟩
  · exact ⟨rfl, fun _ => ⟨_, rfl⟩⟩

theorem World.InBounds.of_reading {w : World} (hs : ∀ i, (w.ring.slots i).len.toNat ≤ chunkSize)
    (hpc : w.hello.pc = .reading ∨ w.hello.pc = .done) : w.InBounds := by
  refine ⟨hs, fun i hi => ?_, fun i hi => ?_⟩
  · rcases hpc with h | h <;> rw [h] at hi <;> cases hi
  · rcases hpc with h | h <;> rw [h] at hi <;> cases hi

theorem World.InBounds.of_printing {w : World} {i : ℕ}
    (hs : ∀ i, (w.ring.slots i).len.toNat ≤ chunkSize) (hpc : w.hello.pc = .printing i)
    (hc : w.hello.chunk.len.toNat ≤ chunkSize) : w.InBounds := by
  refine ⟨hs, fun _ _ => hc, fun j hj => ?_⟩
  rw [hpc] at hj
  cases hj

theorem inBounds_helloTurn (w : World) (l : Unit) (w' : World) (hw : w.InBounds)
    (h : helloTurn w l = some w') : w'.InBounds := by
  obtain ⟨ring, ⟨pc, chunk⟩, console, log⟩ := w
  cases pc with
  | reading =>
    obtain ⟨hslots, hread⟩ := rbRead_slots ring chunk
    simp only [helloTurn, helloStep] at h
    generalize rbRead ring (some chunk) = r at h hslots hread
    obtain ⟨rb, ret, ch⟩ := r
    have hs : ∀ i, (rb.slots i).len.toNat ≤ chunkSize := fun i => by rw [hslots]; exact hw.slots i
    dsimp only at h hread
    split at h
    · obtain rfl := Option.some.inj h
      exact .of_reading hs (Or.inl rfl)
    · rename_i hgot
      obtain ⟨i, rfl⟩ := hread (by_contra fun hne => hgot (Or.inl hne))
      obtain rfl := Option.some.inj h
      exact .of_printing hs rfl (hw.slots i)
  | printing i =>
    rcases helloStep_printing rfl (hw.chunk i rfl) h with ⟨-, rfl⟩ | ⟨-, -, rfl⟩ | ⟨-, -, rfl⟩
    · exact .of_printing hw.slots rfl (hw.chunk i rfl)
    · exact .of_reading hw.slots (Or.inr rfl)
    · exact .of_reading hw.slots (Or.inl rfl)
  | done => exact absurd h (by simp [helloTurn, helloStep])
  | fault i => exact absurd h (by simp [helloTurn, helloStep])

section Runs

variable {α : Type} {o : Oracle} {Q : α → Prop} {x p : CamProg α} {w w' : World}
  {ls : List (Option Unit)}

/-- A program whose calls write fitting chunks keeps the world in bounds. -/
theorem inBounds_run (hx : Prog.All (fun c _ => c.Fits) Q x) (hw : w.InBounds)
    (h : run (pipeline o) (x, w) ls = some (p, w')) :
    Prog.All (fun c _ => c.Fits) Q p ∧ w'.InBounds :=
  hx.run hw (fun _ _ _ _ _ hw hc h => hw.handle hc h) inBounds_helloTurn h

theorem ne_fault_of_all {P : (c : Call) → (c.Resp → Bool) → Prop} (h : Prog.All P Q p) (e : Fault) :
    p ≠ .fault e := by
  rintro rfl
  cases h

end Runs

/-! ## The one access that is not -/

/-- A run through the transfer and one step on: the header line is printed, the trailer is next. -/
theorem run_headerLine {o : Oracle} (st : Statics) {s : Statics} {hdr : Header}
    {metaBuf : Buf metaBufSize} {w w₁ w₂ : World} {ls₁ ls₂ : List (Option Unit)}
    (hn : hdr.imgSize.toNat ≤ imgBufSize)
    (hbegin : run (pipeline o) (beginRun st.metaBuf, w) ls₁ = some (.ret (some hdr, metaBuf), w₁))
    (hfetch : run (pipeline o) (fetchImage { st with metaBuf := metaBuf } hdr.imgSize, w₁) ls₂ =
      some (.ret s, w₂)) :
    run (pipeline o) (cameraMSN2Main st, w) (ls₁ ++ (ls₂ ++ [none])) =
      some (do
          reportTrailer s.imageBuf hdr.imgSize (trlOk s.imageBuf hdr.imgSize)
          let ret ← pushPhase s hdr
          pure (ret, s),
        w₂.printed (headerLine s.imageBuf)) := by
  have hfinish : run (pipeline o) (cameraMSN2Main st, w) (ls₁ ++ (ls₂ ++ [none])) =
      run (pipeline o) (finishRun { st with metaBuf := metaBuf } hdr, w₁) (ls₂ ++ [none]) :=
    Prog.run_bind_ret hbegin _ _
  rw [hfinish, finishRun, Prog.run_bind_ret hfetch, checkMarkers_eq _ hn]
  rfl

/-- The transfer returns, against every oracle. -/
theorem reaches_fetchImage (o : Oracle) (st : Statics) {n : UInt32} (hn : n.toNat ≤ imgBufSize)
    (w : World) :
    ∃ s w', Reaches (pipeline o) (fetchImage st n, w) (.ret s, w') ∧ WroteBelow n.toNat st s :=
  ((all_fetchImage st hn).mono (fun _ _ h => h.2) fun _ h => h).returns (handle_isSome o) w

/-- An admitted image of one byte leads the trailer warning outside `image_buf`. -/
theorem faults_of_admits_one {o : Oracle} {w : World} {hdr : Header} (h : Admits o w hdr)
    (h1 : hdr.imgSize = 1) :
    ∃ st w', Reaches (pipeline o) (cameraMSN2Main st, w) (.fault ⟨.imageBuf, 2 ^ 32 - 1⟩, w') := by
  obtain ⟨metaBuf, metaBuf', w₁, ls₁, hbegin⟩ := h
  let st : Statics := ⟨Buf.zero _, Buf.zero _, Buf.zero _, metaBuf⟩
  have hn : hdr.imgSize.toNat ≤ imgBufSize := by rw [h1]; decide
  obtain ⟨s, w₂, ⟨ls₂, hfetch⟩, -⟩ := reaches_fetchImage o { st with metaBuf := metaBuf' } hn w₁
  have hrun := run_headerLine st hn hbegin hfetch
  rw [h1, reportTrailer_one] at hrun
  exact ⟨st, _, _, hrun⟩

theorem admits_shortReply_one : Admits (shortReply 1) (World.start 0) ⟨1, 1⟩ :=
  ⟨Buf.zero _, _, _, List.replicate 35 none, rfl⟩

/-- A reply announcing one byte takes the camera from boot to an access outside `image_buf`. -/
theorem oneByteReply_leaves_imageBuf :
    ∃ st w', Reaches (pipeline (shortReply 1)) (cameraMSN2Main st, World.start 0)
      (.fault ⟨.imageBuf, 2 ^ 32 - 1⟩, w') :=
  faults_of_admits_one admits_shortReply_one rfl

theorem accessesInBounds_iff_admits (o : Oracle) {w : World} (hw : w.InBounds) :
    AccessesInBounds o w ↔ ∀ hdr, Admits o w hdr → hdr.imgSize ≠ 1 := by
  constructor
  · intro hsafe hdr hadmits h1
    obtain ⟨st, w', ls, hfault⟩ := faults_of_admits_one hadmits h1
    exact (hsafe st ls _ w' hfault).1 _ rfl
  · intro hadmits st ls p w' h
    rcases Prog.run_bind_cases h with
      ⟨y, hy, hne, rfl⟩ | ⟨ls₁, ls₂, ⟨res, metaBuf⟩, w₁, -, hbegin, hrest⟩
    · obtain ⟨hall, hw'⟩ := inBounds_run (all_beginRun _) hw hy
      refine ⟨fun e he => ?_, hw'⟩
      cases hall with
      | ret _ => exact hne _ rfl
      | call _ _ => cases he
    · obtain ⟨-, hw₁⟩ := inBounds_run (all_beginRun _) hw hbegin
      cases res with
      | none =>
        obtain ⟨hp, hw'⟩ := inBounds_run (Prog.All.ret (Q := fun _ => True) trivial) hw₁ hrest
        exact ⟨ne_fault_of_all hp, hw'⟩
      | some hdr =>
        have hadm : Admits o w hdr := ⟨_, _, w₁, ls₁, hbegin⟩
        obtain ⟨hp, hw'⟩ :=
          inBounds_run (all_finishRun _ hadm.admitted (hadmits hdr hadm)) hw₁ hrest
        exact ⟨ne_fault_of_all hp, hw'⟩

/-- **Array accesses stay in bounds exactly when no run admits an image of one byte**: when a run
that comes to the request does not find, in the reads after it and within the poll limits, a reply
that announces one. -/
theorem accessesInBounds_iff (o : Oracle) {w : World} (hw : w.InBounds) :
    (AccessesInBounds o w ↔ ∀ hdr, Admits o w hdr → hdr.imgSize ≠ 1) ∧
      ∀ reads, AccessesInBounds (withReply reads o) w ↔
        (Requests (withReply reads o) w → ∀ (rep : Reply) (n : ℕ),
          Timely reads ackPolls sizePolls rep.bytes n → rep.header.imgSize ≠ 1) :=
  ⟨accessesInBounds_iff_admits o hw,
    fun _ => (accessesInBounds_iff_admits _ hw).trans forall_admits_iff⟩

/-- A reply that announces one byte, and one that announces three. -/
theorem accessesInBounds_iff_shortReply :
    (World.start 0).InBounds ∧ ¬ AccessesInBounds (shortReply 1) (World.start 0) ∧
      Admits gappedOracle (World.start 0) ⟨3, 1⟩ ∧
      AccessesInBounds gappedOracle (World.start 0) := by
  refine ⟨inBounds_start 0, fun h => ?_, admits_gappedOracle, ?_⟩
  · exact (accessesInBounds_iff _ (inBounds_start 0)).1.mp h ⟨1, 1⟩ admits_shortReply_one rfl
  · refine ((accessesInBounds_iff _ (inBounds_start 0)).2 gappedReads).mpr fun _ rep n hrep => ?_
    obtain ⟨rfl, -⟩ := Reply.unique timely_gappedReply hrep
    decide

end CameraPipeline
