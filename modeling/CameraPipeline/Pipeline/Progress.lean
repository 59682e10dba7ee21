import CameraPipeline.Pipeline.Delivery

/-!
# No stuck state between the two tasks

There is no condition variable between the camera and `hello_main`, only retry loops on both sides.
In every state of a run one of the two loops would get through at its next attempt, until
`hello_main` has taken the last chunk; and the number of attempts that succeed is fixed by the size
of the image.

## Main definitions

* `NextWrite p c`: the next ring call of the program `p` is `rb_write(c)`
* `WriteSucceeds`, `ReadSucceeds`: the next attempt of either task would succeed
* `Hello.Finished`: `hello_main` makes no further attempt

## Main results

* `Tracks.finished_iff`: `hello_main` is finished when every chunk is taken
* `no_stuck_state`: the states, and the attempts that succeed, of every run
-/

namespace CameraPipeline

open Data Systems

/-- Whatever the responses, the next ring call of the program is `rb_write(c)`. -/
inductive NextWrite {α : Type} (c : ImageChunk chunkSize) : CamProg α → Prop
  | here {again : Int → Bool} {k : Int → CamProg α} : NextWrite c (.call (.rbWrite c) again k)
  | later {call : Call} {again : call.Resp → Bool} {k : call.Resp → CamProg α}
      (hcall : call.Ringless) (hk : ∀ r, NextWrite c (k r)) : NextWrite c (.call call again k)

/-- The camera's next `rb_write` would succeed. -/
def WriteSucceeds (p : CamProg Int) (w : World) : Prop :=
  ∃ c, NextWrite c p ∧ (rbWrite w.ring (some c)).2 = 0

/-- The next `rb_read` of `hello_main` would succeed. -/
def ReadSucceeds (w : World) : Prop := (rbRead w.ring (some w.hello.chunk)).2.1 = 0

/-- `hello_main` makes no further attempt: it has returned, or it is printing the chunk it returns
on. -/
def Hello.Finished (hello : Hello) : Prop :=
  hello.pc = .done ∨ ∃ i, hello.pc = .printing i ∧ hello.chunk.isLast ≠ 0

/-! ## Attempts that would succeed -/

theorem nextWrite_perform {todo : List Action} (hinit : .init ∉ todo) {c : ImageChunk chunkSize}
    {cs : List (ImageChunk chunkSize)} (h : pushes todo = c :: cs) :
    NextWrite c (perform todo) := by
  induction todo with
  | nil => cases h
  | cons a todo ih =>
    have ih := ih (List.not_mem_of_not_mem_cons hinit)
    cases a with
    | init => exact absurd List.mem_cons_self hinit
    | push d =>
      obtain ⟨rfl, -⟩ := List.cons.inj h
      exact NextWrite.here
    | print text => exact NextWrite.later trivial fun _ => ih h
    | close => exact NextWrite.later trivial fun _ => ih h

theorem pushes_ne_nil_of_nextWrite {todo : List Action} {c : ImageChunk chunkSize}
    (h : NextWrite c (perform todo)) : pushes todo ≠ [] := by
  induction todo with
  | nil => cases h
  | cons a todo ih =>
    cases a with
    | init =>
      cases h with
      | later hcall _ => exact hcall.elim
    | push d => exact List.cons_ne_nil _ _
    | print text =>
      cases h with
      | later _ hk => exact ih (hk ())
    | close =>
      cases h with
      | later _ hk => exact ih (hk ())

section Tracked

variable {f : Frame} {k : Ledger} {p : CamProg Int} {w : World}

theorem readSucceeds_of_held (hk : Tracks f k (p, w)) (h : k.held ≠ []) : ReadSucceeds w := by
  obtain ⟨x, held, hheld⟩ := List.exists_cons_of_ne_nil h
  have hring := hk.ring
  rw [hheld] at hring
  exact congrArg Prod.fst (hring.read (Or.inl (by decide)) w.hello.chunk).1

theorem writeSucceeds_of_pushes (hk : Tracks f k (p, w)) (hheld : k.held = [])
    (h : pushes k.todo ≠ []) : WriteSucceeds p w := by
  obtain ⟨c, cs, hpushes⟩ := List.exists_cons_of_ne_nil h
  obtain rfl : p = perform k.todo := hk.program
  refine ⟨c, nextWrite_perform hk.no_init hpushes, ?_⟩
  rw [rbWrite_ret hk.ring, hheld]
  rfl

/-- **`hello_main` is finished when every chunk is taken.** -/
theorem Tracks.finished_iff (hk : Tracks f k (p, w)) :
    w.hello.Finished ↔ k.held = [] ∧ pushes k.todo = [] := by
  rw [← List.append_eq_nil_iff]
  have hat : HelloAt k.taken w.hello (helloOut w.console) := hk.hello
  constructor
  · rintro (hpc | ⟨i, hpc, hl⟩)
    · exact (hat.done_eq hk.chunks hpc).1
    · rw [HelloAt, hpc] at hat
      obtain ⟨cs, htaken, hm, -⟩ := hat
      exact (f.eq_chunks (htaken ▸ hk.chunks) hm hl).1
  · intro hrest
    have htaken : k.taken = f.body ++ [f.last] := by
      rw [← Frame.chunks, hk.chunks, hrest, List.append_nil]
    cases hpc : w.hello.pc with
    | reading =>
      rw [HelloAt, hpc, htaken] at hat
      exact absurd (hat.1 f.last (by simp) f.last_isMeta) f.last_isLast
    | printing i =>
      rw [HelloAt, hpc, htaken] at hat
      obtain ⟨cs, htaken, -⟩ := hat
      obtain ⟨-, hlast⟩ := List.append_inj' htaken rfl
      exact Or.inr ⟨i, hpc, (List.cons.inj hlast).1 ▸ f.last_isLast⟩
    | done => exact Or.inl hpc
    | fault i =>
      rw [HelloAt, hpc] at hat
      exact hat.elim

theorem Tracks.length_eq (hk : Tracks f k (p, w)) :
    f.chunks.length = k.taken.length + (k.held.length + (pushes k.todo).length) := by
  rw [hk.chunks, List.length_append, List.length_append]

/-- The moves of a ledger are at most two a chunk, and that many when every chunk is taken. -/
theorem Tracks.moves_eq_iff (hk : Tracks f k (p, w)) :
    k.moves ≤ 2 * f.chunks.length ∧
      (k.moves = 2 * f.chunks.length ↔ k.held = [] ∧ pushes k.todo = []) := by
  have hlen := hk.length_eq
  rw [← List.length_eq_zero_iff, ← List.length_eq_zero_iff, Ledger.moves]
  omega

end Tracked

theorem length_pushedFrame (st : Statics) {hdr : Header} (h : hdr.Admitted) :
    (pushedFrame st h).chunks.length = 1 + (hdr.imgSize.toNat + chunkSize - 1) / chunkSize := by
  rw [pushedFrame_chunks, List.length_cons, length_dataChunks,
    toNat_sliceTotal (sliceable_chunkSize h.imgSize_le), Nat.add_comm]

/-- **No stuck state.** In every state of every run of the push phase: until `hello_main` is
finished, the next attempt of one of the tasks would succeed; `hello_main` does not return while the
camera has a chunk to push, and finds a chunk whenever the camera has none left; and the attempts
that succeeded are at most two a chunk, and that many exactly when `hello_main` is finished, which
between two of its attempts is when it has returned. -/
theorem no_stuck_state (o : Oracle) (st : Statics) {hdr : Header} (h : hdr.Admitted)
    (junk : ImageChunk chunkSize) {ls : List (Option Unit)} {p : CamProg Int} {w : World}
    (hrun : run (pipeline o) (pushPhase st hdr, World.start junk) ls = some (p, w)) :
    let successes := countAlong (pipeline o) succeeds (pushPhase st hdr, World.start junk) ls
    let total := 2 * (1 + (hdr.imgSize.toNat + chunkSize - 1) / chunkSize)
    (¬ w.hello.Finished → WriteSucceeds p w ∨ ReadSucceeds w) ∧
      (w.hello.pc = .done → ∀ c, ¬ NextWrite c p) ∧
      (w.hello.pc = .reading → (∀ c, ¬ NextWrite c p) → ReadSucceeds w) ∧
      successes ≤ total ∧ (w.hello.Finished ↔ successes = total) ∧
      (w.hello.pc = .reading ∨ w.hello.pc = .done → (w.hello.pc = .done ↔ successes = total)) := by
  intro successes total
  obtain ⟨k, hk, hmoves⟩ := run_measure (I := Tracks (pushedFrame st h)) (μ := Ledger.moves)
    (p := succeeds) (fun k s l s' hk hs => by
      obtain ⟨k', hk', hmoves, -⟩ := tracks_step hk hs
      exact ⟨k', hk', hmoves⟩) (tracks_start st h junk) hrun
  obtain rfl : p = perform k.todo := hk.program
  have hcount : k.moves = successes := hmoves.trans (Nat.zero_add _)
  have htotal : 2 * (pushedFrame st h).chunks.length = total := by rw [length_pushedFrame st h]
  obtain ⟨hle, heq⟩ := hk.moves_eq_iff
  rw [htotal, hcount] at hle heq
  have hfin : w.hello.Finished ↔ successes = total := hk.finished_iff.trans heq.symm
  have hnext : ¬ w.hello.Finished → WriteSucceeds (perform k.todo) w ∨ ReadSucceeds w := by
    intro hnot
    by_cases hheld : k.held = []
    · exact Or.inl (writeSucceeds_of_pushes hk hheld fun hp =>
        hnot (hk.finished_iff.mpr ⟨hheld, hp⟩))
    · exact Or.inr (readSucceeds_of_held hk hheld)
  have hreading : w.hello.pc = .reading → ¬ w.hello.Finished := by
    rintro hpc (hdone | ⟨i, hprint, -⟩)
    · rw [hpc] at hdone
      cases hdone
    · rw [hpc] at hprint
      cases hprint
  refine ⟨hnext, fun hpc c hc => ?_, fun hpc hnone => ?_, hle, hfin, ?_⟩
  · exact pushes_ne_nil_of_nextWrite hc (hk.finished_iff.mp (Or.inl hpc)).2
  · rcases hnext (hreading hpc) with ⟨c, hc, -⟩ | hread
    · exact absurd hc (hnone c)
    · exact hread
  · rintro (hpc | hpc)
    · refine ⟨fun hdone => ?_, fun hs => absurd (hfin.mpr hs) (hreading hpc)⟩
      rw [hpc] at hdone
      cases hdone
    · exact ⟨fun _ => hfin.mp (Or.inl hpc), fun _ => hpc⟩

/-- An image of 64 data chunks, of zero bytes. -/
def fullRing : Header := ⟨16384, 1⟩

theorem admitted_fullRing : fullRing.Admitted := ⟨by decide, by decide, by decide, by decide⟩

/-- The camera finds the ring full at its last chunk and succeeds after `hello_main` has taken the
metadata chunk; `hello_main` had found the ring empty before. -/
def retriedSchedule : List (Option Unit) :=
  some () :: List.replicate 67 none ++ [some (), none]

/-- Three chunks of which each read was tried once in vain come to six successes; and 64 data chunks
whose last write was tried once in vain have come to 66 of their 130. -/
theorem successes_smallJpeg_fullRing :
    (∃ p w, run (pipeline (scripted []))
        (pushPhase (Statics.jpeg 259) ⟨259, 1⟩, World.start 0) gappedSchedule =
          some (p, w) ∧
      countAlong (pipeline (scripted [])) succeeds
        (pushPhase (Statics.jpeg 259) ⟨259, 1⟩, World.start 0) gappedSchedule = 6) ∧
    ∃ p w, run (pipeline (scripted [])) (pushPhase Statics.zero fullRing, World.start 0)
        retriedSchedule = some (p, w) ∧
      countAlong (pipeline (scripted [])) succeeds
        (pushPhase Statics.zero fullRing, World.start 0) retriedSchedule = 66 ∧
      ¬ w.hello.Finished ∧ (WriteSucceeds p w ∨ ReadSucceeds w) := by
  constructor
  · obtain ⟨p, w, hrun, hpc⟩ := run_gappedSchedule
    obtain ⟨-, -, -, -, -, hdone⟩ :=
      no_stuck_state (scripted []) (Statics.jpeg 259) admitted_smallJpeg 0 hrun
    exact ⟨p, w, hrun, (hdone (Or.inr hpc)).mp hpc⟩
  · have hcount : countAlong (pipeline (scripted [])) succeeds
        (pushPhase Statics.zero fullRing, World.start 0) retriedSchedule = 66 := by
      decide +kernel
    have hsome : (run (pipeline (scripted [])) (pushPhase Statics.zero fullRing, World.start 0)
        retriedSchedule).isSome := by
      decide +kernel
    obtain ⟨⟨p, w⟩, hrun⟩ := Option.isSome_iff_exists.mp hsome
    obtain ⟨hnext, -, -, -, hfinished, -⟩ :=
      no_stuck_state (scripted []) Statics.zero admitted_fullRing 0 hrun
    have hnot : ¬ w.hello.Finished := fun h => by
      have htotal := hfinished.mp h
      rw [hcount] at htotal
      exact absurd htotal (by decide)
    exact ⟨p, w, hrun, hcount, hnot, hnext hnot⟩

end CameraPipeline
