import CameraPipeline.Pipeline.Frame

/-!
# The image reaches `hello_main`

The push phase of the camera is a list of actions: pushes, messages, and the closing of the UART
(`rb_init` is an action too, for sequences of runs; a push phase has none). At every moment of a run
the chunks of the frame are the ones `hello_main` has taken, then the ones the ring holds, then the
ones still to push. This one invariant, with what `hello_main` has printed for the chunks taken, is
kept by every step of either task.

## Main definitions

* `Action`, `perform`: the actions of the push phase, and the program that performs them
* `pushActions st hdr`: the actions of steps 8 and 9
* `Ledger`, `Tracks f k s`: where the chunks of the frame `f` are in the state `s`

## Main results

* `pushPhase_eq`: the push phase performs its actions
* `tracks_step`: every step of either task keeps the ledger
* `pipeline_delivers_image`: what `hello_main` prints, over every interleaving
-/

namespace CameraPipeline

open Data Systems

/-! ## The push phase as a list of actions -/

/-- What the camera does to the ring and the console, and the closing of the UART. -/
inductive Action
  | init
  | push (c : ImageChunk chunkSize)
  | print (text : String)
  | close

/-- The program that performs some actions and returns `0`. -/
def perform : List Action → CamProg Int
  | [] => pure 0
  | .init :: todo => do Prog.once Call.rbInit; perform todo
  | .push c :: todo => do rbPush c; perform todo
  | .print text :: todo => do printf text; perform todo
  | .close :: todo => do closeUart; perform todo

/-- The chunks some actions push. -/
def pushes : List Action → List (ImageChunk chunkSize) :=
  List.filterMap fun
    | .push c => some c
    | _ => none

/-- The message after the last push. -/
def doneMessage (n : UInt32) : String :=
  s!"[CAM] all {(sliceTotal chunkSize n).toNat} chunks pushed — DONE\n"

/-- The actions from the first data chunk on. -/
def dataActions (image : Buf imgBufSize) (n : UInt32) : List Action :=
  (dataChunks chunkSize image n).map .push ++ [.print (doneMessage n), .close]

/-- The actions of steps 8 and 9. -/
def pushActions (st : Statics) (hdr : Header) : List Action :=
  [.push (metaChunk st.metaBuf hdr.metaLen), .print "[CAM] meta chunk pushed\n",
    .print s!"[CAM] pushing {(sliceTotal chunkSize hdr.imgSize).toNat} JPEG chunks...\n"] ++
      dataActions st.imageBuf hdr.imgSize

theorem perform_init (todo : List Action) :
    perform (.init :: todo) = .call .rbInit (fun _ => false) fun _ => perform todo := rfl

theorem perform_push (c : ImageChunk chunkSize) (todo : List Action) :
    perform (.push c :: todo) = .call (.rbWrite c) (fun r => r != 0) fun _ => perform todo := rfl

theorem perform_print (text : String) (todo : List Action) :
    perform (.print text :: todo) = .call (.printf text) (fun _ => false) fun _ => perform todo :=
  rfl

theorem perform_close (todo : List Action) :
    perform (.close :: todo) = .call .close (fun _ => false) fun _ => perform todo := rfl

/-- The slicing loop pushes the chunks it has left. -/
theorem pushDataFrom_eq (image : Buf imgBufSize) {n : UInt32} (hn : n.toNat ≤ imgBufSize)
    (todo : List Action) (k : ℕ) (ci : UInt32)
    (hk : ci.toNat + k = (sliceTotal chunkSize n).toNat) :
    (do pushDataFrom image n k ci; perform todo) =
      perform ((List.range' ci.toNat k).map
        (fun i => .push (sliceChunk chunkSize image n (.ofNat i))) ++ todo) := by
  have hs := sliceable_chunkSize hn
  induction k generalizing ci with
  | zero => rfl
  | succ k ih =>
    have hi : ci.toNat < (sliceTotal chunkSize n).toNat := by omega
    have hlt := mul_lt_of_lt_total hs hi
    have hoff := toNat_sliceOff hs hi
    have hlen := toNat_sliceLen hs hi
    have hnext := toNat_succ_of_lt_total hi
    rw [pushDataFrom, pushDataChunk, inRange_of_le (by omega), inRange_of_le (by omega),
      List.range'_succ, List.map_cons, List.cons_append, perform, ← hnext, ← ih (ci + 1) (by omega),
      UInt32.ofNat_toNat]
    rfl

/-- **The push phase performs its actions.** -/
theorem pushPhase_eq (st : Statics) {hdr : Header} (h : hdr.Admitted) :
    pushPhase st hdr = perform (pushActions st hdr) := by
  have hmeta : metaBufSize ≤ chunkSize := by decide
  have hlt := h.metaLen_lt
  have hdata := pushDataFrom_eq st.imageBuf h.imgSize_le
    [.print (doneMessage hdr.imgSize), .close] (sliceTotal chunkSize hdr.imgSize).toNat 0 (by simp)
  have hchunks : (List.range' (0 : UInt32).toNat (sliceTotal chunkSize hdr.imgSize).toNat).map
      (fun i => Action.push (sliceChunk chunkSize st.imageBuf hdr.imgSize (.ofNat i))) =
        (dataChunks chunkSize st.imageBuf hdr.imgSize).map .push := by
    rw [dataChunks, List.map_map, UInt32.toNat_zero, ← List.range_eq_range']
    rfl
  rw [hchunks] at hdata
  rw [pushPhase, pushMetaChunk, inRange_of_le (by omega), inRange_of_le (by omega), pushDataChunks,
    pushActions, dataActions, List.cons_append, List.cons_append, List.cons_append, List.nil_append,
    perform, perform, perform, ← hdata]
  simp only [bind_assoc]
  rfl

/-! ## The ledger -/

/-- Where the chunks of a frame are: taken by `hello_main`, held by the ring, or among the actions
the camera has left. -/
structure Ledger where
  taken : List (ImageChunk chunkSize)
  held : List (ImageChunk chunkSize)
  todo : List Action

/-- The ring operations that succeeded: a push and a read for each chunk taken, a push for each
chunk held. -/
def Ledger.moves (k : Ledger) : ℕ := 2 * k.taken.length + k.held.length

/-- **The ledger `k` of the frame `f` is right in a state.** -/
structure Tracks (f : Frame) (k : Ledger) (s : CamProg Int × World) : Prop where
  program : s.1 = perform k.todo
  no_init : .init ∉ k.todo
  ring : Represents s.2.ring k.held
  chunks : f.chunks = k.taken ++ (k.held ++ pushes k.todo)
  hello : HelloAt k.taken s.2.hello (helloOut s.2.console)

/-- The step is an attempt on the ring, and succeeds. -/
def succeeds (s : CamProg Int × World) : Option Unit → Bool
  | none =>
    match s.1 with
    | .call (.rbWrite c) _ _ => (rbWrite s.2.ring (some c)).2 = 0
    | _ => false
  | some () =>
    match s.2.hello.pc with
    | .reading => (rbRead s.2.ring (some s.2.hello.chunk)).2.1 = 0
    | _ => false

theorem succeeds_of_not_reading {s : CamProg Int × World} (h : s.2.hello.pc ≠ .reading)
    (u : Unit) : succeeds s (some u) = false := by
  unfold succeeds
  split
  · cases ‹some u = none›
  · split
    · exact absurd ‹_› h
    · rfl

/-- **Everything a step of the camera does**, when the ring holds `q`: an attempt on a full ring, a
push, a message, the closing of the UART, or the initialisation of the ring. -/
theorem performStep_cases {o : Oracle} {todo : List Action} {w : World}
    {q : List (ImageChunk chunkSize)} {s : CamProg Int × World} (hq : Represents w.ring q)
    (h : Prog.step (handle o) (perform todo, w) = some s) :
    (∃ c todo', todo = .push c :: todo' ∧ ¬ q.length < rbDepth ∧ (w.attempted c).ring = w.ring ∧
      s = (perform todo, w.attempted c)) ∨
    (∃ c todo', todo = .push c :: todo' ∧ q.length < rbDepth ∧
      Represents (w.attempted c).ring (q ++ [c]) ∧ s = (perform todo', w.attempted c)) ∨
    (∃ text todo', todo = .print text :: todo' ∧ s = (perform todo', w.printed text)) ∨
    (∃ todo' log, todo = .close :: todo' ∧ s = (perform todo', { w with log := log })) ∨
    (∃ todo' log, todo = .init :: todo' ∧
      s = (perform todo', { w with ring := rbInit, log := log })) := by
  cases todo with
  | nil => exact absurd h (by simp [perform, Prog.step])
  | cons a todo =>
    cases a with
    | init =>
      rw [perform_init] at h
      obtain ⟨r, w', hr, rfl⟩ := Prog.step_call_eq_some.mp h
      obtain ⟨-, rfl⟩ := handle_eq_some hr
      exact Or.inr (Or.inr (Or.inr (Or.inr ⟨todo, _, rfl, rfl⟩)))
    | push c =>
      rw [perform_push] at h
      obtain ⟨r, w', hr, rfl⟩ := Prog.step_call_eq_some.mp h
      obtain ⟨rfl, rfl⟩ := Prod.mk.inj (Option.some.inj ((handle_rbWrite o w c).symm.trans hr))
      have hret := rbWrite_ret hq c
      by_cases hlt : q.length < rbDepth
      · rw [if_pos hlt] at hret
        have hrep := hq.write (Or.inl (by decide)) (by decide) hlt c
        refine Or.inr (Or.inl ⟨c, todo, rfl, hlt, hrep, ?_⟩)
        rw [hret]
        rfl
      · rw [if_neg hlt] at hret
        refine Or.inl ⟨c, todo, rfl, hlt, congrArg Prod.fst (rbWrite_full hq hlt c), ?_⟩
        rw [hret]
        rfl
    | print text =>
      rw [perform_print] at h
      obtain ⟨r, w', hr, rfl⟩ := Prog.step_call_eq_some.mp h
      obtain ⟨-, rfl⟩ := Prod.mk.inj (Option.some.inj ((handle_printf o w text).symm.trans hr))
      exact Or.inr (Or.inr (Or.inl ⟨text, todo, rfl, rfl⟩))
    | close =>
      rw [perform_close] at h
      obtain ⟨r, w', hr, rfl⟩ := Prog.step_call_eq_some.mp h
      obtain ⟨-, rfl⟩ := handle_eq_some hr
      exact Or.inr (Or.inr (Or.inr (Or.inl ⟨todo, _, rfl, rfl⟩)))

/-- The console after a step: unchanged, or with the next message of the camera, or with text of
`hello_main`. -/
def ConsoleStep (k k' : Ledger) (l : Option Unit) (w w' : World) : Prop :=
  w'.console = w.console ∨
  (∃ text, l = none ∧ k.todo = .print text :: k'.todo ∧
    w'.console = w.console ++ [(.camera, text.toList)]) ∨
  ∃ text, w.hello.pc ≠ .done ∧ w'.console = w.console ++ [(.hello, text)]

/-- **Every step of either task keeps the ledger.** -/
theorem tracks_step {o : Oracle} {f : Frame} {k : Ledger} {s s' : CamProg Int × World}
    {l : Option Unit} (hk : Tracks f k s) (h : pipeline o s l = some s') :
    ∃ k', Tracks f k' s' ∧ k'.moves = k.moves + (succeeds s l).toNat ∧ k'.todo <:+ k.todo ∧
      ConsoleStep k k' l s.2 s'.2 := by
  obtain ⟨p, w⟩ := s
  obtain ⟨taken, held, todo⟩ := k
  obtain ⟨hprog, hinit, hring, hchunks, hhello⟩ := hk
  obtain rfl : p = perform todo := hprog
  dsimp only at hinit hring hchunks hhello
  cases l with
  | none =>
    rcases performStep_cases hring h with ⟨c, todo', rfl, hfull, hsame, rfl⟩ |
      ⟨c, todo', rfl, hlt, hrep, rfl⟩ | ⟨text, todo', rfl, rfl⟩ | ⟨todo', log, rfl, rfl⟩ |
      ⟨todo', log, rfl, rfl⟩
    · refine ⟨⟨taken, held, _⟩, ⟨rfl, hinit, hsame ▸ hring, hchunks, hhello⟩, ?_, List.suffix_rfl,
        Or.inl rfl⟩
      have hret := rbWrite_ret hring c
      rw [if_neg hfull] at hret
      simp [succeeds, perform_push, hret]
    · refine ⟨⟨taken, held ++ [c], todo'⟩,
        ⟨rfl, List.not_mem_of_not_mem_cons hinit, hrep, ?_, hhello⟩, ?_, List.suffix_cons _ _,
        Or.inl rfl⟩
      · simpa [pushes] using hchunks
      · have hret := rbWrite_ret hring c
        rw [if_pos hlt] at hret
        simp [succeeds, perform_push, hret, Ledger.moves]
        omega
    · refine ⟨⟨taken, held, todo'⟩, ⟨rfl, List.not_mem_of_not_mem_cons hinit, hring, ?_, ?_⟩, rfl,
        List.suffix_cons _ _, Or.inr (Or.inl ⟨text, rfl, rfl, rfl⟩)⟩
      · simpa [pushes] using hchunks
      · simpa [World.printed] using hhello
    · refine ⟨⟨taken, held, todo'⟩,
        ⟨rfl, List.not_mem_of_not_mem_cons hinit, hring, ?_, hhello⟩, rfl, List.suffix_cons _ _,
        Or.inl rfl⟩
      simpa [pushes] using hchunks
    · exact absurd List.mem_cons_self hinit
  | some u =>
    obtain ⟨w', hw', rfl⟩ := Prog.sched_some_eq_some.mp h
    replace hw' : helloStep w = some w' := hw'
    have hlen : ∀ c ∈ taken, c.len.toNat ≤ chunkSize := by
      refine fun c hc => f.len_le c ?_
      rw [← Frame.chunks, hchunks]
      exact List.mem_append_left _ hc
    have hdone : w.hello.pc ≠ .done := fun hpc => by simp [helloStep_done hpc] at hw'
    rcases helloStep_cases hring hhello hlen hw' with ⟨hpc, rfl, rfl⟩ |
      ⟨x, held', hpc, rfl, hrep, hcon, -, hat⟩ | ⟨text, hpc, hsame, hcon, -, hat⟩ |
      ⟨hpc, hsame, hcon, -, hat⟩
    · refine ⟨⟨taken, [], todo⟩, ⟨rfl, hinit, hring, hchunks, hhello⟩, ?_, List.suffix_rfl,
        Or.inl rfl⟩
      simp [succeeds, hpc, rbRead_empty hring]
    · refine ⟨⟨taken ++ [x], held', todo⟩, ⟨rfl, hinit, hrep, ?_, ?_⟩, ?_, List.suffix_rfl,
        Or.inl hcon⟩
      · simpa using hchunks
      · rw [hcon]
        exact hat
      · simp [succeeds, hpc, (hring.read (Or.inl (by decide)) _).1, Ledger.moves]
        omega
    · refine ⟨⟨taken, held, todo⟩, ⟨rfl, hinit, hsame ▸ hring, hchunks, ?_⟩, ?_, List.suffix_rfl,
        Or.inr (Or.inr ⟨text, hdone, hcon⟩)⟩
      · rw [hcon, helloOut_hello]
        exact hat
      · rw [succeeds_of_not_reading hpc]
        rfl
    · refine ⟨⟨taken, held, todo⟩, ⟨rfl, hinit, hsame ▸ hring, hchunks, ?_⟩, ?_, List.suffix_rfl,
        Or.inl hcon⟩
      · rw [hcon]
        exact hat
      · rw [succeeds_of_not_reading hpc]
        rfl

/-! ## Runs of the push phase -/

theorem pushes_append (todo todo' : List Action) :
    pushes (todo ++ todo') = pushes todo ++ pushes todo' := List.filterMap_append

theorem pushes_dataActions (image : Buf imgBufSize) (n : UInt32) :
    pushes (dataActions image n) = dataChunks chunkSize image n := by
  rw [dataActions, pushes_append]
  simp [pushes, List.filterMap_map]

theorem pushes_pushActions (st : Statics) {hdr : Header} (h : hdr.Admitted) :
    pushes (pushActions st hdr) = (pushedFrame st h).chunks := by
  rw [pushedFrame_chunks, ← pushes_dataActions]
  rfl

theorem init_not_mem_pushActions (st : Statics) (hdr : Header) : .init ∉ pushActions st hdr := by
  simp [pushActions, dataActions]

theorem tracks_start (st : Statics) {hdr : Header} (h : hdr.Admitted)
    (junk : ImageChunk chunkSize) :
    Tracks (pushedFrame st h) ⟨[], [], pushActions st hdr⟩
      (pushPhase st hdr, World.start junk) where
  program := pushPhase_eq st h
  no_init := init_not_mem_pushActions st hdr
  ring := represents_rbInit
  chunks := (pushes_pushActions st h).symm
  hello := helloAt_start junk

/-- A camera with nothing left to push leaves the ring alone. -/
theorem all_perform {todo : List Action} (hinit : .init ∉ todo) (h : pushes todo = []) :
    Prog.All (fun c _ => c.Ringless) (fun _ => True) (perform todo) := by
  induction todo with
  | nil => exact Prog.All.ret trivial
  | cons a todo ih =>
    have ih := ih (List.not_mem_of_not_mem_cons hinit)
    cases a with
    | init => exact absurd List.mem_cons_self hinit
    | push c => cases h
    | print text => exact Prog.All.call trivial fun _ => ih h
    | close => exact Prog.All.call trivial fun _ => ih h

section Runs

variable {o : Oracle} {st : Statics} {hdr : Header} {junk : ImageChunk chunkSize}
  {ls : List (Option Unit)} {p : CamProg Int} {w : World}

theorem tracks_run (h : hdr.Admitted)
    (hrun : run (pipeline o) (pushPhase st hdr, World.start junk) ls = some (p, w)) :
    ∃ k, Tracks (pushedFrame st h) k (p, w) := by
  refine run_invariant (I := fun s => ∃ k, Tracks (pushedFrame st h) k s) ?_
    ⟨_, tracks_start st h junk⟩ hrun
  rintro s l s' ⟨k, hk⟩ hs
  obtain ⟨k', hk', -⟩ := tracks_step hk hs
  exact ⟨k', hk'⟩

end Runs

/-- **The image reaches the console.** For every admitted header, image and metadata, and over
every interleaving of the two tasks: what `hello_main` has printed is a beginning of the image's hex
line; when it has left its loop it has printed that line, which reads back as the image, the camera
makes no further ring call, and the ring is empty. -/
theorem pipeline_delivers_image (o : Oracle) (st : Statics) {hdr : Header} (h : hdr.Admitted)
    (junk : ImageChunk chunkSize) {ls : List (Option Unit)} {p : CamProg Int} {w : World}
    (hrun : run (pipeline o) (pushPhase st hdr, World.start junk) ls = some (p, w)) :
    let image := st.imageBuf.slice 0 hdr.imgSize.toNat
    helloOut w.console <+: hex image ++ ['\n'] ∧
      (w.hello.pc = .done → helloOut w.console = hex image ++ ['\n'] ∧
        unhex (helloOut w.console).dropLast = some image ∧
        Prog.All (fun c _ => c.Ringless) (fun _ => True) p ∧ rbEmpty w.ring = 1) := by
  intro image
  obtain ⟨k, hk⟩ := tracks_run h hrun
  have himage : (pushedFrame st h).image = image := pushedFrame_image st h
  refine ⟨himage ▸ hk.hello.out_isPrefix hk.chunks, fun hpc => ?_⟩
  obtain ⟨hrest, -, hout⟩ := hk.hello.done_eq hk.chunks hpc
  obtain ⟨hheld, hpushes⟩ := List.append_eq_nil_iff.mp hrest
  rw [himage] at hout
  refine ⟨hout, ?_, ?_, ?_⟩
  · rw [hout, List.dropLast_concat, unhex_hex]
  · obtain rfl : p = perform k.todo := hk.program
    exact all_perform hk.no_init hpushes
  · rw [rbEmpty_eq hk.ring, hheld]
    rfl

/-- An image of 259 bytes, between the markers of a JPEG. Its data chunks are two. -/
def smallJpeg : List UInt8 := [0xFF, 0xD8, 0xFF] ++ List.replicate 254 0 ++ [0xFF, 0xD9]

theorem slice_smallJpeg :
    (Statics.jpeg 259).imageBuf.slice 0 (259 : UInt32).toNat = smallJpeg := by
  decide +kernel

theorem admitted_smallJpeg : Header.Admitted ⟨259, 1⟩ :=
  ⟨by decide, by decide, by decide, by decide⟩

/-- Each of the three chunks is pushed after an attempt of `hello_main` to read it, and printed
before the next one is pushed. -/
def gappedSchedule : List (Option Unit) :=
  [some (), none, some (), some (), none, none, none] ++ List.replicate 259 (some ()) ++
    none :: List.replicate 5 (some ())

theorem run_gappedSchedule :
    ∃ p w, run (pipeline (scripted []))
      (pushPhase (Statics.jpeg 259) ⟨259, 1⟩, World.start 0) gappedSchedule =
        some (p, w) ∧ w.hello.pc = .done := by
  have hpc : (run (pipeline (scripted []))
      (pushPhase (Statics.jpeg 259) ⟨259, 1⟩, World.start 0) gappedSchedule).map
        (fun s => s.2.hello.pc) = some .done := by
    decide +kernel
  obtain ⟨⟨p, w⟩, hrun, hdone⟩ := Option.map_eq_some_iff.mp hpc
  exact ⟨p, w, hrun, hdone⟩

theorem pipeline_delivers_smallJpeg :
    ∃ p w, run (pipeline (scripted []))
        (pushPhase (Statics.jpeg 259) ⟨259, 1⟩, World.start 0) gappedSchedule =
          some (p, w) ∧
      helloOut w.console = hex smallJpeg ++ ['\n'] := by
  obtain ⟨p, w, hrun, hpc⟩ := run_gappedSchedule
  have himage :=
    pipeline_delivers_image (scripted []) (Statics.jpeg 259) admitted_smallJpeg 0 hrun
  exact ⟨p, w, hrun, (himage.2 hpc).1.trans
    (congrArg (fun image => hex image ++ ['\n']) slice_smallJpeg)⟩

end CameraPipeline
