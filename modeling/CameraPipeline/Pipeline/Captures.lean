import CameraPipeline.Pipeline.Console

/-!
# Repeated captures

Camera runs one after another, each of which begins with `rb_init`, and runs of `hello_main` one
after another. `rb_init` drops what the ring holds. When it comes between two frames of the
consumer, the consumer goes on with the new frame from its start; when the consumer is inside a
frame, it goes on in the middle of its line. Nothing checks `frame_id`, which is always `1`.

## Main definitions

* `captureRuns`: camera runs in sequence, each failing before it pushes or pushing its frame
* `helloRuns`: runs of `hello_main` in sequence
* `InitBetweenFrames`: the condition on a step that it does not initialise the ring while
  `hello_main` is inside a frame
* `FrameLedger`, `TracksFrames`: where the chunks of the current frame are, and what was printed

## Main results

* `tracksFrames_step`: the steps that meet the condition keep the ledger
* `lines_are_frames`: then every completed line is the image of one camera run
* `frames_mixed`: a run in which one is not
-/

namespace CameraPipeline

open Data Systems

/-! ## The two sequences of runs -/

/-- What a camera run comes to: nothing when it fails before it pushes, or the buffers and the
header it enters its push phase with. -/
abbrev Capture := Option (Statics × Header)

/-- What is left of a camera run after `rb_init`, as far as the ring sees it. -/
def Capture.push : Capture → CamProg Int
  | none => pure (-1)
  | some (st, hdr) => pushPhase st hdr

/-- A camera run without the calls between `rb_init` and its push phase, none of which reaches the
ring: `rb_init` alone, or `rb_init` and then the push phase. -/
def captureRun (c : Capture) : CamProg Int := do
  Prog.once Call.rbInit
  c.push

/-- Camera runs in sequence. -/
def captureRuns : List Capture → CamProg Int
  | [] => pure 0
  | c :: cs => do
    let _ ← captureRun c
    captureRuns cs

/-- Runs of `hello_main` in sequence: a move of the current run, or the start of the next one, with
whatever its local chunk holds, when the current one has returned. -/
def helloRuns (w : World) : Option (ImageChunk chunkSize) → Option World
  | none => helloStep w
  | some junk =>
    match w.hello.pc with
    | .done => some { w with hello := Hello.start junk }
    | _ => none

/-- The two sequences of runs, interleaved. -/
abbrev pipelineRuns (o : Oracle) :
    CamProg Int × World → Option (Option (ImageChunk chunkSize)) → Option (CamProg Int × World) :=
  Prog.sched (handle o) helloRuns

/-- `hello_main` is between two frames: it is not printing, and its current line is empty. -/
def BetweenFrames (w : World) : Prop :=
  (∀ i, w.hello.pc ≠ .printing i) ∧ WholeLines (helloOut w.console)

/-- The step does not initialise the ring while `hello_main` is inside a frame. -/
def InitBetweenFrames (s : CamProg Int × World)
    (l : Option (Option (ImageChunk chunkSize))) : Prop :=
  l = none → (∃ again k, s.1 = .call .rbInit again k) → BetweenFrames s.2

/-- Every capture that pushes does so with an admitted header. -/
def AllAdmitted (captures : List Capture) : Prop :=
  ∀ st hdr, some (st, hdr) ∈ captures → hdr.Admitted

/-- The images the captures push. -/
def images (captures : List Capture) : List (List UInt8) :=
  captures.filterMap fun c => c.map fun r => r.1.imageBuf.slice 0 r.2.imgSize.toNat

/-! ## Captures as actions -/

/-- The actions of a capture after `rb_init`. -/
def Capture.actions : Capture → List Action
  | none => []
  | some (st, hdr) => pushActions st hdr

/-- The actions of captures in sequence. -/
def captureActions (captures : List Capture) : List Action :=
  captures.flatMap fun c => .init :: c.actions

theorem perform_append (todo todo' : List Action) :
    perform (todo ++ todo') = perform todo >>= fun _ => perform todo' := by
  induction todo with
  | nil => rfl
  | cons a todo ih =>
    cases a <;> simp only [List.cons_append, perform, ih, bind_assoc]

theorem captureActions_cons (c : Capture) (captures : List Capture) :
    captureActions (c :: captures) = (.init :: c.actions) ++ captureActions captures :=
  List.flatMap_cons

theorem captureRuns_eq {captures : List Capture} (h : AllAdmitted captures) :
    captureRuns captures = perform (captureActions captures) := by
  induction captures with
  | nil => rfl
  | cons c captures ih =>
    have ih := ih fun st hdr hc => h st hdr (List.mem_cons_of_mem _ hc)
    rw [captureActions_cons, perform_append, ← ih]
    cases c with
    | none => rfl
    | some c =>
      obtain ⟨st, hdr⟩ := c
      have hpush := pushPhase_eq st (h st hdr List.mem_cons_self)
      simp only [captureRuns, captureRun, Capture.push, hpush]
      rfl

/-! ## The ledger of the current frame -/

/-- Where the chunks of the current frame are, the captures to come, the images printed, and the
text of the current line. -/
structure FrameLedger where
  taken : List (ImageChunk chunkSize)
  held : List (ImageChunk chunkSize)
  todo : List Action
  later : List Capture
  printed : List (List UInt8)
  line : List Char

/-- The chunks of the current frame that `hello_main` has not taken. -/
def FrameLedger.pending (k : FrameLedger) : List (ImageChunk chunkSize) := k.held ++ pushes k.todo

/-- `hello_main` in or before a frame of which it has taken some chunks: inside a run, or returned
with nothing taken. -/
def InRun (taken : List (ImageChunk chunkSize)) (hello : Hello) (line : List Char) : Prop :=
  (hello.pc ≠ .done ∧ HelloAt taken hello line) ∨ (hello.pc = .done ∧ taken = [] ∧ line = [])

/-- The chunks taken and pending are a frame carrying one of the images, or there are none. -/
def OfFrame (ims : List (List UInt8)) (taken pending : List (ImageChunk chunkSize)) : Prop :=
  (taken = [] ∧ pending = []) ∨ ∃ f : Frame, f.chunks = taken ++ pending ∧ f.image ∈ ims

/-- The ledger `k` fits a state, `hello_main` apart, where `ims` are the images of all captures. -/
structure LedgerFits (ims : List (List UInt8)) (k : FrameLedger) (s : CamProg Int × World) :
    Prop where
  program : s.1 = perform (k.todo ++ captureActions k.later)
  no_init : .init ∉ k.todo
  later_admitted : AllAdmitted k.later
  later_images : ∀ im ∈ images k.later, im ∈ ims
  ring : Represents s.2.ring k.held
  frame : OfFrame ims k.taken k.pending
  out : helloOut s.2.console = k.printed.flatMap (fun im => hex im ++ ['\n']) ++ k.line
  printed_images : ∀ im ∈ k.printed, im ∈ ims

/-- **The ledger `k` is right in a state.** -/
def TracksFrames (ims : List (List UInt8)) (k : FrameLedger) (s : CamProg Int × World) : Prop :=
  LedgerFits ims k s ∧ InRun k.taken s.2.hello k.line

/-! ## Steps -/

theorem head_captureActions {todo rest : List Action} {later : List Capture} {a : Action}
    (h : todo ++ captureActions later = a :: rest) (ha : a ≠ .init) :
    ∃ todo', todo = a :: todo' ∧ rest = todo' ++ captureActions later := by
  cases todo with
  | nil =>
    cases later with
    | nil => cases h
    | cons c later =>
      rw [List.nil_append, captureActions_cons] at h
      exact absurd (List.cons.inj h).1.symm ha
  | cons b todo =>
    obtain ⟨rfl, rfl⟩ := List.cons.inj h
    exact ⟨todo, rfl, rfl⟩

theorem init_captureActions {todo rest : List Action} {later : List Capture}
    (h : todo ++ captureActions later = .init :: rest) (hinit : .init ∉ todo) :
    todo = [] ∧ ∃ c later', later = c :: later' ∧ rest = c.actions ++ captureActions later' := by
  cases todo with
  | nil =>
    cases later with
    | nil => cases h
    | cons c later =>
      rw [List.nil_append, captureActions_cons] at h
      exact ⟨rfl, c, later, rfl, (List.cons.inj h).2.symm⟩
  | cons b todo =>
    obtain ⟨rfl, -⟩ := List.cons.inj h
    exact absurd List.mem_cons_self hinit

section Step

variable {o : Oracle} {ims : List (List UInt8)} {k : FrameLedger} {p : CamProg Int}
  {w : World}

theorem LedgerFits.len_le {s : CamProg Int × World} (hk : LedgerFits ims k s) :
    ∀ c ∈ k.taken, c.len.toNat ≤ chunkSize := by
  intro c hc
  rcases hk.frame with ⟨htaken, -⟩ | ⟨f, hf, -⟩
  · rw [htaken] at hc
    cases hc
  · refine f.len_le c ?_
    rw [← Frame.chunks, hf]
    exact List.mem_append_left _ hc

/-- A frame printed to its end is entered among the images printed. -/
theorem LedgerFits.settle (hk : LedgerFits ims k (p, w)) (hat : HelloAt k.taken w.hello k.line) :
    ∃ k', TracksFrames ims k' (p, w) := by
  by_cases hpc : w.hello.pc = .done
  · rcases hk.frame with ⟨htaken, -⟩ | ⟨f, hf, him⟩
    · rw [HelloAt, hpc, htaken] at hat
      obtain ⟨cs, hcs, -⟩ := hat
      exact absurd hcs.symm (by simp)
    · obtain ⟨hpending, -, hline⟩ := hat.done_eq hf hpc
      refine ⟨{ k with taken := [], printed := k.printed ++ [f.image], line := [] },
        { hk with
          frame := Or.inl ⟨rfl, hpending⟩
          out := by rw [hk.out, hline]; simp
          printed_images := fun im himp => ?_ }, Or.inr ⟨hpc, rfl, rfl⟩⟩
      rcases List.mem_append.mp himp with h | h
      · exact hk.printed_images im h
      · rw [List.mem_singleton.mp h]
        exact him
  · exact ⟨k, hk, Or.inl ⟨hpc, hat⟩⟩

/-- Between two frames, the chunks taken so far are none of a new frame. -/
theorem TracksFrames.between (hk : TracksFrames ims k (p, w)) (hb : BetweenFrames w) :
    k.line = [] ∧ InRun [] w.hello [] := by
  rcases hk.2 with ⟨hpc, hat⟩ | ⟨hpc, -, hline⟩
  · have hnl := hat.newline_not_mem hpc
    have hline : k.line = [] := by
      rcases List.eq_nil_or_concat k.line with hnil | ⟨front, c, hc⟩
      · exact hnil
      · rw [List.concat_eq_append] at hc
        have hwhole : WholeLines (helloOut w.console) := hb.2
        rw [hk.1.out, hc, ← List.append_assoc] at hwhole
        rcases hwhole with hnil | ⟨t, ht⟩
        · simp at hnil
        · obtain ⟨-, hlast⟩ := List.append_inj' ht rfl
          rw [hc, (List.cons.inj hlast).1] at hnl
          exact absurd (by simp) hnl
    cases hpc' : w.hello.pc with
    | reading =>
      refine ⟨hline, Or.inl ⟨hpc, ?_⟩⟩
      rw [HelloAt, hpc']
      exact ⟨fun _ h => absurd h List.not_mem_nil, rfl⟩
    | printing i => exact absurd hpc' (hb.1 i)
    | done => exact absurd hpc' hpc
    | fault i =>
      rw [HelloAt, hpc'] at hat
      exact hat.elim
  · exact ⟨hline, Or.inr ⟨hpc, rfl, rfl⟩⟩

theorem images_cons_some (st : Statics) (hdr : Header) (later : List Capture) :
    images (some (st, hdr) :: later) =
      st.imageBuf.slice 0 hdr.imgSize.toNat :: images later := rfl

/-- A new capture after `rb_init`. -/
theorem LedgerFits.begin {c : Capture} {later : List Capture} {log : List Event}
    (hk : LedgerFits ims k (p, w)) (hline : k.line = []) (hlater : k.later = c :: later) :
    LedgerFits ims ⟨[], [], c.actions, later, k.printed, []⟩
      (perform (c.actions ++ captureActions later), { w with ring := rbInit, log := log }) := by
  have hadmitted := hlater ▸ hk.later_admitted
  have himages := hlater ▸ hk.later_images
  have hframe : Action.init ∉ c.actions ∧ OfFrame ims [] (pushes c.actions) := by
    cases c with
    | none => exact ⟨List.not_mem_nil, Or.inl ⟨rfl, rfl⟩⟩
    | some c =>
      obtain ⟨st, hdr⟩ := c
      have hadm := hadmitted st hdr List.mem_cons_self
      refine ⟨init_not_mem_pushActions st hdr, Or.inr ⟨pushedFrame st hadm, ?_, ?_⟩⟩
      · rw [List.nil_append, ← pushes_pushActions st hadm]
        rfl
      · rw [pushedFrame_image]
        exact himages _ (images_cons_some st hdr later ▸ List.mem_cons_self)
  exact
    { program := rfl
      no_init := hframe.1
      later_admitted := fun st hdr hc => hadmitted st hdr (List.mem_cons_of_mem _ hc)
      later_images := fun im him => himages im (by
        cases c with
        | none => exact him
        | some c => exact List.mem_cons_of_mem _ him)
      ring := represents_rbInit
      frame := hframe.2
      out := by
        have hout := hk.out
        rw [hline] at hout
        exact hout
      printed_images := hk.printed_images }

/-- The camera goes on past an action that pushes nothing. -/
theorem LedgerFits.advance (hk : LedgerFits ims k (p, w)) {a : Action} {todo : List Action}
    (htodo : k.todo = a :: todo) (ha : pushes [a] = []) {w' : World} (hring : w'.ring = w.ring)
    (hout : helloOut w'.console = helloOut w.console) :
    LedgerFits ims { k with todo := todo } (perform (todo ++ captureActions k.later), w') := by
  have hframe := hk.frame
  rw [FrameLedger.pending, htodo, ← List.singleton_append, pushes_append, ha,
    List.nil_append] at hframe
  exact
    { hk with
      program := rfl
      no_init := fun hi => hk.no_init (htodo ▸ List.mem_cons_of_mem _ hi)
      ring := hring ▸ hk.ring
      frame := hframe
      out := hout.trans hk.out }

/-- The camera's steps. -/
theorem tracksFrames_camera {s' : CamProg Int × World} (hk : TracksFrames ims k (p, w))
    (hcond : InitBetweenFrames (p, w) none) (h : Prog.step (handle o) (p, w) = some s') :
    ∃ k', TracksFrames ims k' s' := by
  obtain ⟨hfits, hrun⟩ := hk
  obtain rfl : p = perform (k.todo ++ captureActions k.later) := hfits.program
  have hframe := hfits.frame
  rcases performStep_cases hfits.ring h with ⟨c, rest, htodo, hfull, hsame, rfl⟩ |
    ⟨c, rest, htodo, hlt, hrep, rfl⟩ | ⟨text, rest, htodo, rfl⟩ | ⟨rest, log, htodo, rfl⟩ |
    ⟨rest, log, htodo, rfl⟩
  · exact ⟨k, { hfits with ring := hsame ▸ hfits.ring }, hrun⟩
  · obtain ⟨todo', htodo', rfl⟩ := head_captureActions htodo (by simp)
    refine ⟨{ k with held := k.held ++ [c], todo := todo' }, { hfits with
      program := rfl
      no_init := fun hi => hfits.no_init (htodo' ▸ List.mem_cons_of_mem _ hi)
      ring := hrep
      frame := ?_ }, hrun⟩
    rw [FrameLedger.pending, htodo'] at hframe
    simpa [FrameLedger.pending, pushes] using hframe
  · obtain ⟨todo', htodo', rfl⟩ := head_captureActions htodo (by simp)
    have hprinted : helloOut (w.printed text).console = helloOut w.console := by
      simp [World.printed]
    exact ⟨_, hfits.advance htodo' rfl rfl hprinted, hrun⟩
  · obtain ⟨todo', htodo', rfl⟩ := head_captureActions htodo (by simp)
    exact ⟨_, hfits.advance htodo' rfl rfl rfl, hrun⟩
  · obtain ⟨-, c, later, hlater, rfl⟩ := init_captureActions htodo hfits.no_init
    have hb : BetweenFrames w := hcond rfl ⟨fun _ => false, _, by rw [htodo, perform_init]⟩
    obtain ⟨hline, hin⟩ := TracksFrames.between ⟨hfits, hrun⟩ hb
    exact ⟨_, hfits.begin hline hlater, hin⟩

/-- The moves of `hello_main`. -/
theorem tracksFrames_hello {w' : World} (hk : TracksFrames ims k (p, w))
    (h : helloStep w = some w') : ∃ k', TracksFrames ims k' (p, w') := by
  obtain ⟨hfits, ⟨-, hat⟩ | ⟨hpc, -⟩⟩ := hk
  · have hout := hfits.out
    have hframe := hfits.frame
    rcases helloStep_cases hfits.ring hat hfits.len_le h with ⟨-, -, rfl⟩ |
      ⟨x, held', -, hheld, hrep, hcon, -, hat'⟩ | ⟨text, -, hsame, hcon, -, hat'⟩ |
      ⟨-, hsame, hcon, -, hat'⟩
    · exact hfits.settle hat
    · have hpending : k.pending = x :: (held' ++ pushes k.todo) := by
        rw [FrameLedger.pending, hheld, List.cons_append]
      refine LedgerFits.settle (k := { k with taken := k.taken ++ [x], held := held' })
        { hfits with ring := hrep, frame := ?_, out := by rw [← hout, ← hcon] } hat'
      rcases hframe with ⟨-, hnil⟩ | ⟨f, hf, him⟩
      · rw [hpending] at hnil
        cases hnil
      · refine Or.inr ⟨f, ?_, him⟩
        rw [hf, hpending]
        simp [FrameLedger.pending]
    · refine LedgerFits.settle (k := { k with line := k.line ++ text })
        { hfits with ring := hsame ▸ hfits.ring, out := ?_ } hat'
      dsimp only at hout ⊢
      rw [hcon, helloOut_hello, hout, List.append_assoc]
    · refine LedgerFits.settle (k := k)
        { hfits with ring := hsame ▸ hfits.ring, out := by rw [← hout, ← hcon] } hat'
  · rw [helloStep_done hpc] at h
    cases h

/-- **The steps that meet the condition keep the ledger.** -/
theorem tracksFrames_step {s s' : CamProg Int × World} {l : Option (Option (ImageChunk chunkSize))}
    (hs : ∃ k, TracksFrames ims k s) (hcond : InitBetweenFrames s l)
    (h : pipelineRuns o s l = some s') : ∃ k', TracksFrames ims k' s' := by
  obtain ⟨k, hk⟩ := hs
  obtain ⟨p, w⟩ := s
  cases l with
  | none => exact tracksFrames_camera hk hcond h
  | some l =>
    obtain ⟨w', hw', rfl⟩ := Prog.sched_some_eq_some.mp h
    cases l with
    | none => exact tracksFrames_hello hk hw'
    | some junk =>
      simp only [helloRuns] at hw'
      split at hw'
      · rename_i hpc
        obtain rfl := Option.some.inj hw'
        rcases hk.2 with ⟨hne, -⟩ | ⟨-, htaken, hline⟩
        · exact absurd hpc hne
        · refine ⟨k, { hk.1 with }, Or.inl ⟨HelloPc.noConfusion, ?_⟩⟩
          rw [htaken, hline]
          exact helloAt_start junk
      · cases hw'

end Step

/-! ## Completed lines -/

theorem mem_images {captures : List Capture} {im : List UInt8} (h : im ∈ images captures) :
    ∃ st hdr, some (st, hdr) ∈ captures ∧ im = st.imageBuf.slice 0 hdr.imgSize.toNat := by
  obtain ⟨c, hc, hmap⟩ := List.mem_filterMap.mp h
  obtain ⟨⟨st, hdr⟩, rfl, rfl⟩ := Option.map_eq_some_iff.mp hmap
  exact ⟨st, hdr, hc, rfl⟩

theorem InRun.newline_not_mem {taken : List (ImageChunk chunkSize)} {hello : Hello}
    {line : List Char} (h : InRun taken hello line) : '\n' ∉ line := by
  rcases h with ⟨hpc, hat⟩ | ⟨-, -, rfl⟩
  · exact hat.newline_not_mem hpc
  · exact List.not_mem_nil

/-- Every completed line is one of the images pushed. -/
theorem exists_image_of_line (o : Oracle) {captures : List Capture}
    (hadmitted : AllAdmitted captures) (junk : ImageChunk chunkSize)
    {ls : List (Option (Option (ImageChunk chunkSize)))} {p : CamProg Int} {w : World}
    (hcond : Along (pipelineRuns o) InitBetweenFrames (captureRuns captures, World.start junk) ls)
    (hrun : run (pipelineRuns o) (captureRuns captures, World.start junk) ls = some (p, w)) :
    ∀ line ∈ (lines (helloOut w.console)).dropLast, ∃ im ∈ images captures, line = hex im := by
  have hstart : TracksFrames (images captures) ⟨[], [], [], captures, [], []⟩
      (captureRuns captures, World.start junk) :=
    ⟨{ program := captureRuns_eq hadmitted
       no_init := List.not_mem_nil
       later_admitted := hadmitted
       later_images := fun _ h => h
       ring := represents_rbInit
       frame := Or.inl ⟨rfl, rfl⟩
       out := rfl
       printed_images := fun _ h => absurd h List.not_mem_nil },
      Or.inl ⟨HelloPc.noConfusion, helloAt_start junk⟩⟩
  obtain ⟨k, hfits, hin⟩ := run_invariant_along
    (I := fun s => ∃ k, TracksFrames (images captures) k s)
    (fun _ _ _ hs hc h => tracksFrames_step hs hc h) ⟨_, hstart⟩ hcond hrun
  intro line hline
  have hlines : lines (helloOut w.console) = k.printed.map hex ++ [k.line] := by
    have hflat : k.printed.flatMap (fun im => hex im ++ ['\n']) =
        (k.printed.map hex).flatMap (· ++ ['\n']) := by rw [List.flatMap_map]
    have hout : helloOut w.console = _ := hfits.out
    rw [hout, hflat]
    refine lines_flatMap (fun l hl => ?_) hin.newline_not_mem
    obtain ⟨im, -, rfl⟩ := List.mem_map.mp hl
    exact newline_not_mem_hex im
  rw [hlines, List.dropLast_concat] at hline
  obtain ⟨im, him, rfl⟩ := List.mem_map.mp hline
  exact ⟨im, hfits.printed_images im him, rfl⟩

/-- **Every completed line is the image of one camera run**, in every run of the two sequences whose
steps initialise the ring only between two frames of the consumer. -/
theorem lines_are_frames (o : Oracle) {captures : List Capture} (hadmitted : AllAdmitted captures)
    (junk : ImageChunk chunkSize) {ls : List (Option (Option (ImageChunk chunkSize)))}
    {p : CamProg Int} {w : World}
    (hcond : Along (pipelineRuns o) InitBetweenFrames (captureRuns captures, World.start junk) ls)
    (hrun : run (pipelineRuns o) (captureRuns captures, World.start junk) ls = some (p, w)) :
    ∀ line ∈ (lines (helloOut w.console)).dropLast, ∃ st hdr, some (st, hdr) ∈ captures ∧
      line = hex (st.imageBuf.slice 0 hdr.imgSize.toNat) := by
  intro line hline
  obtain ⟨im, him, rfl⟩ := exists_image_of_line o hadmitted junk hcond hrun line hline
  obtain ⟨st, hdr, hc, rfl⟩ := mem_images him
  exact ⟨st, hdr, hc, rfl⟩

/-- Two captures, of 259 bytes and of four. -/
def twoCaptures : List Capture :=
  [some (Statics.jpeg 259, ⟨259, 1⟩), some (Statics.jpeg 4, ⟨4, 1⟩)]

theorem allAdmitted_twoCaptures : AllAdmitted twoCaptures := by
  intro st hdr h
  rcases List.mem_cons.mp h with h | h
  · obtain ⟨-, rfl⟩ := Prod.mk.inj (Option.some.inj h)
    exact admitted_smallJpeg
  · obtain ⟨-, rfl⟩ := Prod.mk.inj (Option.some.inj (List.mem_singleton.mp h))
    exact ⟨by decide, by decide, by decide, by decide⟩

/-- The second capture begins when `hello_main` has printed the first one and returned; the next run
of `hello_main` begins after the second `rb_init`. -/
def apart : List (Option (Option (ImageChunk chunkSize))) :=
  some none :: List.replicate 5 none ++ List.replicate 259 (some none) ++ List.replicate 3 none ++
    List.replicate 5 (some none) ++ [none, some (some 0)] ++ List.replicate 6 none ++
    List.replicate 7 (some none)

/-- Both lines are completed, and each is the image of one capture. -/
theorem two_captures_two_lines :
    ∃ p w, run (pipelineRuns (scripted [])) (captureRuns twoCaptures, World.start 0) apart =
        some (p, w) ∧
      (lines (helloOut w.console)).dropLast = [hex smallJpeg, hex tinyJpeg] ∧
      ∀ line ∈ (lines (helloOut w.console)).dropLast, ∃ st hdr, some (st, hdr) ∈ twoCaptures ∧
        line = hex (st.imageBuf.slice 0 hdr.imgSize.toNat) := by
  have hlines : ((run (pipelineRuns (scripted [])) (captureRuns twoCaptures, World.start 0)
      apart).map fun s => (lines (helloOut s.2.console)).dropLast) =
        some [hex smallJpeg, hex tinyJpeg] := by
    decide +kernel
  have hcond : Along (pipelineRuns (scripted [])) (fun s l => l = none →
      s.1.asks (· matches .rbInit) → (s.2.hello.pc = .reading ∨ s.2.hello.pc = .done) ∧
        (helloOut s.2.console = [] ∨ (helloOut s.2.console).getLast? = some '\n'))
      (captureRuns twoCaptures, World.start 0) apart := by
    decide +kernel
  obtain ⟨⟨p, w⟩, hrun, hw⟩ := Option.map_eq_some_iff.mp hlines
  refine ⟨p, w, hrun, hw, ?_⟩
  refine lines_are_frames (scripted []) allAdmitted_twoCaptures 0 (hcond.mono ?_) hrun
  rintro s l hc hl ⟨again, k, hs⟩
  obtain ⟨hpc, hout⟩ := hc hl (by rw [hs]; rfl)
  refine ⟨fun i hi => ?_, hout.imp_right fun hlast => ?_⟩
  · rw [hi] at hpc
    simp at hpc
  · exact List.getLast?_eq_some_iff.mp hlast

/-! ## A later capture inside a frame -/

/-- The second capture begins when `hello_main` has printed the first chunk of the first one. -/
def overlap : List (Option (Option (ImageChunk chunkSize))) :=
  List.replicate 5 none ++ List.replicate 259 (some none) ++ List.replicate 8 none ++
    List.replicate 7 (some none)

theorem frames_mixed :
    ∃ p w, run (pipelineRuns (scripted [])) (captureRuns twoCaptures, World.start 0) overlap =
        some (p, w) ∧
      ∃ line ∈ (lines (helloOut w.console)).dropLast, line ∉ (images twoCaptures).map hex := by
  have hmixed : ((run (pipelineRuns (scripted [])) (captureRuns twoCaptures, World.start 0)
      overlap).map fun s => (lines (helloOut s.2.console)).dropLast) =
        some [hex (smallJpeg.take 256 ++ tinyJpeg)] := by
    decide +kernel
  obtain ⟨⟨p, w⟩, hrun, hlines⟩ := Option.map_eq_some_iff.mp hmixed
  refine ⟨p, w, hrun, hex (smallJpeg.take 256 ++ tinyJpeg), ?_, by decide +kernel⟩
  rw [hlines]
  exact List.mem_singleton_self _

end CameraPipeline
