import CameraPipeline.Pipeline.Captures
import CameraPipeline.Systems.Hiding

/-!
# Whole camera runs

Runs of `camera_MSN2_main` one after another, each from the static buffers the one before left. The
ring and `hello_main` notice two parts of a camera run only, its `rb_init` and its push phase; the
calls between them go to the UART, the SPI bus and the console. So every run of the camera is one
of the captures of `captureRuns`, as far as `hello_main` can tell, and what is known of the lines of
those captures holds of the lines of whole camera runs.

## Main definitions

* `cameraRuns n st`: `n` runs of `camera_MSN2_main`
* `prepare st`: a run between `rb_init` and the push phase
* `SameRing`: worlds that `hello_main` does not tell apart
* `Enters o s ls st hdr`: the run comes to the push phase with these buffers and this header

## Main results

* `cameraMSN2Main_eq`: a run is `rb_init`, calls that leave the ring alone, and the push phase
* `cameraRuns_imitated`: every run of the camera is imitated by one of captures
* `cameraRuns_lines`: every completed line is the image of one camera run
-/

namespace CameraPipeline

open Data Systems

/-- Runs of `camera_MSN2_main` in sequence, each from the buffers the one before left. -/
def cameraRuns : ℕ → Statics → CamProg Int
  | 0, _ => pure 0
  | n + 1, st => do
    let (_, st) ← cameraMSN2Main st
    cameraRuns n st

/-! ## The parts of a camera run -/

/-- A camera run between `rb_init` and the push phase: what it comes to, and the buffers it
leaves. -/
def prepare (st : Statics) : CamProg (Capture × Statics) := do
  match ← (Prog.once Call.openUart : CamProg (Option String)) with
  | some error =>
    printf s!"[CAM] UART open failed: {error}\n"
    pure (none, st)
  | none =>
    uartConfigure
    match ← requestImage st.metaBuf with
    | (none, metaBuf) => pure (none, { st with metaBuf := metaBuf })
    | (some hdr, metaBuf) =>
      let st ← fetchImage { st with metaBuf := metaBuf } hdr.imgSize
      checkMarkers st.imageBuf hdr.imgSize
      pure (some (st, hdr), st)

/-- **A camera run** is a message, `rb_init`, the calls of `prepare`, and the push phase if it comes
to that. -/
theorem cameraMSN2Main_eq (st : Statics) :
    cameraMSN2Main st = (do
      printf "\n================ CAMERA START ================\n"
      Prog.once Call.rbInit
      let (c, st) ← prepare st
      let ret ← c.push
      pure (ret, st)) := by
  simp only [cameraMSN2Main, beginRun, prepare, bind_assoc]
  refine congrArg _ (funext fun _ => congrArg _ (funext fun _ => congrArg _ (funext fun r => ?_)))
  cases r with
  | some error => rfl
  | none =>
    simp only [bind_assoc]
    refine congrArg _ (funext fun _ => congrArg _ (funext fun r => ?_))
    obtain ⟨res, metaBuf⟩ := r
    cases res with
    | none => rfl
    | some hdr =>
      simp only [continueRun, finishRun, bind_assoc]
      rfl

/-- The marker checks leave the ring alone, also when they leave `image_buf`. -/
theorem makes_checkMarkers (image : Buf imgBufSize) {n : UInt32} (hpos : 0 < n.toNat)
    (hle : n.toNat ≤ imgBufSize) :
    Prog.Makes Call.Ringless (fun _ => True) (checkMarkers image n) := by
  by_cases h1 : n = 1
  · subst h1
    rw [checkMarkers_eq image hle, reportTrailer_one]
    exact Prog.Makes.call trivial fun _ => Prog.Makes.fault _
  · have h2 : 2 ≤ n.toNat := by
      have hne : n.toNat ≠ 1 := fun h => h1 (UInt32.toNat_inj.mp h)
      omega
    exact (all_checkMarkers image h2 hle).makes fun _ _ h => h.1

/-- The calls of `prepare` leave the ring alone, and the header it comes to is admitted. -/
theorem makes_prepare (st : Statics) :
    Prog.Makes Call.Ringless (fun r => ∀ s hdr, r.1 = some (s, hdr) → hdr.Admitted)
      (prepare st) := by
  refine ((all_once (P := fun c _ => c.Ringless) .openUart trivial).makes fun _ _ h => h).bind
    fun r _ => ?_
  cases r with
  | some error =>
    refine ((all_printf (P := fun c _ => c.Ringless) trivial).makes fun _ _ h => h).bind
      fun _ _ => Prog.Makes.ret fun _ _ h => nomatch h
  | none =>
    refine (all_uartConfigure.makes fun _ _ h => h.ringless).bind fun _ _ => ?_
    refine ((all_requestImage st.metaBuf).makes fun _ _ h => h).bind fun r hr => ?_
    obtain ⟨res, metaBuf⟩ := r
    cases res with
    | none => exact Prog.Makes.ret fun _ _ h => nomatch h
    | some hdr =>
      have hadm : hdr.Admitted := hr hdr rfl
      refine ((all_fetchImage _ hadm.imgSize_le).makes fun _ _ h => h.1).bind fun s _ => ?_
      refine (makes_checkMarkers s.imageBuf hadm.imgSize_pos hadm.imgSize_le).bind fun _ _ => ?_
      refine Prog.Makes.ret fun s' hdr' h => ?_
      obtain ⟨-, rfl⟩ := Prod.mk.inj (Option.some.inj h)
      exact hadm

/-! ## What `hello_main` notices -/

/-- Worlds that `hello_main` does not tell apart: the same ring, and `hello_main` at the same place
with the same text printed. -/
structure SameRing (w w' : World) : Prop where
  ring : w.ring = w'.ring
  hello : w.hello = w'.hello
  out : helloOut w.console = helloOut w'.console

/-- The calls of `rb_init` and of the push phase. -/
def Call.Pushing : Call → Prop
  | .rbInit | .rbWrite _ | .printf _ | .close => True
  | _ => False

theorem helloOut_append (a b : List (Task × List Char)) :
    helloOut (a ++ b) = helloOut a ++ helloOut b := by
  simp [helloOut]

/-- A move of `hello_main` depends on the ring and on where it is, and adds to the console. -/
theorem helloStep_eq (ring : ImageRing) (hello : Hello) (console : List (Task × List Char))
    (log : List Event) :
    helloStep ⟨ring, hello, console, log⟩ = (helloStep ⟨ring, hello, [], []⟩).map fun w =>
      { w with console := console ++ w.console, log := log } := by
  obtain ⟨pc, chunk⟩ := hello
  cases pc with
  | reading =>
    simp only [helloStep]
    split <;> simp
  | printing i =>
    simp only [helloStep]
    split
    · split <;> simp
    · split <;> simp
  | done => rfl
  | fault i => rfl

theorem SameRing.helloStep {w w' w₁ : World} (h : SameRing w w') (hstep : helloStep w = some w₁) :
    ∃ w₁', helloStep w' = some w₁' ∧ SameRing w₁ w₁' := by
  obtain ⟨ring, hello, console, log⟩ := w
  obtain ⟨ring', hello', console', log'⟩ := w'
  obtain ⟨hring, hhello, hout⟩ := h
  dsimp only at hring hhello hout
  subst hring hhello
  rw [helloStep_eq] at hstep
  obtain ⟨v, hv, rfl⟩ := Option.map_eq_some_iff.mp hstep
  refine ⟨{ v with console := console' ++ v.console, log := log' }, ?_, rfl, rfl, ?_⟩
  · rw [helloStep_eq, hv]
    rfl
  · rw [helloOut_append, helloOut_append, hout]

/-- **`hello_main` notices `rb_init` and the push phase only.** -/
theorem blind_helloRuns (o : Oracle) :
    Prog.Blind (handle o) helloRuns SameRing Call.Ringless Call.Pushing where
  env := by
    intro w w' l w₁ hw h
    cases l with
    | none => exact hw.helloStep h
    | some junk =>
      rw [helloRuns, hw.hello] at h
      rw [helloRuns]
      split at h
      · rename_i hpc
        obtain rfl := Option.some.inj h
        exact ⟨{ w' with hello := Hello.start junk }, rfl, hw.ring, rfl, hw.out⟩
      · cases h
  hidden := by
    intro w w' c r w₁ hw hc h
    obtain ⟨-, rfl⟩ := handle_eq_some h
    cases c with
    | rbInit | rbWrite => exact hc.elim
    | printf text => exact ⟨hw.ring, hw.hello, (helloOut_camera _ _).trans hw.out⟩
    | _ => exact ⟨hw.ring, hw.hello, hw.out⟩
  seen := by
    intro w w' c r w₁ hw hc h
    obtain ⟨rfl, rfl⟩ := handle_eq_some h
    cases c with
    | rbInit => exact ⟨_, rfl, rfl, hw.hello, hw.out⟩
    | rbWrite c =>
      refine ⟨w'.attempted c, ?_, ?_, hw.hello, hw.out⟩
      · rw [handle_rbWrite, ← hw.ring]
        rfl
      · rw [World.attempted, ← hw.ring]
        rfl
    | printf text =>
      refine ⟨_, rfl, hw.ring, hw.hello, ?_⟩
      exact (helloOut_camera _ _).trans (hw.out.trans (helloOut_camera _ _).symm)
    | close => exact ⟨_, rfl, hw.ring, hw.hello, hw.out⟩
    | _ => exact hc.elim

theorem onCalls_initBetweenFrames : Prog.OnCalls SameRing InitBetweenFrames where
  env _ _ h := nomatch h
  call := by
    rintro c again k k' w w' hw hcond - ⟨again', k'', hc⟩
    obtain rfl : c = .rbInit := (Prog.call.inj hc).1
    have hb : BetweenFrames w := hcond rfl ⟨again, k, rfl⟩
    refine ⟨fun i => ?_, ?_⟩
    · rw [← hw.hello]
      exact hb.1 i
    · rw [← hw.out]
      exact hb.2

theorem makes_perform (todo : List Action) :
    Prog.Makes Call.Pushing (fun _ => True) (perform todo) := by
  induction todo with
  | nil => exact Prog.Makes.ret trivial
  | cons a todo ih =>
    cases a with
    | _ => exact Prog.Makes.call trivial fun _ => ih

theorem Capture.makes_push {c : Capture} (h : ∀ st hdr, c = some (st, hdr) → hdr.Admitted) :
    Prog.Makes Call.Pushing (fun _ => True) c.push := by
  cases c with
  | none => exact Prog.Makes.ret trivial
  | some c =>
    obtain ⟨st, hdr⟩ := c
    rw [Capture.push, pushPhase_eq st (h st hdr rfl)]
    exact makes_perform _

/-! ## Camera runs are imitated by captures -/

/-- The run from `s` along `ls` comes to the push phase with these buffers and this header. -/
def Enters (o : Oracle) (s : CamProg Int × World)
    (ls : List (Option (Option (ImageChunk chunkSize)))) (st : Statics) (hdr : Header) : Prop :=
  ∃ ls₁ ls₂ f w, ls = ls₁ ++ ls₂ ∧
    run (pipelineRuns o) s ls₁ = some (pushPhase st hdr >>= f, w)

/-- The run from `s` along `ls`, to the world `w`, is imitated from `w'` by captures that it made
itself: `start` is what is left to do when the current one comes to `c` and `cs` come after it. -/
def ImitatedBy (o : Oracle) (n : ℕ) (s : CamProg Int × World)
    (ls : List (Option (Option (ImageChunk chunkSize)))) (w w' : World)
    (start : Capture → List Capture → CamProg Int) : Prop :=
  ∃ (c : Capture) (cs : List Capture) (q : CamProg Int) (w₁ : World), cs.length ≤ n ∧
    (∀ st hdr, some (st, hdr) ∈ c :: cs → hdr.Admitted ∧ Enters o s ls st hdr) ∧
    SameRing w w₁ ∧ Imitated (pipelineRuns o) InitBetweenFrames s ls (start c cs, w') (q, w₁)

section Stages

variable {α : Type} {o : Oracle} {n : ℕ} {s t : CamProg Int × World} {x : CamProg α}
  {f : α → CamProg Int} {p : CamProg Int} {w w₁ w' : World} {Q : α → Prop}
  {ls ms : List (Option (Option (ImageChunk chunkSize)))} {st : Statics} {hdr : Header}
  {start : Capture → List Capture → CamProg Int}

theorem Enters.after (hrun : run (pipelineRuns o) s ls = some t) (h : Enters o t ms st hdr) :
    Enters o s (ls ++ ms) st hdr := by
  obtain ⟨ms₁, ms₂, f, w, rfl, hms⟩ := h
  refine ⟨ls ++ ms₁, ms₂, f, w, (List.append_assoc _ _ _).symm, ?_⟩
  rw [run_append, hrun, Option.bind_some, hms]

/-- A run imitated up to `t`, and from there on by captures. -/
theorem ImitatedBy.after {start' : Capture → List Capture → CamProg Int} {w₂ : World}
    (hstage : ∀ c cs, Imitated (pipelineRuns o) InitBetweenFrames s ls (start c cs, w')
      (start' c cs, w₂))
    (hrun : run (pipelineRuns o) s ls = some t) (h : ImitatedBy o n t ms w w₂ start') :
    ImitatedBy o n s (ls ++ ms) w w' start := by
  obtain ⟨c, cs, q, w₃, hlen, hcs, hw, hq⟩ := h
  refine ⟨c, cs, q, w₃, hlen, fun st hdr hc => ?_, hw, (hstage c cs).trans hrun hq⟩
  exact ⟨(hcs st hdr hc).1, (hcs st hdr hc).2.after hrun⟩

/-- A run that has made no capture yet. -/
theorem imitatedBy_none {q : CamProg Int} {w₂ : World} (hw : SameRing w w₂)
    (hstage : Imitated (pipelineRuns o) InitBetweenFrames s ls (start none [], w') (q, w₂)) :
    ImitatedBy o n s ls w w' start := by
  refine ⟨none, [], q, w₂, Nat.zero_le n, fun st hdr hc => ?_, hw, hstage⟩
  cases List.mem_singleton.mp hc

/-- A stage of hidden calls. -/
theorem ImitatedBy.hidden (hx : Prog.Makes Call.Ringless Q x) (hw : SameRing w w')
    (hrun : run (pipelineRuns o) (x >>= f, w) ls = some (p, w₁))
    (hf : ∀ a w₂ w₂' ms, Q a → SameRing w₂ w₂' →
      run (pipelineRuns o) (f a, w₂) ms = some (p, w₁) →
        ImitatedBy o n (f a, w₂) ms w₁ w₂' start) :
    ImitatedBy o n (x >>= f, w) ls w₁ w' start := by
  rcases Prog.run_bind_cases hrun with ⟨y, hy, -, -⟩ | ⟨ls₁, ls₂, a, w₂, rfl, ha, hrest⟩
  · obtain ⟨w₂, hw₂, hq⟩ :=
      hx.imitated_hidden (blind_helloRuns o) onCalls_initBetweenFrames hw hy f
    exact imitatedBy_none hw₂ (hq _)
  · obtain ⟨w₂', hw₂, hq⟩ :=
      hx.imitated_hidden (blind_helloRuns o) onCalls_initBetweenFrames hw ha f
    exact (hf a w₂ w₂' ls₂ (hx.result ha) hw₂ hrest).after (fun c cs => hq (start c cs))
      (Prog.run_bind ha f)

/-- A stage of calls that are seen. -/
theorem ImitatedBy.seen {g : α → Capture → List Capture → CamProg Int}
    (hx : Prog.Makes Call.Pushing Q x) (hw : SameRing w w')
    (hrun : run (pipelineRuns o) (x >>= f, w) ls = some (p, w₁))
    (hf : ∀ a w₂ w₂' ms, SameRing w₂ w₂' →
      run (pipelineRuns o) (f a, w₂) ms = some (p, w₁) →
        ImitatedBy o n (f a, w₂) ms w₁ w₂' (g a)) :
    ImitatedBy o n (x >>= f, w) ls w₁ w' fun c cs => x >>= fun a => g a c cs := by
  rcases Prog.run_bind_cases hrun with ⟨y, hy, -, -⟩ | ⟨ls₁, ls₂, a, w₂, rfl, ha, hrest⟩
  · obtain ⟨w₂, hw₂, hq⟩ := hx.imitated_seen (blind_helloRuns o) onCalls_initBetweenFrames hw hy f
    exact imitatedBy_none hw₂ (hq _)
  · obtain ⟨w₂', hw₂, hq⟩ := hx.imitated_seen (blind_helloRuns o) onCalls_initBetweenFrames hw ha f
    exact (hf a w₂ w₂' ls₂ hw₂ hrest).after (fun c cs => hq fun a => g a c cs)
      (Prog.run_bind ha f)

end Stages

/-- **Every run of the camera is imitated by one of captures**, those it came to the push phase
with: `hello_main` does not tell the two apart, and the second initialises the ring only between two
frames if the first does. -/
theorem cameraRuns_imitated (o : Oracle) (n : ℕ) (st : Statics) {w w' w₁ : World} {p : CamProg Int}
    {ls : List (Option (Option (ImageChunk chunkSize)))} (hw : SameRing w w')
    (hrun : run (pipelineRuns o) (cameraRuns n st, w) ls = some (p, w₁)) :
    ∃ (captures : List Capture) (q : CamProg Int) (w₁' : World), captures.length ≤ n ∧
      (∀ s hdr, some (s, hdr) ∈ captures → hdr.Admitted ∧ Enters o (cameraRuns n st, w) ls s hdr) ∧
      SameRing w₁ w₁' ∧ Imitated (pipelineRuns o) InitBetweenFrames (cameraRuns n st, w) ls
        (captureRuns captures, w') (q, w₁') := by
  induction n generalizing st w w' ls with
  | zero =>
    have hret : Prog.Makes Call.Ringless (fun _ => True) (cameraRuns 0 st) := Prog.Makes.ret trivial
    obtain ⟨w₂, hw₂, hq⟩ :=
      hret.imitated_hidden (blind_helloRuns o) onCalls_initBetweenFrames hw hrun Prog.ret
    exact ⟨[], _, w₂, Nat.le_refl 0, fun s hdr hc => absurd hc List.not_mem_nil, hw₂, hq _⟩
  | succ n ih =>
    have hmain : cameraRuns (n + 1) st = (do
        printf "\n================ CAMERA START ================\n"
        Prog.once Call.rbInit
        let (c, st) ← prepare st
        let _ ← c.push
        cameraRuns n st) := by
      rw [cameraRuns, cameraMSN2Main_eq]
      simp only [bind_assoc]
      rfl
    suffices ImitatedBy o n (cameraRuns (n + 1) st, w) ls w₁ w' fun c cs =>
        captureRuns (c :: cs) by
      obtain ⟨c, cs, q, w₂, hlen, hcs, hw₂, hq⟩ := this
      exact ⟨c :: cs, q, w₂, Nat.succ_le_succ hlen, hcs, hw₂, hq⟩
    rw [hmain] at hrun ⊢
    have hprint : Prog.Makes Call.Ringless (fun _ => True)
        (printf "\n================ CAMERA START ================\n") :=
      Prog.Makes.call trivial fun _ => Prog.Makes.ret trivial
    have hinit : Prog.Makes Call.Pushing (fun _ => True)
        (Prog.once Call.rbInit : CamProg Unit) :=
      Prog.Makes.call trivial fun _ => Prog.Makes.ret trivial
    refine ImitatedBy.hidden hprint hw hrun fun _ w₂ w₂' ms _ hw₂ hrun₂ => ?_
    refine ImitatedBy.seen (g := fun _ c cs => do let _ ← c.push; captureRuns cs) hinit hw₂ hrun₂
      fun _ w₃ w₃' ms' hw₃ hrun₃ => ?_
    refine ImitatedBy.hidden (makes_prepare st) hw₃ hrun₃ ?_
    rintro ⟨c, s⟩ w₄ w₄' ms'' hadm hw₄ hrun₄
    have hpush := Capture.makes_push hadm
    have hthis : ∀ s' hdr, some (s', hdr) = c → hdr.Admitted ∧
        Enters o (c.push >>= fun _ => cameraRuns n s, w₄) ms'' s' hdr := by
      rintro s' hdr rfl
      exact ⟨hadm s' hdr rfl, [], ms'', _, w₄, rfl, rfl⟩
    rcases Prog.run_bind_cases hrun₄ with ⟨y, hy, -, -⟩ | ⟨ls₁, ls₂, ret, w₅, rfl, hret, hrest⟩
    · obtain ⟨w₅, hw₅, hq⟩ := hpush.imitated_seen (blind_helloRuns o) onCalls_initBetweenFrames hw₄
        hy fun _ => cameraRuns n s
      refine ⟨c, [], _, w₅, Nat.zero_le n, fun s' hdr hc => ?_, hw₅, hq _⟩
      exact hthis s' hdr (List.mem_singleton.mp hc)
    · obtain ⟨w₅', hw₅, hq⟩ := hpush.imitated_seen (blind_helloRuns o) onCalls_initBetweenFrames hw₄
        hret fun _ => cameraRuns n s
      obtain ⟨cs, q, w₆, hlen, hcs, hw₆, hq'⟩ := ih s hw₅ hrest
      have hcome := Prog.run_bind hret fun _ => cameraRuns n s
      refine ⟨c, cs, q, w₆, hlen, fun s' hdr hc => ?_, hw₆, (hq _).trans hcome hq'⟩
      rcases List.mem_cons.mp hc with hc | hc
      · exact hthis s' hdr hc
      · exact ⟨(hcs s' hdr hc).1, (hcs s' hdr hc).2.after hcome⟩

/-- **Every completed line is the image of one camera run**, in every run of the camera and
`hello_main`, each started any number of times, that initialises the ring only between two frames of
`hello_main`. -/
theorem cameraRuns_lines (o : Oracle) (n : ℕ) (st : Statics) (junk : ImageChunk chunkSize)
    {ls : List (Option (Option (ImageChunk chunkSize)))} {p : CamProg Int} {w : World}
    (hcond : Along (pipelineRuns o) InitBetweenFrames (cameraRuns n st, World.start junk) ls)
    (hrun : run (pipelineRuns o) (cameraRuns n st, World.start junk) ls = some (p, w)) :
    ∀ line ∈ (lines (helloOut w.console)).dropLast, ∃ s hdr, hdr.Admitted ∧
      Enters o (cameraRuns n st, World.start junk) ls s hdr ∧
      line = hex (s.imageBuf.slice 0 hdr.imgSize.toNat) := by
  obtain ⟨captures, q, w', -, hcaptures, hw', ls', hrun', halong⟩ :=
    cameraRuns_imitated o n st ⟨rfl, rfl, rfl⟩ hrun
  intro line hline
  rw [hw'.out] at hline
  obtain ⟨im, him, rfl⟩ := exists_image_of_line o (fun s hdr hc => (hcaptures s hdr hc).1) junk
    (halong hcond) hrun' line hline
  obtain ⟨s, hdr, hc, rfl⟩ := mem_images him
  exact ⟨s, hdr, (hcaptures s hdr hc).1, (hcaptures s hdr hc).2, rfl⟩

end CameraPipeline
