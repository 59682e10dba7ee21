import CameraPipeline.Camera.Bounds
import CameraPipeline.RingBuffer.Queue
import CameraPipeline.Systems.WeakestPre

/-!
# The pipeline

The camera task and the hello task, with the ring buffer between them and the console they share.
One step is one call of the camera, or one move of `hello_main`: a `rb_read`, one `printf`, or a
turn of its loop. The UART, the SPI bus and `open` answer the camera as an oracle decides from the
calls so far, so a statement about every oracle is one about every peer and every timing.

## Main definitions

* `Hello`: where `hello_main` is, and its local chunk
* `World`: the ring, the hello task, the console, and the camera's calls so far
* `handle o`: how the calls of the camera are answered
* `helloStep`: one move of `hello_main`
* `pipeline o`: the two tasks, interleaved in any way

## Main results

* `helloStep_reading`, `helloStep_printing`: everything a move of `hello_main` can do
* `wp_call`: the rule for a call of the camera, on a view of the calls so far
-/

namespace CameraPipeline

open Data Systems

/-! ## The hello task -/

/-- Where `hello_main` is: at its `rb_read`, in the print loop at `i`, returned, or stopped at an
access outside `chunk.data`. The loop index stays below `chunk.len`, so its `uint16_t` never
wraps. -/
inductive HelloPc
  | reading
  | printing (i : ℕ)
  | done
  | fault (i : ℕ)
  deriving DecidableEq

/-- `hello_main`: where it is, and its local `chunk`, which starts uninitialised. -/
structure Hello where
  pc : HelloPc
  chunk : ImageChunk chunkSize

/-- The start of a run of `hello_main`, with whatever `chunk` holds. -/
def Hello.start (junk : ImageChunk chunkSize) : Hello := ⟨.reading, junk⟩

/-! ## The world of the two tasks -/

/-- A call of the camera and its response. -/
abbrev Event := (c : Call) × c.Resp

/-- The ring, the hello task, the `printf` calls of both tasks in the order issued, and the calls
of the camera in the order answered. -/
structure World where
  ring : ImageRing
  hello : Hello
  console : List (Task × List Char)
  log : List Event

/-- The text on the console. -/
def transcript (console : List (Task × List Char)) : List Char := console.flatMap Prod.snd

/-- The text `hello_main` printed. -/
def helloOut (console : List (Task × List Char)) : List Char :=
  transcript (console.filter fun e => e.1 = .hello)

/-- The world after `rb_init`, with `hello_main` at its start and a blank console. -/
def World.start (junk : ImageChunk chunkSize) : World :=
  { ring := rbInit, hello := Hello.start junk, console := [], log := [] }

/-- The calls of the camera so far. -/
def World.calls (w : World) : List Call := w.log.map Sigma.fst

/-- What answers the calls to the UART, the SPI bus and `open`, from the calls so far. -/
abbrev Oracle := List Event → (c : Call) → c.Resp

/-- The number of `read` calls so far. -/
def readsSoFar (log : List Event) : ℕ :=
  log.countP fun e => match e.1 with
    | .read => true
    | _ => false

/-- The oracle that opens the UART and the bus, plays the results `reads` of the `read` calls and
then nothing, and shifts in zero bytes. -/
def scripted (reads : List (Option UInt8)) : Oracle := fun log c =>
  match c with
  | .read => (reads[readsSoFar log]?).getD none
  | .openUart => none
  | .spibusInitialize => true
  | .spiExchange _ k => Buf.zero k
  | .rbWrite _ => 0
  | .printf _ | .rbInit | .tcsetattr | .write _ | .tcflush | .close => ()
  | .spiLock _ | .spiSetMode | .spiSetBits _ | .spiSetFrequency _ | .spiSelect _ => ()

/-- The reads of a run whose handshake is acknowledged at once and whose reply announces an image of
`size` bytes and the metadata `"A"`. -/
def shortReply (size : UInt8) : Oracle :=
  scripted [none, none, some 0xAA, none, none, some 0xAA, some size, some 0, some 0, some 0,
    some 1, some 0, some 0x41]

/-- The response to a call of the camera, and its effect on the ring and the console. -/
def respond (o : Oracle) (w : World) : (c : Call) → c.Resp × World
  | .printf text => ((), { w with console := w.console ++ [(.camera, text.toList)] })
  | .rbInit => ((), { w with ring := rbInit })
  | .rbWrite c => ((rbWrite w.ring (some c)).2, { w with ring := (rbWrite w.ring (some c)).1 })
  | c => (o w.log c, w)

/-- The response to a call, the call logged. -/
def handle (o : Oracle) (w : World) (c : Call) : Option (c.Resp × World) :=
  let r := respond o w c
  some (r.1, { r.2 with log := r.2.log ++ [⟨c, r.1⟩] })

/-- One move of `hello_main`. It reads again when the ring is empty, and after a metadata chunk. -/
def helloStep (w : World) : Option World :=
  match w.hello.pc with
  | .reading =>
    let (ring, ret, chunk) := rbRead w.ring (some w.hello.chunk)
    let chunk := chunk.getD w.hello.chunk
    if ret ≠ 0 ∨ chunk.isMeta ≠ 0 then some { w with ring := ring, hello := ⟨.reading, chunk⟩ }
    else some { w with ring := ring, hello := ⟨.printing 0, chunk⟩ }
  | .printing i =>
    let chunk := w.hello.chunk
    if i < chunk.len.toNat then
      if i < chunkSize then
        some { w with
          hello := ⟨.printing (i + 1), chunk⟩
          console := w.console ++ [(.hello, hexByte (chunk.data.byte i))] }
      else some { w with hello := ⟨.fault i, chunk⟩ }
    else if chunk.isLast ≠ 0 then
      some { w with hello := ⟨.done, chunk⟩, console := w.console ++ [(.hello, ['\n'])] }
    else some { w with hello := ⟨.reading, chunk⟩ }
  | .done => none
  | .fault _ => none

/-- A single run of `hello_main` as the surroundings of the camera. -/
def helloTurn (w : World) (_ : Unit) : Option World := helloStep w

/-- **The pipeline**: the camera's program and one run of `hello_main`, interleaved. -/
abbrev pipeline {α : Type} (o : Oracle) :
    CamProg α × World → Option Unit → Option (CamProg α × World) :=
  Prog.sched (handle o) helloTurn

/-! ## What the steps do -/

@[simp] theorem transcript_append (a b : List (Task × List Char)) :
    transcript (a ++ b) = transcript a ++ transcript b := List.flatMap_append

@[simp] theorem transcript_singleton (e : Task × List Char) : transcript [e] = e.2 :=
  List.flatMap_singleton _ _

@[simp] theorem helloOut_camera (console : List (Task × List Char)) (text : List Char) :
    helloOut (console ++ [(.camera, text)]) = helloOut console := by
  simp [helloOut]

@[simp] theorem helloOut_hello (console : List (Task × List Char)) (text : List Char) :
    helloOut (console ++ [(.hello, text)]) = helloOut console ++ text := by
  simp [helloOut]

theorem handle_isSome (o : Oracle) (w : World) (c : Call) : (handle o w c).isSome := rfl

/-- The world after a `printf` of the camera. -/
def World.printed (w : World) (text : String) : World :=
  { w with
    console := w.console ++ [(.camera, text.toList)]
    log := w.log ++ [⟨.printf text, ()⟩] }

theorem handle_printf (o : Oracle) (w : World) (text : String) :
    handle o w (.printf text) = some ((), w.printed text) := rfl

/-- The world after an attempt of the camera to write `c`. -/
def World.attempted (w : World) (c : ImageChunk chunkSize) : World :=
  { w with
    ring := (rbWrite w.ring (some c)).1
    log := w.log ++ [⟨.rbWrite c, (rbWrite w.ring (some c)).2⟩] }

theorem handle_rbWrite (o : Oracle) (w : World) (c : ImageChunk chunkSize) :
    handle o w (.rbWrite c) = some ((rbWrite w.ring (some c)).2, w.attempted c) := rfl

theorem handle_eq_some {o : Oracle} {w w' : World} {c : Call} {r : c.Resp}
    (h : handle o w c = some (r, w')) :
    r = (respond o w c).1 ∧ w' = { (respond o w c).2 with log := w.log ++ [⟨c, r⟩] } := by
  obtain ⟨rfl, rfl⟩ := Prod.mk.inj (Option.some.inj h)
  refine ⟨rfl, ?_⟩
  cases c <;> rfl

/-- A call that leaves the ring alone is answered by the oracle, from the calls so far. -/
theorem exists_handle {o : Oracle} {c : Call} (hc : c.Ringless) (w : World) :
    ∃ w', handle o w c = some (o w.log c, w') ∧ w'.log = w.log ++ [⟨c, o w.log c⟩] := by
  cases c with
  | rbWrite chunk => exact hc.elim
  | _ => exact ⟨_, rfl, rfl⟩

/-- A call of the camera is logged. -/
theorem calls_handle {o : Oracle} {w w' : World} {c : Call} {r : c.Resp}
    (h : handle o w c = some (r, w')) : w'.calls = w.calls ++ [c] := by
  obtain ⟨-, rfl⟩ := handle_eq_some h
  exact List.map_append

/-- In its print loop `hello_main` touches neither the ring nor the log. -/
theorem helloStep_printing_keeps {w w' : World} {i : ℕ} (hpc : w.hello.pc = .printing i)
    (h : helloStep w = some w') : w'.ring = w.ring ∧ w'.log = w.log := by
  simp only [helloStep, hpc] at h
  split at h
  · split at h <;> obtain rfl := Option.some.inj h <;> exact ⟨rfl, rfl⟩
  · split at h <;> obtain rfl := Option.some.inj h <;> exact ⟨rfl, rfl⟩

/-- `hello_main` makes no call of the camera. -/
theorem log_helloStep {w w' : World} (h : helloStep w = some w') : w'.log = w.log := by
  cases hpc : w.hello.pc with
  | reading =>
    simp only [helloStep, hpc] at h
    split at h <;> exact (congrArg World.log (Option.some.inj h)).symm
  | printing i => exact (helloStep_printing_keeps hpc h).2
  | done => simp [helloStep, hpc] at h
  | fault i => simp [helloStep, hpc] at h

theorem calls_helloStep {w w' : World} (h : helloStep w = some w') : w'.calls = w.calls := by
  rw [World.calls, World.calls, log_helloStep h]

/-- `hello_main` does not move once it has returned. -/
theorem helloStep_done {w : World} (h : w.hello.pc = .done) : helloStep w = none := by
  rw [helloStep, h]

/-- The move of `hello_main` at its `rb_read`, when the ring holds the chunks `q`. -/
theorem helloStep_reading {w w' : World} {q : List (ImageChunk chunkSize)}
    (hq : Represents w.ring q) (hpc : w.hello.pc = .reading) (h : helloStep w = some w') :
    (q = [] ∧ w' = w) ∨
      ∃ x q' ring, q = x :: q' ∧ Represents ring q' ∧
        w' = { w with
          ring := ring
          hello := ⟨if x.isMeta = 0 then .printing 0 else .reading, x⟩ } := by
  obtain ⟨ring, ⟨pc, chunk⟩, console, log⟩ := w
  obtain rfl : pc = .reading := hpc
  cases q with
  | nil =>
    simp only [helloStep, rbRead_empty hq] at h
    exact Or.inl ⟨rfl, (Option.some.inj h).symm⟩
  | cons x q' =>
    obtain ⟨hret, hrep⟩ := hq.read (Or.inl (by decide)) chunk
    simp only [helloStep] at h
    generalize rbRead ring (some chunk) = r at h hret hrep
    obtain ⟨rb, ret, ch⟩ := r
    obtain ⟨rfl, rfl⟩ := Prod.mk.inj hret
    refine Or.inr ⟨x, q', rb, rfl, hrep, ?_⟩
    by_cases hm : x.isMeta = 0
    · simpa [hm] using h.symm
    · simpa [hm] using h.symm

/-- `hello_main` leaves a ring as it was initialised, as there is nothing in it to read. -/
theorem ring_helloStep {w w' : World} (hw : w.ring = rbInit) (h : helloStep w = some w') :
    w'.ring = rbInit := by
  cases hpc : w.hello.pc with
  | reading =>
    have hempty : Represents w.ring [] := by
      rw [hw]
      exact represents_rbInit
    rcases helloStep_reading hempty hpc h with ⟨-, rfl⟩ | ⟨x, q, -, hcons, -⟩
    · exact hw
    · cases hcons
  | printing i => exact (helloStep_printing_keeps hpc h).1.trans hw
  | done => simp [helloStep, hpc] at h
  | fault i => simp [helloStep, hpc] at h

/-- The move of `hello_main` in its print loop. -/
theorem helloStep_printing {w w' : World} {i : ℕ} (hpc : w.hello.pc = .printing i)
    (hlen : w.hello.chunk.len.toNat ≤ chunkSize) (h : helloStep w = some w') :
    (i < w.hello.chunk.len.toNat ∧
      w' = { w with
        hello := ⟨.printing (i + 1), w.hello.chunk⟩
        console := w.console ++ [(.hello, hexByte (w.hello.chunk.data.byte i))] }) ∨
    (w.hello.chunk.len.toNat ≤ i ∧ w.hello.chunk.isLast ≠ 0 ∧
      w' = { w with
        hello := ⟨.done, w.hello.chunk⟩
        console := w.console ++ [(.hello, ['\n'])] }) ∨
    (w.hello.chunk.len.toNat ≤ i ∧ w.hello.chunk.isLast = 0 ∧
      w' = { w with hello := ⟨.reading, w.hello.chunk⟩ }) := by
  simp only [helloStep, hpc] at h
  by_cases hi : i < w.hello.chunk.len.toNat
  · rw [if_pos hi, if_pos (by omega)] at h
    exact Or.inl ⟨hi, (Option.some.inj h).symm⟩
  · rw [if_neg hi] at h
    by_cases hl : w.hello.chunk.isLast = 0
    · rw [if_neg (not_not_intro hl)] at h
      exact Or.inr (Or.inr ⟨by omega, hl, (Option.some.inj h).symm⟩)
    · rw [if_pos hl] at h
      exact Or.inr (Or.inl ⟨by omega, hl, (Option.some.inj h).symm⟩)

/-! ## Views of the calls so far -/

section Views

variable {V : Type} (view : List Call → V)

/-- `hello_main` changes no view of the camera's calls. -/
theorem fixed_view : Prog.Fixed helloTurn fun w => view w.calls :=
  fun _ _ _ h => congrArg view (calls_helloStep h)

variable {o : Oracle}

/-- The rule for a call of the camera: the oracle answers from the calls so far. -/
theorem wp_call {c : Call} (hc : c.Ringless) {P : V} {Q : c.Resp → V → Prop}
    (h : ∀ log, view (log.map Sigma.fst) = P → Q (o log c) (view (log.map Sigma.fst ++ [c]))) :
    (Prog.once c : CamProg c.Resp).Wp (handle o) (fun w => view w.calls) Q P := by
  refine Prog.wp_once fun w hw => ?_
  obtain ⟨w', hw', hlog⟩ := exists_handle (o := o) hc w
  refine ⟨_, w', hw', ?_⟩
  have hcalls : w'.calls = w.log.map Sigma.fst ++ [c] := by
    rw [World.calls, hlog, List.map_append]
    rfl
  rw [hcalls]
  exact h w.log hw

end Views

end CameraPipeline
