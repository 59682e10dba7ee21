import CameraPipeline.Pipeline.Decoding

/-!
# The request of a run

The beginning of a run of `camera_MSN2_main`, split at the request for an image. Before it come the
ring, the UART, the bus and the handshake; after it comes the decoding of the reply. So a run
admits a header exactly when it comes to the request and the reads after it yield, within the poll
limits, a reply with that header.

## Main definitions

* `beforeCapture`, `captureReply`: the run up to `CMD_CAPTURE`, and from there to the metadata
* `Requests o w`: against the oracle `o`, a run from `w` comes to the request
* `Admits o w hdr`: against the oracle `o`, a run from `w` passes the checks with the header `hdr`
* `RequestGave reads a`: a result of the request, when the reads after it yield `reads`

## Main results

* `exists_request`: a run that has sent the request, split there
* `admits_iff`, `forall_admits_iff`: the headers admitted are those of the replies the reads yield
-/

namespace CameraPipeline

open Data Systems

/-! ## Up to the request -/

/-- The run up to `CMD_CAPTURE`; `false` when it is given up before. -/
def beforeCapture : CamProg Bool := do
  printf "\n================ CAMERA START ================\n"
  Prog.once Call.rbInit
  match ← (Prog.once Call.openUart : CamProg (Option String)) with
  | some error =>
    printf s!"[CAM] UART open failed: {error}\n"
    pure false
  | none =>
    uartConfigure
    uartFlush
    if ← Prog.once Call.spibusInitialize then
      printf "[CAM] SPI3 ready\n"
      if (← uartHandshake) < 0 then
        closeUart
        pure false
      else
        printf "\n========== CAPTURE START ==========\n"
        uartFlush
        pure true
    else
      printf "[CAM] SPI init failed\n"
      closeUart
      pure false

/-- The request and the decoding of the reply. -/
def captureReply (metaBuf : Buf metaBufSize) : CamProg (Option Header × Buf metaBufSize) := do
  uartWriteByte cmdCapture
  printf "[CAM] CMD_CAPTURE sent — waiting ACK...\n"
  receiveReply metaBuf

/-- The beginning of a run is split at the request. -/
theorem beginRun_eq (metaBuf : Buf metaBufSize) :
    beginRun metaBuf = beforeCapture >>= fun ok =>
      if ok then captureReply metaBuf else pure (none, metaBuf) := by
  simp only [beginRun, beforeCapture, requestImage, captureReply, bind_assoc]
  refine congrArg _ (funext fun _ => congrArg _ (funext fun _ => congrArg _ (funext fun r => ?_)))
  cases r with
  | some error => simp
  | none =>
    simp only [bind_assoc]
    refine congrArg _ (funext fun _ => congrArg _ (funext fun _ => ?_))
    refine congrArg _ (funext fun up => ?_)
    cases up with
    | false => simp
    | true =>
      simp only [if_true, bind_assoc]
      refine congrArg _ (funext fun _ => congrArg _ (funext fun ret => ?_))
      by_cases hret : ret < 0
      · simp [hret]
      · simp [hret]

section Before

variable {reads : ℕ → Option UInt8} {o : Oracle} {t : Tally} {α : Type}

variable (reads o) in
/-- Triples on the tally. -/
abbrev TallyTriple (t : Tally) (x : CamProg α) (Q : α → Tally → Prop) : Prop :=
  Prog.Triple (handle (withReply reads o)) helloTurn (fun w => tally w.calls) t x Q

theorem tally_handle {w w' : World} {c : Call} {r : c.Resp}
    (h : handle o w c = some (r, w')) : tally w'.calls = (tally w.calls).add c := by
  rw [calls_handle h, tally_snoc]

theorem triple_add (c : Call) :
    TallyTriple reads o t (Prog.once c) fun _ t' => t' = t.add c :=
  Prog.triple_once (fixed_view tally) fun _ _ _ hw h => by rw [tally_handle h, hw]

/-- Preparatory calls before `CMD_CAPTURE` keep the tally. -/
theorem triple_preparatory {x : CamProg α}
    (hx : Prog.All (fun c _ => c.Preparatory) (fun _ => True) x) (ht : t.reads = none) :
    TallyTriple reads o t x fun _ t' => t' = t := by
  intro w hw ls a w' hrun
  refine (hx.run (I := fun w => tally w.calls = t) hw ?_ ?_ hrun).2
  · intro w₁ c again r w₂ hI hc h
    rw [tally_handle h, hI, Tally.add_of_preparatory hc ht]
  · intro w₁ l w₂ hI h
    exact (fixed_view tally w₁ l w₂ h).trans hI

theorem triple_preparatory_bind {β : Type} {x : CamProg α} {f : α → CamProg β}
    {Q : β → Tally → Prop} (hx : Prog.All (fun c _ => c.Preparatory) (fun _ => True) x)
    (ht : t.reads = none) (hf : ∀ a, TallyTriple reads o t (f a) Q) :
    TallyTriple reads o t (x >>= f) Q := by
  refine (triple_preparatory hx ht).bind fun a t' ht' => ?_
  rw [ht']
  exact hf a

/-- The tally when the request is sent. -/
theorem triple_beforeCapture :
    TallyTriple reads o (tally []) beforeCapture
      fun ok t' => ok = true → t' = ⟨none, 0, 0, some 0⟩ := by
  have hquit : ∀ {t : Tally}, TallyTriple reads o t (pure false : CamProg Bool)
      fun ok t' => ok = true → t' = ⟨none, 0, 0, some 0⟩ :=
    Prog.triple_ret (fixed_view tally) fun h => Bool.noConfusion h
  refine triple_preparatory_bind (all_printf trivial) rfl fun _ => ?_
  refine (triple_add .rbInit).bind fun _ t₁ ht₁ => ?_
  obtain rfl : t₁ = ⟨none, 0, 0, some 0⟩ := ht₁
  refine triple_preparatory_bind (all_once .openUart trivial) rfl fun r => ?_
  cases r with
  | some error => exact (triple_add (.printf _)).bind fun _ _ _ => hquit
  | none =>
    refine triple_preparatory_bind all_uartConfigure rfl fun _ => ?_
    refine triple_preparatory_bind all_uartFlush rfl fun _ => ?_
    refine triple_preparatory_bind (all_once .spibusInitialize trivial) rfl fun up => ?_
    split
    · refine triple_preparatory_bind (all_printf trivial) rfl fun _ => ?_
      refine triple_preparatory_bind all_uartHandshake rfl fun ret => ?_
      split
      · exact (triple_add .close).bind fun _ _ _ => hquit
      · refine triple_preparatory_bind (all_printf trivial) rfl fun _ => ?_
        refine triple_preparatory_bind all_uartFlush rfl fun _ => ?_
        exact Prog.triple_ret (fixed_view tally) fun _ => rfl
    · refine (triple_add (.printf _)).bind fun _ _ _ => ?_
      exact (triple_add .close).bind fun _ _ _ => hquit

theorem all_ne_cmdCapture {x : CamProg α}
    (hx : Prog.All (fun c _ => c.Preparatory) (fun _ => True) x) :
    Prog.All (fun c _ => c ≠ .write cmdCapture) (fun _ => True) x := by
  refine hx.mono (fun c _ hc => ?_) fun _ ha => ha
  rintro rfl
  exact hc rfl

/-- Nothing is sent before the request. -/
theorem all_beforeCapture :
    Prog.All (fun c _ => c ≠ .write cmdCapture) (fun _ => True) beforeCapture := by
  have hprintf : ∀ text,
      Prog.All (fun c _ => c ≠ .write cmdCapture) (fun _ => True) (printf text) :=
    fun text => all_once (.printf text) Call.noConfusion
  have hclose : Prog.All (fun c _ => c ≠ .write cmdCapture) (fun _ => True) closeUart :=
    all_once .close Call.noConfusion
  refine (hprintf _).bind fun _ _ => ?_
  refine (all_once .rbInit Call.noConfusion).bind fun _ _ => ?_
  refine (all_once .openUart Call.noConfusion).bind fun r _ => ?_
  cases r with
  | some error => exact (hprintf _).bind fun _ _ => Prog.All.ret trivial
  | none =>
    refine (all_ne_cmdCapture all_uartConfigure).bind fun _ _ => ?_
    refine (all_ne_cmdCapture all_uartFlush).bind fun _ _ => ?_
    refine (all_once .spibusInitialize Call.noConfusion).bind fun up _ => ?_
    split
    · refine (hprintf _).bind fun _ _ => ?_
      refine (all_ne_cmdCapture all_uartHandshake).bind fun ret _ => ?_
      split
      · exact hclose.bind fun _ _ => Prog.All.ret trivial
      · refine (hprintf _).bind fun _ _ => ?_
        exact (all_ne_cmdCapture all_uartFlush).bind fun _ _ => Prog.All.ret trivial
    · refine (hprintf _).bind fun _ _ => ?_
      exact hclose.bind fun _ _ => Prog.All.ret trivial

theorem not_sent_of_run {w w' : World} {ls : List (Option Unit)} {y : CamProg Bool}
    (hw : w.log = []) (hrun : run (pipeline o) (beforeCapture, w) ls = some (y, w')) :
    .write cmdCapture ∉ w'.calls := by
  refine (all_beforeCapture.run (I := fun w => .write cmdCapture ∉ w.calls) ?_ ?_ ?_ hrun).2
  · rw [World.calls, hw]
    exact List.not_mem_nil
  · intro w₁ c again r w₂ hI hc h
    rw [calls_handle h, List.mem_append, List.mem_singleton]
    exact not_or.mpr ⟨hI, hc.symm⟩
  · intro w₁ l w₂ hI h
    rw [calls_helloStep h]
    exact hI

/-- A program that has returned makes no more calls. -/
theorem calls_run_ret {a : α} {p : CamProg α} {w w' : World} {ls : List (Option Unit)}
    (hrun : run (pipeline o) (.ret a, w) ls = some (p, w')) : w'.calls = w.calls := by
  have hret : Prog.All (R := Call.Resp) (F := Fault) (fun _ _ => False) (fun _ => True)
      (.ret a : CamProg α) := Prog.All.ret trivial
  refine (hret.run (I := fun v => v.calls = w.calls) rfl ?_ ?_ hrun).2
  · exact fun _ _ _ _ _ _ hc _ => hc.elim
  · exact fun _ _ _ hI h => (calls_helloStep h).trans hI

/-- **A run that has sent the request** went through the state in which it was about to. -/
theorem exists_request {β : Type} {f : Option Header × Buf metaBufSize → CamProg β}
    (hf : ∀ metaBuf, ∃ b, f (none, metaBuf) = .ret b) {metaBuf : Buf metaBufSize} {w w' : World}
    {ls : List (Option Unit)} {p : CamProg β} (hw : w.log = [])
    (hrun : run (pipeline (withReply reads o)) (beginRun metaBuf >>= f, w) ls = some (p, w'))
    (hsent : .write cmdCapture ∈ w'.calls) :
    ∃ ls₁ ls₂ w₁, ls = ls₁ ++ ls₂ ∧
      run (pipeline (withReply reads o)) (beginRun metaBuf >>= f, w) ls₁ =
        some (captureReply metaBuf >>= f, w₁) ∧
      tally w₁.calls = ⟨none, 0, 0, some 0⟩ ∧
      run (pipeline (withReply reads o)) (captureReply metaBuf >>= f, w₁) ls₂ = some (p, w') := by
  rw [beginRun_eq, bind_assoc] at hrun ⊢
  rcases Prog.run_bind_cases hrun with ⟨y, hy, -, -⟩ | ⟨ls₁, ls₂, ok, w₁, rfl, hok, hrest⟩
  · exact absurd hsent (not_sent_of_run hw hy)
  · cases ok with
    | false =>
      obtain ⟨b, hb⟩ := hf metaBuf
      have hrest : run (pipeline (withReply reads o)) (f (none, metaBuf), w₁) ls₂ = some (p, w') :=
        hrest
      rw [hb] at hrest
      rw [calls_run_ret hrest] at hsent
      exact absurd hsent (not_sent_of_run hw hok)
    | true =>
      have hstart : tally w.calls = tally [] := by rw [World.calls, hw, List.map_nil]
      exact ⟨ls₁, ls₂, w₁, rfl, Prog.run_bind hok _,
        triple_beforeCapture w hstart ls₁ true w₁ hok rfl, hrest⟩

end Before

/-! ## The reply of a run -/

section Result

variable {reads : ℕ → Option UInt8} {o : Oracle} {t : Tally}

theorem wp_captureReply (metaBuf : Buf metaBufSize) :
    TallyWp reads o (captureReply metaBuf) (Replied reads t) t := by
  refine (wp_add (.write cmdCapture) trivial).bind fun _ t₁ ht₁ => ?_
  refine (wp_printf _).bind fun _ t₂ ht₂ => ?_
  rw [ht₂, ht₁]
  exact wp_receiveReply metaBuf

/-- The request for an image gave `a`, in some run that sent `CMD_CAPTURE` and read `reads` after
it. -/
def RequestGave (reads : ℕ → Option UInt8) (a : Option Header × Buf metaBufSize) : Prop :=
  ∃ o metaBuf w ls w', w.log = [] ∧
    run (pipeline (withReply reads o)) (beginRun metaBuf, w) ls = some (.ret a, w') ∧
    .write cmdCapture ∈ w'.calls

theorem RequestGave.replied {a : Option Header × Buf metaBufSize} (h : RequestGave reads a) :
    ∃ t t', Replied reads t a t' := by
  obtain ⟨o, metaBuf, w, ls, w', hw, hrun, hsent⟩ := h
  rw [← Prog.bind_ret (beginRun metaBuf)] at hrun
  obtain ⟨-, ls₂, w₁, -, -, -, hrest⟩ := exists_request (fun _ => ⟨_, rfl⟩) hw hrun hsent
  rw [Prog.bind_ret] at hrest
  exact ⟨_, _, (wp_captureReply metaBuf).run (fixed_view tally) hrest⟩

end Result

/-! ## Admitted headers -/

/-- Against the oracle `o`, some run from `w` comes to the request. -/
def Requests (o : Oracle) (w : World) : Prop :=
  ∃ w', Reaches (pipeline o) (beforeCapture, w) (.ret true, w')

/-- Against the oracle `o`, some run from `w` passes all checks with the header `hdr`. -/
def Admits (o : Oracle) (w : World) (hdr : Header) : Prop :=
  ∃ metaBuf metaBuf' w',
    Reaches (pipeline o) (beginRun metaBuf, w) (.ret (some hdr, metaBuf'), w')

/-- An admitted header passes the checks. -/
theorem Admits.admitted {o : Oracle} {w : World} {hdr : Header} (h : Admits o w hdr) :
    hdr.Admitted := by
  obtain ⟨metaBuf, metaBuf', w', ls, h⟩ := h
  exact (all_beginRun metaBuf).result h hdr rfl

/-- **The headers admitted are those of the replies the reads yield.** -/
theorem admits_iff {reads : ℕ → Option UInt8} {o : Oracle} {w : World} {hdr : Header} :
    Admits (withReply reads o) w hdr ↔ Requests (withReply reads o) w ∧
      ∃ (rep : Reply) (n : ℕ), Timely reads ackPolls sizePolls rep.bytes n ∧ rep.header = hdr := by
  constructor
  · rintro ⟨metaBuf, metaBuf', w', ls, hrun⟩
    rw [beginRun_eq] at hrun
    rcases Prog.run_bind_cases hrun with ⟨y, -, hne, hy⟩ | ⟨ls₁, ls₂, ok, w₁, -, hbefore, hrest⟩
    · exact absurd hy.symm (Prog.bind_ne_ret hne _ _)
    · cases ok with
      | false =>
        have hquit : Prog.All (R := Call.Resp) (F := Fault) (fun _ _ => True)
            (fun r => r.1 = none) (.ret ((none : Option Header), metaBuf)) := Prog.All.ret rfl
        cases hquit.result hrest
      | true =>
        refine ⟨⟨w₁, ls₁, hbefore⟩, ?_⟩
        have hreplied : Replied reads (tally w₁.calls) (some hdr, metaBuf') (tally w'.calls) :=
          (wp_captureReply metaBuf).run (fixed_view tally) hrest
        rcases hreplied with ⟨rep, n, hrep, hgave, -⟩ | ⟨-, hnone, -⟩
        · exact ⟨rep, n, hrep, (Option.some.inj (Prod.mk.inj hgave).1).symm⟩
        · cases hnone
  · rintro ⟨⟨w₁, ls₁, hbefore⟩, rep, n, hrep, rfl⟩
    have hwp : TallyWp reads o (captureReply (Buf.zero _)) (Replied reads (tally w₁.calls))
        (tally w₁.calls) := wp_captureReply _
    obtain ⟨k, a, w₂, hrun, hreplied⟩ := hwp.returns helloTurn
    rcases hreplied with ⟨rep', m, hrep', rfl, -⟩ | ⟨hno, -, -⟩
    · obtain ⟨rfl, -⟩ := Reply.unique hrep hrep'
      refine ⟨Buf.zero _, rep.metaBuf, w₂, ls₁ ++ List.replicate k none, ?_⟩
      rw [beginRun_eq]
      exact (Prog.run_bind_ret hbefore _ _).trans hrun
    · exact absurd hrep (hno rep n)

/-- A condition on every header admitted, as one on the replies the reads yield. -/
theorem forall_admits_iff {reads : ℕ → Option UInt8} {o : Oracle} {w : World} {P : Header → Prop} :
    (∀ hdr, Admits (withReply reads o) w hdr → P hdr) ↔
      (Requests (withReply reads o) w → ∀ (rep : Reply) (n : ℕ),
        Timely reads ackPolls sizePolls rep.bytes n → P rep.header) := by
  constructor
  · exact fun h hreq rep n hrep => h _ (admits_iff.mpr ⟨hreq, rep, n, hrep, rfl⟩)
  · intro h hdr hadmits
    obtain ⟨hreq, rep, n, hrep, rfl⟩ := admits_iff.mp hadmits
    exact h hreq rep n hrep

/-- Reads that yield the reply to an image of three bytes with the metadata `"A"`, an empty read
before the acknowledgement and another before the metadata. -/
def gappedReads (n : ℕ) : Option UInt8 :=
  [none, some 0xAA, some 3, some 0, some 0, some 0, some 1, some 0, none, some 0x41].getD n none

/-- The reply these reads yield. -/
def gappedReply : Reply where
  s0 := 3
  s1 := 0
  s2 := 0
  s3 := 0
  l0 := 1
  l1 := 0
  metaStr := [0x41]
  admitted := ⟨by decide, by decide, by decide, by decide⟩
  length_metaStr := rfl

theorem timely_gappedReply : Timely gappedReads ackPolls sizePolls gappedReply.bytes 10 := by
  have hpolls : 0 < sizePolls := by decide
  refine ⟨2, ⟨1, by decide, by decide, rfl, rfl⟩, ?_⟩
  refine .cons (next_of_eq hpolls rfl) (.cons (next_of_eq hpolls rfl) ?_)
  refine .cons (next_of_eq hpolls rfl) (.cons (next_of_eq hpolls rfl) ?_)
  refine .cons (next_of_eq hpolls rfl) (.cons (next_of_eq hpolls rfl) ?_)
  exact .cons ⟨1, by decide, by decide, rfl, rfl⟩ (.nil 10)

/-- The peer that acknowledges the handshake at once and then sends this reply. -/
def gappedOracle : Oracle := withReply gappedReads (scripted [none, none, some 0xAA])

theorem admits_gappedOracle : Admits gappedOracle (World.start 0) ⟨3, 1⟩ := by
  have hreq : Requests gappedOracle (World.start 0) := ⟨_, List.replicate 21 none, rfl⟩
  exact admits_iff.mpr ⟨hreq, gappedReply, 10, timely_gappedReply, rfl⟩

end CameraPipeline
