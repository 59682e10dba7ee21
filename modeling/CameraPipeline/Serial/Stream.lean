import CameraPipeline.Serial.Transmit

/-!
# What the serial driver sends

Every call of the driver leaves a record when its result is fixed: what was asked, what it returns,
whether it held `xmit.lock` then, and the bytes that it put into the transmit buffer. What was sent
and what still waits are, in order, the bytes of the records, and the bytes that the call inside
`xmit.lock` has put so far. No byte is lost, sent twice or sent out of order, and the bytes of two
writes never mix; only `TCOFLUSH` discards.

The result of a write says which of its data went into the buffer, but for a `'\r'`: a write that is
cut short between the `'\r'` and the `'\n'` it goes with has put the one and does not report it.

## Main definitions

* `output tcOflag data`: what the device is to send for `data`
* `TxRecord`, `TxRecord.Sound`: a record, and what it may say
* `Tty.ended s l`: the records that a step leaves
* `Stream s log gone`: the records `log` account for what is gone from the buffer and what is held
* `Answers s log es`: the records `log` are the returns `es` that the callers saw

## Main results

* `Driven.produces`: what an action of a call puts into the buffer, it puts on record
* `writes_are_serialised`: the bytes on the wire are those of the records
-/

namespace CameraPipeline

open Data Systems

/-! ## The output of a write -/

section Output

variable (tcOflag : UInt32)

/-- What goes before a character. -/
def crBefore (ch : UInt8) : List UInt8 := if wantsCr tcOflag ch then [carriageReturn] else []

/-- What the device is to send for `data`. -/
def output (data : List UInt8) : List UInt8 :=
  data.flatMap fun c => crBefore tcOflag (outputChar tcOflag c) ++ [outputChar tcOflag c]

theorem output_snoc (data : List UInt8) (c : UInt8) :
    output tcOflag (data ++ [c]) =
      output tcOflag data ++ crBefore tcOflag (outputChar tcOflag c) ++
        [outputChar tcOflag c] := by
  simp [output]

end Output

/-- What of the data is not left. -/
def Write.done (w : Write) (left : List UInt8) : List UInt8 :=
  w.data.take (w.data.length - left.length)

section Done

variable {w : Write} {left : List UInt8} {c : UInt8}

theorem Write.done_append (h : left <:+ w.data) : w.done left ++ left = w.data := by
  obtain ⟨pre, hpre⟩ := h
  rw [Write.done, ← hpre, List.length_append, Nat.add_sub_cancel, List.take_left']
  rfl

theorem Write.done_data (w : Write) : w.done w.data = [] := by
  rw [Write.done, Nat.sub_self, List.take_zero]

theorem Write.done_nil (w : Write) : w.done [] = w.data := by
  rw [Write.done, List.length_nil, Nat.sub_zero, List.take_length]

theorem Write.done_tail (h : left <:+ w.data) (hc : left.head? = some c) :
    w.done left.tail = w.done left ++ [c] := by
  obtain ⟨rest, rfl⟩ : ∃ rest, left = c :: rest := ⟨left.tail, (List.eq_cons_of_mem_head? hc)⟩
  have htail := Write.done_append ((List.suffix_cons c rest).trans h)
  have hwhole := Write.done_append h
  rw [← hwhole] at htail
  refine List.append_cancel_right (htail.trans ?_)
  rw [List.append_assoc]
  rfl

end Done

/-! ## Records -/

/-- What a call leaves on record: what was asked, what it returns, whether it held `xmit.lock` when
that was fixed, and the bytes it has put. -/
structure TxRecord (τ : Type) where
  task : τ
  op : TxOp
  ret : Int
  locked : Bool
  bytes : List UInt8

section Records

variable {τ : Type} {N : ℕ} (tcOflag : UInt32)

/-- **What a record may say.** A write has put the output of all its data, and returns its length;
or it has put the output of the data before some character, perhaps with the `'\r'` that goes before
that character and that the return value does not count, and returns how many characters that is, or
the error if there is none; or a signal was pending when it called `nxmutex_lock`. -/
def TxRecord.Sound (e : TxRecord τ) : Prop :=
  match e.op with
  | .write w =>
    (e.locked = false ∧ e.ret = -eintr ∧ e.bytes = []) ∨
    (e.ret = w.data.length ∧ e.bytes = output tcOflag w.data) ∨
      ∃ pre c post, w.data = pre ++ c :: post ∧
        e.ret = (if pre = [] then noRoom w.oktoblock else pre.length) ∧
        (e.bytes = output tcOflag pre ∨
          wantsCr tcOflag (outputChar tcOflag c) = true ∧
            e.bytes = output tcOflag pre ++ [carriageReturn])
  | .drain => e.bytes = [] ∧ (e.ret = 0 ∨ e.ret = -eintr ∨ e.ret = -etimedout)
  | .flush | .echo _ => e.bytes = []

/-- What the call has put into the buffer so far. -/
def TxPc.put : TxPc N → List UInt8
  | .loop w left => output tcOflag (w.done left)
  | .putCr w left _ p => output tcOflag (w.done left) ++ p.stored carriageReturn
  | .putCh w left ch p => output tcOflag (w.done left) ++ crBefore tcOflag ch ++ p.stored ch
  | _ => []

/-- The result of the call is fixed, and it still holds `xmit.lock`. -/
def TxPc.locked : TxPc N → Bool
  | .closing _ _ | .unlocking _ _ => true
  | _ => false

/-- The record of a call of task `t` that goes from `pc` to `pc'`. -/
def TxPc.ends (t : τ) (pc pc' : TxPc N) : List (TxRecord τ) :=
  match pc.result, pc'.result with
  | none, some r => [⟨t, r.1, r.2, pc'.locked, pc.put tcOflag⟩]
  | _, _ => []

variable [NeZero N] [DecidableEq τ] (ids : Tasks τ)

/-- The records that a step leaves. -/
def Tty.ended (s : Tty τ N) (l : TtyLabel τ) : List (TxRecord τ) :=
  match l, tty tcOflag ids s l with
  | .step t, some s' | .poll t _ _, some s' | .signal t, some s' =>
    (s.pc t).ends tcOflag t (s'.pc t)
  | _, _ => []

variable {tcOflag ids}

theorem Tty.ended_step {s s' : Tty τ N} {t : τ} (hs : tty tcOflag ids s (.step t) = some s') :
    s.ended tcOflag ids (.step t) = (s.pc t).ends tcOflag t (s'.pc t) := by
  simp only [Tty.ended, hs]

theorem Tty.ended_poll {s s' : Tty τ N} {t : τ} {txempty elapsed : Bool}
    (hs : tty tcOflag ids s (.poll t txempty elapsed) = some s') :
    s.ended tcOflag ids (.poll t txempty elapsed) = (s.pc t).ends tcOflag t (s'.pc t) := by
  simp only [Tty.ended, hs]

theorem Tty.ended_signal {s s' : Tty τ N} {t : τ} (hs : tty tcOflag ids s (.signal t) = some s') :
    s.ended tcOflag ids (.signal t) = (s.pc t).ends tcOflag t (s'.pc t) := by
  simp only [Tty.ended, hs]

omit [NeZero N] [DecidableEq τ] in
@[simp] theorem TxPc.result_wake {pc : TxPc N} {ret : Int} : (pc.wake ret).result = pc.result := by
  cases pc <;> rfl

omit [NeZero N] [DecidableEq τ] in
/-- A wait that ends fixes no result. -/
theorem TxPc.ends_wake {pc : TxPc N} {t : τ} {ret : Int} :
    pc.ends tcOflag t (pc.wake ret) = [] := by
  rw [TxPc.ends, TxPc.result_wake]
  cases pc.result <;> rfl

omit [NeZero N] [DecidableEq τ] in
@[simp] theorem TxPc.put_wake {pc : TxPc N} {ret : Int} :
    (pc.wake ret).put tcOflag = pc.put tcOflag := by
  cases pc <;> simp [TxPc.wake, TxPc.put]

omit [DecidableEq τ] in
theorem TxPc.At.put_eq_nil {pc : TxPc N} {dev : UartTx τ N} {phase : GuardPc.Phase}
    (h : pc.At tcOflag dev phase) (hphase : phase ≠ .inside) : pc.put tcOflag = [] := by
  cases pc with
  | loop | putCr | putCh => exact absurd h.1 hphase
  | _ => rfl

end Records

/-! ## What an action puts, it puts on record -/

section Produced

variable {τ : Type} {N : ℕ} [NeZero N] {tcOflag : UInt32} {t : τ} {pc pc' : TxPc N}
  {dev dev' : UartTx τ N} {w : Write} {left : List UInt8} {c : UInt8}

/-- A write that is cut short leaves a sound record. -/
theorem sound_shortWrite (t : τ) (hleft : left <:+ w.data) (hc : left.head? = some c)
    {bytes : List UInt8} (hbytes : bytes = output tcOflag (w.done left) ∨
      wantsCr tcOflag (outputChar tcOflag c) = true ∧
        bytes = output tcOflag (w.done left) ++ [carriageReturn]) :
    TxRecord.Sound tcOflag
      ⟨t, .write w, shortWrite w left (noRoom w.oktoblock), true, bytes⟩ := by
  have hdata := Write.done_append hleft
  refine Or.inr (Or.inr ⟨w.done left, c, left.tail, ?_, ?_, hbytes⟩)
  · rw [← List.eq_cons_of_mem_head? hc]
    exact hdata.symm
  · have hlen := congrArg List.length hdata
    rw [List.length_append] at hlen
    by_cases hnil : w.done left = []
    · rw [hnil, List.length_nil] at hlen
      have hge : ¬ left.length < w.data.length := by omega
      simp only [shortWrite, if_neg hge, if_pos hnil]
    · have hpos := List.length_pos_of_ne_nil hnil
      have hlt : left.length < w.data.length := by omega
      simp only [shortWrite, if_pos hlt, if_neg hnil]
      omega

variable (tcOflag t pc pc' dev dev') in
/-- **What the call of task `t` puts into the buffer between `pc` and `pc'` is on record**, or
still counts as put by the call. -/
structure Produced : Prop where
  wire : dev'.wire = dev.wire
  bytes : ∃ out, dev'.xmit.held = dev.xmit.held ++ out ∧
    (pc.ends tcOflag t pc').flatMap TxRecord.bytes ++ pc'.put tcOflag = pc.put tcOflag ++ out
  sound : ∀ e ∈ pc.ends tcOflag t pc', e.Sound tcOflag

/-- An action that puts nothing and fixes no result. -/
theorem Produced.silent (hwire : dev'.wire = dev.wire) (hxmit : dev'.xmit = dev.xmit)
    (hends : pc.ends tcOflag t pc' = []) (hput : pc'.put tcOflag = pc.put tcOflag) :
    Produced tcOflag t pc pc' dev dev' := by
  refine ⟨hwire, ⟨[], ?_, ?_⟩, ?_⟩
  · rw [hxmit, List.append_nil]
  · rw [hends, hput, List.append_nil]
    rfl
  · rw [hends]
    exact List.forall_mem_nil _

/-- An action that fixes the result of the call. -/
theorem Produced.record (hwire : dev'.wire = dev.wire) (hxmit : dev'.xmit = dev.xmit)
    {r : TxOp × Int} (hold : pc.result = none) (hres : pc'.result = some r)
    (hput : pc'.put tcOflag = [])
    (hsound : TxRecord.Sound tcOflag ⟨t, r.1, r.2, pc'.locked, pc.put tcOflag⟩) :
    Produced tcOflag t pc pc' dev dev' := by
  have hends : pc.ends tcOflag t pc' = [⟨t, r.1, r.2, pc'.locked, pc.put tcOflag⟩] := by
    rw [TxPc.ends, hold, hres]
  refine ⟨hwire, ⟨[], ?_, ?_⟩, ?_⟩
  · rw [hxmit, List.append_nil]
  · rw [hends, hput]
    simp
  · rw [hends]
    intro e he
    rw [List.mem_singleton.mp he]
    exact hsound

/-- An action of `uart_putxmitchar`. -/
theorem Produced.put {p p' : PutPc N} {ch : UInt8} {f : PutPc N → TxPc N} {done : List UInt8}
    (hf : ∀ p, (f p).put tcOflag = done ++ p.stored ch) (hres : ∀ p, (f p).result = none)
    (hp : p.result = none) (hwire : dev'.wire = dev.wire)
    (hheld : dev'.xmit.held = dev.xmit.held ++ p'.stored ch) :
    Produced tcOflag t (f p) (f p') dev dev' := by
  have hends : (f p).ends tcOflag t (f p') = [] := by rw [TxPc.ends, hres, hres]
  have hstored : p.stored ch = [] := by rw [PutPc.stored, hp]; rfl
  refine ⟨hwire, ⟨p'.stored ch, hheld, ?_⟩, ?_⟩
  · rw [hends, hf, hf, hstored, List.append_nil]
    rfl
  · rw [hends]
    exact List.forall_mem_nil _

section PutResult

variable {p : PutPc N} {ret : Int} {ch : UInt8} {oktoblock : Bool}

/-- A call of `uart_putxmitchar` that fails has put nothing. -/
theorem PutPc.At.failed (h : p.At dev ch oktoblock) (hp : p.result = some ret) (hneg : ret < 0) :
    ret = noRoom oktoblock ∧ p.stored ch = [] := by
  cases p with
  | done r =>
    obtain rfl := Option.some.inj hp
    refine ⟨h.resolve_left hneg.ne, if_neg fun he => hneg.ne (Option.some.inj he)⟩
  | _ => cases hp

/-- A call of `uart_putxmitchar` that does not fail has put the character. -/
theorem PutPc.At.stored_of_done (h : p.At dev ch oktoblock) (hp : p.result = some ret)
    (hpos : ¬ ret < 0) : p.stored ch = [ch] := by
  cases p with
  | done r =>
    obtain rfl := Option.some.inj hp
    rcases h with rfl | rfl
    · exact if_pos rfl
    · exact absurd (noRoom_neg oktoblock) hpos
  | _ => cases hp

end PutResult

end Produced

section Produces

variable {τ : Type} {N : ℕ} [NeZero N] [DecidableEq τ] {tcOflag : UInt32} {ids : Tasks τ}
  {s s' : Tty τ N} {t : τ}

/-- An action of `uart_putxmitchar` puts its character when it publishes it. -/
theorem Driven.put_held (h : Driven tcOflag ids s) (hin : (s.guard.pc t).phase = .inside)
    {f : PutPc N → TxPc N} {p : PutPc N} (hpc : s.pc t = f p) {ch : UInt8} {oktoblock : Bool}
    (hp : p.At s.dev ch oktoblock) (hasleep : ∀ p', (f p').asleep = true ↔ p' = .asleep)
    {r : UartTx τ N × PutPc N} (hr : uartPutxmitchar ids t ch oktoblock s.dev p = some r) :
    r.1.wire = s.dev.wire ∧ r.1.xmit.held = s.dev.xmit.held ++ r.2.stored ch := by
  have hold : (s.pc t).asleep = false := hpc ▸ not_asleep_of_put hasleep hr
  obtain ⟨-, hwire, hheld, -⟩ := uartPutxmitchar_spec ids t hp (h.free hin hold) hr
  exact ⟨hwire, hheld⟩

/-- **What an action of a call puts into the buffer, it puts on record**, or it still counts as put
by the call. -/
theorem Driven.produces (h : Driven tcOflag ids s) (hstep : TxStep tcOflag ids s t s') :
    Produced tcOflag t (s.pc t) (s'.pc t) s.dev s'.dev := by
  cases hstep with
  | lock hpc | write hpc | drain hpc | drained hpc | drainAgain hpc | unlocked hpc =>
    simp only [hpc, Tty.pc_goto_self]
    exact .silent rfl rfl rfl rfl
  | locking hpc | unlocking hpc =>
    simp only [hpc]
    exact .silent rfl rfl rfl rfl
  | @begun w hpc =>
    simp only [hpc, Tty.pc_goto_self]
    refine .silent rfl rfl rfl ?_
    show output tcOflag (w.done w.data) = []
    rw [Write.done_data]
    rfl
  | @loopEnd w hpc =>
    rw [hpc, Tty.pc_goto_self]
    refine .record rfl rfl rfl rfl rfl (Or.inr (Or.inl ⟨rfl, ?_⟩))
    show output tcOflag (w.done []) = _
    rw [Write.done_nil]
  | loopCr hpc =>
    rw [hpc, Tty.pc_goto_self]
    exact .silent rfl rfl rfl (List.append_nil _)
  | @loopCh w c rest hpc hcr =>
    rw [hpc, Tty.pc_goto_self]
    refine .silent rfl rfl rfl ?_
    show output tcOflag (w.done (c :: rest)) ++ crBefore tcOflag (outputChar tcOflag c) ++ [] = _
    rw [crBefore, if_neg hcr, List.append_nil, List.append_nil]
    rfl
  | putCr hpc hres hr =>
    obtain ⟨hin, -, -, -, hp⟩ := h.fits hpc
    obtain ⟨hwire, hheld⟩ := h.put_held hin hpc hp asleep_putCr hr
    simp only [hpc, Tty.pc_goto_self]
    exact .put (fun _ => rfl) (fun _ => rfl) hres hwire hheld
  | @failedCr w left ch p ret hpc hres hneg =>
    obtain ⟨-, hleft, ⟨c, hc, rfl⟩, -, hp⟩ := h.fits hpc
    obtain ⟨rfl, hstored⟩ := hp.failed hres hneg
    rw [hpc, Tty.pc_goto_self]
    refine .record rfl rfl rfl rfl rfl (sound_shortWrite t hleft hc (Or.inl ?_))
    show output tcOflag (w.done left) ++ p.stored carriageReturn = _
    rw [hstored, List.append_nil]
  | @doneCr w left ch p ret hpc hres hpos =>
    obtain ⟨-, -, -, hcr, hp⟩ := h.fits hpc
    rw [hpc, Tty.pc_goto_self]
    refine .silent rfl rfl rfl ?_
    show output tcOflag (w.done left) ++ crBefore tcOflag ch ++ [] =
      output tcOflag (w.done left) ++ p.stored carriageReturn
    rw [crBefore, if_pos hcr, hp.stored_of_done hres hpos, List.append_nil]
  | putCh hpc hres hr =>
    obtain ⟨hin, -, -, hp⟩ := h.fits hpc
    obtain ⟨hwire, hheld⟩ := h.put_held hin hpc hp asleep_putCh hr
    simp only [hpc, Tty.pc_goto_self]
    exact .put (fun _ => rfl) (fun _ => rfl) hres hwire hheld
  | @failedCh w left ch p ret hpc hres hneg =>
    obtain ⟨-, hleft, ⟨c, hc, rfl⟩, hp⟩ := h.fits hpc
    obtain ⟨rfl, hstored⟩ := hp.failed hres hneg
    rw [hpc, Tty.pc_goto_self]
    refine .record rfl rfl rfl rfl rfl (sound_shortWrite t hleft hc ?_)
    show output tcOflag (w.done left) ++ crBefore tcOflag (outputChar tcOflag c) ++
      p.stored (outputChar tcOflag c) = _ ∨ _ ∧ output tcOflag (w.done left) ++
        crBefore tcOflag (outputChar tcOflag c) ++ p.stored (outputChar tcOflag c) = _
    rw [hstored, List.append_nil, crBefore]
    split
    · rename_i hcr
      exact Or.inr ⟨hcr, rfl⟩
    · exact Or.inl (List.append_nil _)
  | @doneCh w left ch p ret hpc hres hpos =>
    obtain ⟨-, hleft, ⟨c, hc, rfl⟩, hp⟩ := h.fits hpc
    rw [hpc, Tty.pc_goto_self]
    refine .silent rfl rfl rfl ?_
    show output tcOflag (w.done left.tail) = output tcOflag (w.done left) ++
      crBefore tcOflag (outputChar tcOflag c) ++ p.stored (outputChar tcOflag c)
    rw [Write.done_tail hleft hc, output_snoc, hp.stored_of_done hres hpos]
  | closing hpc =>
    simp only [hpc, Tty.pc_goto_self]
    split <;> exact .silent rfl rfl rfl rfl
  | drainWait hpc =>
    have hold : (s.pc t).asleep = false := by rw [hpc]; rfl
    obtain ⟨hxmit, hwire, -⟩ := waitSent_spec ids t (h.free (h.fits hpc) hold)
    simp only [hpc, Tty.pc_goto_self]
    cases (waitSent ids t s.dev).2 <;> exact .silent hwire hxmit rfl rfl
  | @drainEnded ret hpc hneg =>
    obtain rfl : ret = -eintr := (h.fits hpc).2.resolve_left hneg.ne
    simp only [hpc, Tty.pc_goto_self]
    exact .record rfl rfl rfl rfl rfl ⟨rfl, Or.inr (Or.inl rfl)⟩

/-- Only the call that is inside touches the device, or has its result fixed by an action. -/
theorem Driven.outside (h : Driven tcOflag ids s) (hstep : TxStep tcOflag ids s t s')
    (hout : (s.guard.pc t).phase ≠ .inside) :
    s'.dev = s.dev ∧ (s.pc t).ends tcOflag t (s'.pc t) = [] := by
  cases hstep with
  | lock hpc | unlocked hpc =>
    refine ⟨rfl, ?_⟩
    simp only [hpc, Tty.pc_goto_self]
    rfl
  | locking hpc | unlocking hpc =>
    refine ⟨rfl, ?_⟩
    simp only [hpc]
    rfl
  | write _ hin | drain _ hin => exact absurd hin hout
  | begun hpc | closing hpc | drained hpc | drainWait hpc => exact absurd (h.fits hpc) hout
  | loopEnd hpc | loopCr hpc | loopCh hpc | putCr hpc | failedCr hpc | doneCr hpc | putCh hpc
    | failedCh hpc | doneCh hpc | drainEnded hpc | drainAgain hpc =>
    exact absurd (h.fits hpc).1 hout

end Produces

/-! ## The records account for every byte -/

section Stream

variable {τ : Type} {N : ℕ} [NeZero N] [DecidableEq τ] (tcOflag : UInt32) {ids : Tasks τ}
  {s s' : Tty τ N} {t : τ} {log log' : List (TxRecord τ)} {gone out : List UInt8}

omit [DecidableEq τ] in
/-- **The records account for every byte.** What is `gone` from the buffer and what it holds are, in
order, the bytes of the records, followed by what the call inside `xmit.lock` has put so far. What
is on the wire is what is gone, less what `TCOFLUSH` has discarded. -/
structure Stream (s : Tty τ N) (log : List (TxRecord τ)) (gone : List UInt8) : Prop where
  wire : s.dev.wire.Sublist gone
  sent : (∀ e ∈ log, e.op ≠ .flush) → gone = s.dev.wire
  inside : ∀ t, (s.guard.pc t).phase = .inside →
    gone ++ s.dev.xmit.held = log.flatMap TxRecord.bytes ++ (s.pc t).put tcOflag
  quiet : (∀ t, (s.guard.pc t).phase ≠ .inside) →
    gone ++ s.dev.xmit.held = log.flatMap TxRecord.bytes
  sound : ∀ e ∈ log, e.Sound tcOflag

variable {tcOflag}

/-- **A call goes on.** -/
theorem Stream.own (hst : Stream tcOflag s log gone) (h : Driven tcOflag ids s)
    (h' : Driven tcOflag ids s')
    (hothers : ∀ u, u ≠ t → s'.pc u = s.pc u ∧ (s'.guard.pc u).phase = (s.guard.pc u).phase)
    (hprod : Produced tcOflag t (s.pc t) (s'.pc t) s.dev s'.dev)
    (hframe : (s.guard.pc t).phase ≠ .inside →
      s'.dev = s.dev ∧ ((s.pc t).ends tcOflag t (s'.pc t)).flatMap TxRecord.bytes = []) :
    Stream tcOflag s' (log ++ (s.pc t).ends tcOflag t (s'.pc t)) gone := by
  obtain ⟨out, hheld, hbytes⟩ := hprod.bytes
  have hself : gone ++ s.dev.xmit.held = log.flatMap TxRecord.bytes ++ (s.pc t).put tcOflag →
      gone ++ s'.dev.xmit.held = (log ++ (s.pc t).ends tcOflag t (s'.pc t)).flatMap
        TxRecord.bytes ++ (s'.pc t).put tcOflag := by
    intro heq
    calc gone ++ s'.dev.xmit.held = gone ++ s.dev.xmit.held ++ out := by
          rw [hheld, List.append_assoc]
      _ = log.flatMap TxRecord.bytes ++ ((s.pc t).put tcOflag ++ out) := by
          rw [heq, List.append_assoc]
      _ = _ := by rw [← hbytes, List.flatMap_append, List.append_assoc]
  have hout : (s.guard.pc t).phase ≠ .inside → (∀ u, u ≠ t → (s.guard.pc u).phase ≠ .inside) →
      gone ++ s.dev.xmit.held = log.flatMap TxRecord.bytes ++ (s.pc t).put tcOflag := by
    intro ht hu
    rw [(h.task t).put_eq_nil ht, List.append_nil]
    apply hst.quiet
    intro u
    by_cases hut : u = t
    · exact hut ▸ ht
    · exact hu u hut
  refine ⟨?_, fun hflush => ?_, fun u hu => ?_, fun hnone => ?_, fun e he => ?_⟩
  · rw [hprod.wire]
    exact hst.wire
  · rw [hprod.wire]
    exact hst.sent fun e he => hflush e (List.mem_append_left _ he)
  · by_cases hut : u = t
    · subst hut
      by_cases ht : (s.guard.pc u).phase = .inside
      · exact hself (hst.inside u ht)
      · refine hself (hout ht fun v hv hin => ?_)
        exact hv (h'.inside_unique hu ((hothers v hv).2.trans hin))
    · have hin : (s.guard.pc u).phase = .inside := (hothers u hut).2 ▸ hu
      have ht : (s.guard.pc t).phase ≠ .inside := fun ht => hut (h.inside_unique ht hin)
      obtain ⟨hdev, hends⟩ := hframe ht
      rw [hdev, List.flatMap_append, hends, List.append_nil, (hothers u hut).1]
      exact hst.inside u hin
  · have hput : (s'.pc t).put tcOflag = [] := (h'.task t).put_eq_nil (hnone t)
    have hothers' : ∀ u, u ≠ t → (s.guard.pc u).phase ≠ .inside := fun u hu =>
      (hothers u hu).2 ▸ hnone u
    have heq : gone ++ s.dev.xmit.held =
        log.flatMap TxRecord.bytes ++ (s.pc t).put tcOflag := by
      by_cases ht : (s.guard.pc t).phase = .inside
      · exact hst.inside t ht
      · exact hout ht hothers'
    have hsum := hself heq
    rwa [hput, List.append_nil] at hsum
  · rcases List.mem_append.mp he with he | he
    · exact hst.sound e he
    · exact hprod.sound e he

omit [DecidableEq τ] in
/-- **A consumer takes `out` from the buffer.** -/
theorem Stream.takes (hst : Stream tcOflag s log gone) (hguard : s'.guard = s.guard)
    (hput : ∀ u, (s'.pc u).put tcOflag = (s.pc u).put tcOflag)
    (ht : s.dev.xmit.Takes out s'.dev.xmit)
    (hwire : s'.dev.wire.Sublist (gone ++ out))
    (hsent : (∀ e ∈ log ++ log', e.op ≠ .flush) → gone ++ out = s'.dev.wire)
    (hbytes : log'.flatMap TxRecord.bytes = []) (hsound : ∀ e ∈ log', e.Sound tcOflag) :
    Stream tcOflag s' (log ++ log') (gone ++ out) := by
  have hheld : gone ++ out ++ s'.dev.xmit.held = gone ++ s.dev.xmit.held := by
    rw [ht.held, List.append_assoc]
  have hlog : (log ++ log').flatMap TxRecord.bytes = log.flatMap TxRecord.bytes := by
    rw [List.flatMap_append, hbytes, List.append_nil]
  refine ⟨hwire, hsent, fun u hu => ?_, fun hnone => ?_, fun e he => ?_⟩
  · rw [hheld, hlog, hput]
    exact hst.inside u (hguard ▸ hu)
  · rw [hheld, hlog]
    exact hst.quiet fun u => hguard ▸ hnone u
  · exact (List.mem_append.mp he).elim (hst.sound e) (hsound e)

omit [DecidableEq τ] in
/-- Nothing moves that the records account for. -/
theorem Stream.frame (hst : Stream tcOflag s log gone) (hguard : s'.guard = s.guard)
    (hput : ∀ u, (s'.pc u).put tcOflag = (s.pc u).put tcOflag)
    (hxmit : s'.dev.xmit = s.dev.xmit) (hwire : s'.dev.wire = s.dev.wire) :
    Stream tcOflag s' (log ++ []) gone := by
  rw [List.append_nil]
  refine ⟨hwire ▸ hst.wire, fun hflush => ?_, fun u hu => ?_, fun hnone => ?_, hst.sound⟩
  · rw [hwire]
    exact hst.sent hflush
  · rw [hxmit, hput]
    exact hst.inside u (hguard ▸ hu)
  · rw [hxmit]
    exact hst.quiet (hguard ▸ hnone)

omit [NeZero N] in
/-- A task moves to where its call has put the same bytes. -/
theorem Tty.put_goto {pc : TxPc N} (h : pc.put tcOflag = (s.pc t).put tcOflag) (u : τ) :
    ((s.goto t pc).pc u).put tcOflag = (s.pc u).put tcOflag := by
  by_cases hu : u = t
  · rw [hu, Tty.pc_goto_self, h]
  · rw [s.pc_goto_of_ne pc hu]

/-- `TCOFLUSH` discards what the buffer holds. -/
theorem Stream.flush (hst : Stream tcOflag s log gone) (h : Driven tcOflag ids s)
    (hpc : s.pc t = .entered .flush) :
    Stream tcOflag ((s.sent (uartDatasent ids.pid s.dev.flushed)).goto t (.returning .flush 0))
      (log ++ [⟨t, .flush, 0, false, []⟩]) (gone ++ s.dev.xmit.held) := by
  obtain ⟨-, hwake⟩ := h.sent s.dev.flushed (takes_tcoflush s.dev.xmit) rfl
  refine hst.takes rfl (fun u => ?_) (takes_tcoflush s.dev.xmit) ?_ (fun hflush => ?_) rfl ?_
  · rw [Tty.put_goto (by rw [hwake, hpc]; rfl), hwake, TxPc.put_wake]
  · exact hst.wire.trans (List.sublist_append_left _ _)
  · exact absurd rfl (hflush ⟨t, .flush, 0, false, []⟩ (by simp))
  · intro e he
    rw [List.mem_singleton.mp he]
    exact (rfl : ([] : List UInt8) = [])

/-- The transmit interrupt sends what it takes. -/
theorem Stream.interrupt (hN' : N < 2 ^ 16) (hst : Stream tcOflag s log gone) (ready : ℕ) :
    Stream tcOflag (s.sent (uartXmitchars ids.pid s.dev ready)) (log ++ [])
      (gone ++ (xmitLoop s.dev.xmit ready).2) := by
  obtain ⟨hxmit, hwire, -⟩ := uartXmitchars_dev ids.pid ready hN'
  have hput : ∀ u, ((s.sent (uartXmitchars ids.pid s.dev ready)).pc u).put tcOflag =
      (s.pc u).put tcOflag := by
    intro u
    show TxPc.put tcOflag (if _ then _ else _) = _
    split
    · exact TxPc.put_wake
    · rfl
  refine hst.takes rfl hput ?_ ?_ (fun hflush => ?_) rfl (List.forall_mem_nil _)
  · show s.dev.xmit.Takes _ (uartXmitchars ids.pid s.dev ready).1.xmit
    rw [hxmit]
    exact xmitLoop_takes s.dev.xmit ready
  · show List.Sublist (uartXmitchars ids.pid s.dev ready).1.wire _
    rw [hwire]
    exact hst.wire.append_right _
  · show _ = (uartXmitchars ids.pid s.dev ready).1.wire
    rw [hwire, hst.sent fun e he => hflush e (List.mem_append_left _ he)]

/-- The busy wait of a drain is over. -/
theorem Stream.unlock (hst : Stream tcOflag s log gone) (h : Driven tcOflag ids s) {ret : Int}
    (h' : Driven tcOflag ids { s.goto t (.unlocking .drain ret) with guard := s.guard.unlock t })
    (hpc : s.pc t = .polling) (hret : ret = 0 ∨ ret = -etimedout) :
    Stream tcOflag { s.goto t (.unlocking .drain ret) with guard := s.guard.unlock t }
      (log ++ (s.pc t).ends tcOflag t ((s.goto t (.unlocking .drain ret)).pc t)) gone := by
  refine hst.own h h' (fun u hu => ⟨s.pc_goto_of_ne _ hu, ?_⟩) ?_
    fun hout => absurd (h.fits hpc).1 hout
  · exact congrArg GuardPc.phase (Guard.pc_goto_of_ne _ hu)
  · simp only [hpc, Tty.pc_goto_self]
    exact .record rfl rfl rfl rfl rfl ⟨rfl, hret.imp_right Or.inr⟩

/-- `nxmutex_lock` is refused. -/
theorem Stream.refused (hst : Stream tcOflag s log gone) (h : Driven tcOflag ids s) {op : TxOp}
    (h' : Driven tcOflag ids
      { s.goto t (.returning op (-eintr)) with guard := s.guard.goto t .out })
    (hpc : s.pc t = .locking op) :
    Stream tcOflag { s.goto t (.returning op (-eintr)) with guard := s.guard.goto t .out }
      (log ++ (s.pc t).ends tcOflag t ((s.goto t (.returning op (-eintr))).pc t)) gone := by
  refine hst.own h h' (fun u hu => ⟨s.pc_goto_of_ne _ hu, ?_⟩) ?_ fun _ => ⟨rfl, ?_⟩
  · exact congrArg GuardPc.phase (Guard.pc_goto_of_ne _ hu)
  · simp only [hpc, Tty.pc_goto_self]
    refine .record rfl rfl rfl rfl rfl ?_
    have hop := (h.fits hpc).2
    cases op with
    | write w => exact Or.inl ⟨rfl, rfl, rfl⟩
    | drain => exact ⟨rfl, Or.inr (Or.inl rfl)⟩
    | flush | echo => exact hop.elim
  · simp only [hpc, Tty.pc_goto_self]
    rfl

/-- **Every step keeps the account.** -/
theorem Stream.step (hN' : N < 2 ^ 16) (hst : Stream tcOflag s log gone)
    (h : Driven tcOflag ids s) (h' : Driven tcOflag ids s') {l : TtyLabel τ}
    (hs : tty tcOflag ids s l = some s') :
    ∃ gone', Stream tcOflag s' (log ++ s.ended tcOflag ids l) gone' := by
  cases l with
  | step t =>
    rw [Tty.ended_step hs]
    rcases h.txStep hs with ⟨hflush, rfl⟩ | hstep
    · rw [hflush, Tty.pc_goto_self]
      exact ⟨_, hst.flush h hflush⟩
    · refine ⟨gone, hst.own h h' (fun _ => hstep.of_ne) (h.produces hstep) fun hout => ?_⟩
      obtain ⟨hdev, hends⟩ := h.outside hstep hout
      exact ⟨hdev, by rw [hends]; rfl⟩
  | poll t txempty elapsed =>
    rw [Tty.ended_poll hs]
    obtain ⟨hpc, rfl | ⟨ret, hret, rfl⟩⟩ := tty_poll_eq_some hs
    · rw [hpc]
      exact ⟨gone, hst.frame rfl (fun _ => rfl) rfl rfl⟩
    · exact ⟨gone, hst.unlock h h' hpc hret⟩
  | call t op =>
    obtain ⟨hpc, rfl⟩ := tty_call_eq_some hs
    exact ⟨gone, hst.frame rfl (Tty.put_goto (by rw [hpc]; rfl)) rfl rfl⟩
  | ret t =>
    obtain ⟨op, ret, hpc, rfl⟩ := tty_ret_eq_some hs
    exact ⟨gone, hst.frame rfl (Tty.put_goto (by rw [hpc]; rfl)) rfl rfl⟩
  | interrupt ready => exact tty_interrupt_eq_some hs ▸ ⟨_, hst.interrupt hN' ready⟩
  | signal t =>
    rw [Tty.ended_signal hs]
    rcases tty_signal_eq_some hs with ⟨-, rfl⟩ | ⟨op, mutex, hpc, -, rfl⟩
    · dsimp only
      rw [Tty.pc_goto_self, TxPc.ends_wake]
      exact ⟨gone, hst.frame rfl (Tty.put_goto TxPc.put_wake) rfl rfl⟩
    · exact ⟨gone, hst.refused h h' hpc⟩

end Stream

/-! ## The records are what the callers are told -/

section Answers

variable {τ : Type} {N : ℕ} [NeZero N] [DecidableEq τ] {tcOflag : UInt32} {ids : Tasks τ}
  {s s' : Tty τ N} {t : τ} {log : List (TxRecord τ)} {es : List (τ × TxOp × Int)}

omit [NeZero N] [DecidableEq τ] in
/-- The returns that a step shows the callers. -/
def Tty.returned (s : Tty τ N) : TtyLabel τ → List (τ × TxOp × Int)
  | .ret t => (s.pc t).result.toList.map fun r => (t, r)
  | _ => []

omit [NeZero N] in
/-- **The records of each task are what its calls returned**, in order, and what the call under way
is about to return. -/
def Answers (s : Tty τ N) (log : List (TxRecord τ)) (es : List (τ × TxOp × Int)) : Prop :=
  ∀ t, (log.filter fun e => e.task = t).map (fun e => (e.op, e.ret)) =
    (es.filter fun e => e.1 = t).map Prod.snd ++ (s.pc t).result.toList

/-- A result that is fixed stays, and the call goes on to release the lock. -/
theorem TxStep.result {r : TxOp × Int} (hstep : TxStep tcOflag ids s t s')
    (hr : (s.pc t).result = some r) :
    (s'.pc t).result = some r ∧ ∀ w ret, s'.pc t ≠ .closing w ret := by
  cases hstep with
  | closing hpc | unlocked hpc =>
    rw [hpc] at hr
    simp only [Tty.pc_goto_self]
    exact ⟨hr, fun _ _ he => by cases he⟩
  | unlocking hpc =>
    rw [hpc] at hr
    simp only [hpc]
    exact ⟨hr, fun _ _ he => by cases he⟩
  | lock hpc | locking hpc | write hpc | drain hpc | begun hpc | loopEnd hpc | loopCr hpc
    | loopCh hpc | putCr hpc | failedCr hpc | doneCr hpc | putCh hpc | failedCh hpc | doneCh hpc
    | drained hpc | drainWait hpc | drainEnded hpc | drainAgain hpc =>
    rw [hpc] at hr
    cases hr

omit [NeZero N] in
theorem Tty.result_sent (s : Tty τ N) (r : UartTx τ N × List τ) (u : τ) :
    ((s.sent r).pc u).result = (s.pc u).result := by
  show TxPc.result (if _ then _ else _) = _
  split
  · exact TxPc.result_wake
  · rfl

omit [NeZero N] in
/-- A call goes on, and keeps its result if it has one. -/
theorem Answers.own (h : Answers s log es)
    (hothers : ∀ u, u ≠ t → (s'.pc u).result = (s.pc u).result)
    (hkeep : ∀ r, (s.pc t).result = some r → (s'.pc t).result = some r) :
    Answers s' (log ++ (s.pc t).ends tcOflag t (s'.pc t)) es := by
  intro u
  rw [List.filter_append, List.map_append, h u]
  by_cases hu : u = t
  · subst hu
    cases hres : (s.pc u).result with
    | none =>
      cases hres' : (s'.pc u).result with
      | none => simp [TxPc.ends, hres, hres']
      | some r => simp [TxPc.ends, hres, hres']
    | some r => simp [TxPc.ends, hres, hkeep r hres]
  · have hends : ((s.pc t).ends tcOflag t (s'.pc t)).filter (fun e => e.task = u) = [] := by
      unfold TxPc.ends
      split
      · simp [Ne.symm hu]
      · rfl
    rw [hends, hothers u hu]
    simp

/-- **Every step keeps the answers.** -/
theorem Answers.step (h : Answers s log es) (hdriven : Driven tcOflag ids s) {l : TtyLabel τ}
    (hs : tty tcOflag ids s l = some s') :
    Answers s' (log ++ s.ended tcOflag ids l) (es ++ s.returned l) := by
  have hsame : (∀ u, (s'.pc u).result = (s.pc u).result) → Answers s' (log ++ []) (es ++ []) := by
    intro heq u
    rw [List.append_nil, List.append_nil, heq]
    exact h u
  cases l with
  | step t =>
    rw [Tty.ended_step hs, show s.returned (.step t) = [] from rfl, List.append_nil]
    rcases hdriven.txStep hs with ⟨hflush, rfl⟩ | hstep
    · refine h.own (fun u hu => ?_) fun r hr => by rw [hflush] at hr; cases hr
      rw [Tty.pc_goto_of_ne _ _ hu, Tty.result_sent]
    · exact h.own (fun u hu => by rw [(hstep.of_ne hu).1]) fun r hr => (hstep.result hr).1
  | poll t txempty elapsed =>
    rw [Tty.ended_poll hs, show s.returned (.poll t txempty elapsed) = [] from rfl, List.append_nil]
    obtain ⟨hpc, hs'⟩ := tty_poll_eq_some hs
    refine h.own (fun u hu => congrArg TxPc.result ?_) fun r hr => by rw [hpc] at hr; cases hr
    rcases hs' with rfl | ⟨ret, -, rfl⟩
    · rfl
    · exact s.pc_goto_of_ne _ hu
  | call t op =>
    obtain ⟨hpc, rfl⟩ := tty_call_eq_some hs
    refine hsame fun u => ?_
    by_cases hu : u = t
    · rw [hu, Tty.pc_goto_self, hpc]
      rfl
    · rw [s.pc_goto_of_ne _ hu]
  | ret t =>
    obtain ⟨op, ret, hpc, rfl⟩ := tty_ret_eq_some hs
    intro u
    have hret : s.returned (.ret t) = [(t, op, ret)] := by simp [Tty.returned, hpc, TxPc.result]
    rw [hret, show s.ended tcOflag ids (.ret t) = [] from rfl, List.append_nil, h u]
    by_cases hu : u = t
    · subst hu
      rw [hpc, Tty.pc_goto_self]
      simp [TxPc.result]
    · rw [s.pc_goto_of_ne _ hu]
      simp [Ne.symm hu]
  | interrupt ready =>
    obtain rfl := tty_interrupt_eq_some hs
    exact hsame fun u => s.result_sent _ u
  | signal t =>
    rw [Tty.ended_signal hs, show s.returned (.signal t) = [] from rfl, List.append_nil]
    rcases tty_signal_eq_some hs with ⟨-, rfl⟩ | ⟨op, mutex, hpc, -, rfl⟩
    · refine h.own (fun u hu => congrArg TxPc.result (s.pc_goto_of_ne _ hu)) fun r hr => ?_
      dsimp only
      rw [Tty.pc_goto_self, TxPc.result_wake]
      exact hr
    · refine h.own (fun u hu => congrArg TxPc.result (s.pc_goto_of_ne _ hu)) fun r hr => ?_
      rw [hpc] at hr
      cases hr

end Answers

/-- The hello task echoes a character while the camera is about to advance `xmit.head`. -/
def echoRace : List (TtyLabel Task) :=
  [[.call .camera (.write ⟨[1], true⟩)], .replicate 10 (.step .camera),
    [.call .hello (.echo [2])], .replicate 5 (.step .hello),
    .replicate 3 (.step .camera)].flatten

/-- Without `xmit.lock` an echo overwrites the byte of a write, which returns that it was written:
that nothing is echoed is needed. -/
example :
    (run (tty 0 launchTasks) (Tty.init : Tty Task 4) echoRace).map
      (fun s => (s.dev.wire, s.dev.xmit.held, (s.pc .camera).result)) =
        some ([], [2], some (.write ⟨[1], true⟩, 1)) := by
  decide

end CameraPipeline
