import CameraPipeline.Serial.Driver
import CameraPipeline.RingBuffer.Concurrent

/-!
# The control state of the transmit half

What holds of the device and of every call in every state of the driver, as long as the tasks have
one priority and nothing is echoed: one task at a time is between `nxmutex_lock` and
`nxmutex_unlock`, its local variables fit the device, and whoever is asleep on `xmitsem` finds the
buffer full and the transmit interrupt on. The interrupt and `TCOFLUSH` only take from the buffer,
and wake every sleeper when they do.

With one priority no task runs between the posts of `TCOFLUSH`. An echo takes no lock, and the
console echoes by default: a task may then be asleep with the interrupt off for good.

## Main definitions

* `UartBuffer.Takes b out b'`: a consumer took `out` from the buffer
* `Sem.Calm`: a semaphore with one waiter at most
* `PutPc.At`, `TxPc.At`: what the program counters stand for
* `Driven ids s`: the invariant of the driver

## Main results

* `uartPutxmitchar_spec`: the actions of `uart_putxmitchar`
* `Driven.step`: every step keeps the invariant
* `sleeper_is_served`: a task that waits for room is woken by the next interrupt that sends
* `echo_sleeps_unserved`: not so when a task echoes
-/

namespace CameraPipeline

open Data Systems

/-! ## The buffer -/

section Buffer

variable {N : ℕ} [NeZero N] {b b' : UartBuffer N} {out : List UInt8}

theorem UartBuffer.held_eq_nil_iff : b.held = [] ↔ b.head = b.tail := Data.held_eq_nil_iff

theorem UartBuffer.head_ne_tail (hN : 1 < N) (h : b.head + 1 = b.tail) : b.head ≠ b.tail := by
  intro he
  have hlen : b.held.length + 1 = N := Data.length_held_eq_iff.mpr h
  rw [UartBuffer.held_eq_nil_iff.mpr he] at hlen
  exact absurd hlen hN.ne

/-- A consumer took `out` from the buffer: it moved the tail, and nothing else. -/
structure UartBuffer.Takes (b : UartBuffer N) (out : List UInt8) (b' : UartBuffer N) : Prop where
  head : b'.head = b.head
  buffer : b'.buffer = b.buffer
  held : b.held = out ++ b'.held

theorem UartBuffer.Takes.refl (b : UartBuffer N) : b.Takes [] b := ⟨rfl, rfl, rfl⟩

/-- There is room in the buffer as long as only a consumer moves. -/
theorem UartBuffer.Takes.head_add_one_ne (h : b.Takes out b') (hb : b.head + 1 ≠ b.tail) :
    b'.head + 1 ≠ b'.tail := by
  intro hb'
  apply hb
  have hlen' : b'.held.length + 1 = N := Data.length_held_eq_iff.mpr hb'
  have hlen : b.held.length < N := Data.length_held_lt
  rw [h.held, List.length_append] at hlen
  have hfull : b.held.length + 1 = N := by
    rw [h.held, List.length_append]
    omega
  exact Data.length_held_eq_iff.mp hfull

/-- The loop of `uart_xmitchars` sends what it takes from the buffer. -/
theorem xmitLoop_takes (b : UartBuffer N) (ready : ℕ) :
    b.Takes (xmitLoop b ready).2 (xmitLoop b ready).1 := by
  induction ready generalizing b with
  | zero => exact .refl b
  | succ ready ih =>
    rw [xmitLoop]
    split
    · exact .refl b
    · rename_i hne
      have hrest := ih { b with tail := nextIndex b.tail }
      refine ⟨hrest.head, hrest.buffer, ?_⟩
      rw [List.cons_append, ← hrest.held, UartBuffer.held, held_eq_cons (Ne.symm hne),
        ← nextIndex_eq]
      rfl

theorem xmitLoop_of_nil {ready : ℕ} (h : (xmitLoop b ready).2 = []) :
    (xmitLoop b ready).1 = b := by
  cases ready with
  | zero => rfl
  | succ ready =>
    rw [xmitLoop] at h ⊢
    split at h
    · rename_i he
      rw [if_pos he]
    · cases h

theorem xmitLoop_ne_nil (hb : b.held ≠ []) {ready : ℕ} (hready : 0 < ready) :
    (xmitLoop b ready).2 ≠ [] := by
  obtain ⟨ready, rfl⟩ := Nat.exists_eq_succ_of_ne_zero hready.ne'
  have hne : b.head ≠ b.tail := fun he => hb (UartBuffer.held_eq_nil_iff.mpr he)
  rw [xmitLoop, if_neg hne]
  exact List.cons_ne_nil _ _

/-- What one interrupt sends is counted without overflow. -/
theorem nbytes_eq_zero_iff (hN : N < 2 ^ 16) (h : b.Takes out b') :
    UInt16.ofNat out.length = 0 ↔ out = [] := by
  have hlen : b.held.length < N := Data.length_held_lt
  rw [h.held, List.length_append] at hlen
  rw [← UInt16.toNat_inj, UInt16.toNat_ofNat_of_lt' (by show _ < 2 ^ 16; omega),
    ← List.length_eq_zero_iff]
  rfl

end Buffer

/-! ## The semaphore -/

section Semaphore

variable {τ : Type} {N : ℕ}

/-- Nobody waits, and at most one post is stored. -/
def Sem.Free (sem : Sem τ) : Prop := sem.waitlist = [] ∧ (sem.val = 0 ∨ sem.val = 1)

/-- One task waits. -/
def Sem.AwaitedBy (sem : Sem τ) (t : τ) : Prop := sem.waitlist = [t] ∧ sem.val = 0xffffffff

/-- At most one task waits. -/
def Sem.Calm (sem : Sem τ) : Prop := sem.Free ∨ ∃ t, sem.AwaitedBy t

theorem Sem.Calm.free {sem : Sem τ} (h : sem.Calm) (hq : sem.waitlist = []) : sem.Free := by
  rcases h with h | ⟨t, ht, -⟩
  · exact h
  · rw [hq] at ht
    cases ht

/-- `uart_wakeup` wakes whoever waits, and stores one post. -/
theorem uartWakeup_eq (pid : τ → UInt32) {sem : Sem τ} (h : sem.Calm) :
    uartWakeup pid sem = ({ sem with val := 1, waitlist := [] }, sem.waitlist) := by
  obtain ⟨val, flags, waitlist⟩ := sem
  rcases h with ⟨rfl, rfl | rfl⟩ | ⟨t, rfl, rfl⟩
  · rfl
  · rfl
  · have htwice : (1 - semcount 0xffffffff).toNat = 2 := by decide
    have hpost : nxsemPostAlone pid ⟨0xffffffff, flags, [t]⟩ = (⟨0, flags, []⟩, some t) := by
      have hneg : semcount 0xffffffff < 0 := by decide
      simp [nxsemPostAlone, wakeFirst, hneg]
    rw [uartWakeup, wakeupPosts, htwice, postTimes, hpost]
    rfl

/-- Among tasks of one priority no post makes the caller give way. -/
theorem postUntilSwitch_eq {ids : Pids τ} (hprio : ∀ t u, ids.prio t = ids.prio u) (me : τ)
    (sem : Sem τ) (n : ℕ) :
    postUntilSwitch ids me sem n =
      ((postTimes ids.pid sem n).1, (postTimes ids.pid sem n).2, none) := by
  induction n generalizing sem with
  | zero => rfl
  | succ n ih =>
    have hstay : ∀ woken : Option τ,
        woken.any (fun t => ids.prio me < ids.prio t) = false := by
      intro woken
      cases woken with
      | none => rfl
      | some t => simp [hprio me t]
    simp only [postUntilSwitch, postTimes, hstay, Bool.false_eq_true, if_false, ih]

theorem nxsemWaitIrq_free [DecidableEq τ] {sem : Sem τ} {t : τ} (h : sem.AwaitedBy t) :
    (nxsemWaitIrq sem t).Free := by
  obtain ⟨val, flags, waitlist⟩ := sem
  obtain ⟨rfl, rfl⟩ := h
  exact ⟨List.erase_cons_head t [], Or.inl (show (0xffffffff : UInt32) + 1 = 0 by decide)⟩

/-- `nxsem_wait` on a semaphore on which nobody waits: it takes the post that is stored, or the
task sleeps with the interrupt on. -/
theorem waitSent_spec (ids : Tasks τ) (me : τ) {dev : UartTx τ N} (h : dev.xmitsem.Free) :
    (waitSent ids me dev).1.xmit = dev.xmit ∧ (waitSent ids me dev).1.wire = dev.wire ∧
      ((waitSent ids me dev).2 = false ∧ (waitSent ids me dev).1.xmitsem.Free ∨
        (waitSent ids me dev).2 = true ∧ (waitSent ids me dev).1.txint = true ∧
          (waitSent ids me dev).1.xmitsem.AwaitedBy me) := by
  obtain ⟨xmit, ⟨val, flags, waitlist⟩, txint, wire⟩ := dev
  obtain ⟨rfl, rfl | rfl⟩ := h
  · exact ⟨rfl, rfl, Or.inr ⟨rfl, rfl, rfl, rfl⟩⟩
  · exact ⟨rfl, rfl, Or.inl ⟨rfl, rfl, Or.inl (show (1 : UInt32) - 1 = 0 by decide)⟩⟩

end Semaphore

/-! ## One character -/

section Put

variable {τ : Type} {N : ℕ} [NeZero N] {dev dev' : UartTx τ N} {ch : UInt8} {oktoblock : Bool}
  {p p' : PutPc N} {ret : Int}

/-- What `uart_putxmitchar` returns without having put the character. -/
def noRoom (oktoblock : Bool) : Int := if oktoblock then -eintr else -eagain

theorem noRoom_neg (oktoblock : Bool) : noRoom oktoblock < 0 := by cases oktoblock <;> decide

/-- How the local variables of `uart_putxmitchar` fit the device. -/
def PutPc.At (dev : UartTx τ N) (ch : UInt8) (oktoblock : Bool) : PutPc N → Prop
  | .top => True
  | .test nexthead => nexthead = dev.xmit.head + 1
  | .fill nexthead => nexthead = dev.xmit.head + 1 ∧ dev.xmit.head + 1 ≠ dev.xmit.tail
  | .publish nexthead =>
    nexthead = dev.xmit.head + 1 ∧ dev.xmit.head + 1 ≠ dev.xmit.tail ∧
      dev.xmit.buffer dev.xmit.head = ch
  | .full nexthead => nexthead = dev.xmit.head + 1 ∧ oktoblock = true
  | .asleep => dev.xmit.head + 1 = dev.xmit.tail ∧ dev.txint = true ∧ oktoblock = true
  | .woken ret => (ret = 0 ∨ ret = -eintr) ∧ oktoblock = true
  | .done ret => ret = 0 ∨ ret = noRoom oktoblock

/-- What the call has put into the buffer. -/
def PutPc.stored (ch : UInt8) (p : PutPc N) : List UInt8 := if p.result = some 0 then [ch] else []

omit [NeZero N] in
@[simp] theorem PutPc.stored_wake : (p.wake ret).stored ch = p.stored ch := by cases p <;> rfl

/-- A consumer does not disturb the call, and may wake it. -/
theorem PutPc.At.takes {out : List UInt8} (h : p.At dev ch oktoblock)
    (ht : dev.xmit.Takes out dev'.xmit) (hret : ret = 0 ∨ ret = -eintr) :
    (p.wake ret).At dev' ch oktoblock := by
  cases p with
  | top => trivial
  | test nexthead => exact h.trans (by rw [ht.head])
  | fill nexthead => exact ⟨h.1.trans (by rw [ht.head]), ht.head_add_one_ne h.2⟩
  | publish nexthead =>
    refine ⟨h.1.trans (by rw [ht.head]), ht.head_add_one_ne h.2.1, ?_⟩
    rw [ht.head, ht.buffer]
    exact h.2.2
  | full nexthead => exact ⟨h.1.trans (by rw [ht.head]), h.2⟩
  | asleep => exact ⟨hret, h.2.2⟩
  | woken ret => exact h
  | done ret => exact h

/-- **One action of `uart_putxmitchar`**, while nobody waits for `xmitsem`: its local variables
fit the device again, the buffer holds the character once the call has put it, and the caller is
the one that waits if the call is asleep. -/
theorem uartPutxmitchar_spec (ids : Tasks τ) (me : τ) (hp : p.At dev ch oktoblock)
    (hfree : dev.xmitsem.Free)
    (h : uartPutxmitchar ids me ch oktoblock dev p = some (dev', p')) :
    p'.At dev' ch oktoblock ∧ dev'.wire = dev.wire ∧
      dev'.xmit.held = dev.xmit.held ++ p'.stored ch ∧
      (p' ≠ .asleep ∧ dev'.xmitsem.Free ∨ p' = .asleep ∧ dev'.xmitsem.AwaitedBy me) := by
  cases p with
  | top =>
    obtain ⟨rfl, rfl⟩ := Prod.mk.inj (Option.some.inj h)
    exact ⟨nextIndex_eq _, rfl, (List.append_nil _).symm, Or.inl ⟨by simp, hfree⟩⟩
  | test nexthead =>
    rw [uartPutxmitchar] at h
    split_ifs at h with hroom hok
    · obtain ⟨rfl, rfl⟩ := Prod.mk.inj (Option.some.inj h)
      refine ⟨⟨hp, ?_⟩, rfl, (List.append_nil _).symm, Or.inl ⟨by simp, hfree⟩⟩
      rw [← show nexthead = dev.xmit.head + 1 from hp]
      exact hroom
    · obtain ⟨rfl, rfl⟩ := Prod.mk.inj (Option.some.inj h)
      exact ⟨⟨hp, hok⟩, rfl, (List.append_nil _).symm, Or.inl ⟨by simp, hfree⟩⟩
    · obtain ⟨rfl, rfl⟩ := Prod.mk.inj (Option.some.inj h)
      refine ⟨Or.inr ?_, rfl, (List.append_nil _).symm, Or.inl ⟨by simp, hfree⟩⟩
      rw [noRoom, if_neg hok]
  | fill nexthead =>
    obtain ⟨rfl, rfl⟩ := Prod.mk.inj (Option.some.inj h)
    refine ⟨⟨hp.1, hp.2, Function.update_self _ _ _⟩, rfl, ?_, Or.inl ⟨by simp, hfree⟩⟩
    exact (Data.held_store ch).trans (List.append_nil _).symm
  | publish nexthead =>
    obtain ⟨rfl, rfl⟩ := Prod.mk.inj (Option.some.inj h)
    obtain ⟨rfl, hroom, rfl⟩ := hp
    exact ⟨Or.inl rfl, rfl, Data.held_advance hroom, Or.inl ⟨by simp, hfree⟩⟩
  | full nexthead =>
    obtain ⟨hnext, hok⟩ := hp
    rw [uartPutxmitchar] at h
    split_ifs at h with hroom
    · obtain ⟨rfl, rfl⟩ := Prod.mk.inj (Option.some.inj h)
      exact ⟨trivial, rfl, (List.append_nil _).symm, Or.inl ⟨by simp, hfree⟩⟩
    · obtain ⟨rfl, rfl⟩ := Prod.mk.inj (Option.some.inj h)
      obtain ⟨hxmit, hwire, ⟨hnot, hsem⟩ | ⟨hslept, htx, hsem⟩⟩ := waitSent_spec ids me hfree
      · rw [hnot, if_neg Bool.false_ne_true, hxmit]
        exact ⟨trivial, hwire, (List.append_nil _).symm, Or.inl ⟨by simp, hsem⟩⟩
      · rw [hslept, if_pos rfl]
        refine ⟨⟨?_, htx, hok⟩, hwire, ?_, Or.inr ⟨rfl, hsem⟩⟩
        · rw [hxmit, ← hnext]
          exact not_not.mp hroom
        · rw [hxmit]
          exact (List.append_nil _).symm
  | asleep | done => cases h
  | woken ret =>
    obtain ⟨rfl, rfl⟩ := Prod.mk.inj (Option.some.inj h)
    obtain ⟨rfl | rfl, hok⟩ := hp
    · exact ⟨trivial, rfl, (List.append_nil _).symm, Or.inl ⟨by simp, hfree⟩⟩
    · refine ⟨Or.inr ?_, rfl, (List.append_nil _).symm, Or.inl ⟨by simp [eintr], hfree⟩⟩
      rw [noRoom, if_pos hok]

end Put

/-! ## The calls -/

section Calls

variable {τ : Type} {N : ℕ} [NeZero N] {tcOflag : UInt32} {dev dev' : UartTx τ N}
  {phase phase' : GuardPc.Phase} {pc : TxPc N} {ret : Int}

/-- The call takes `xmit.lock`. -/
def TxOp.locks : TxOp → Prop
  | .write _ | .drain => True
  | .flush | .echo _ => False

variable (tcOflag) in
/-- How a call fits the device, and how far its task is in `xmit.lock`. Nothing is echoed, and
nobody runs in the middle of `TCOFLUSH`. -/
def TxPc.At (dev : UartTx τ N) (phase : GuardPc.Phase) : TxPc N → Prop
  | .idle | .returning _ _ => phase = .out
  | .entered op => phase = .out ∧ ∀ chs, op ≠ .echo chs
  | .locking op => (phase = .locking ∨ phase = .inside) ∧ op.locks
  | .begun _ | .closing _ _ | .draining => phase = .inside
  | .loop w left => phase = .inside ∧ left <:+ w.data
  | .putCr w left ch p =>
    phase = .inside ∧ left <:+ w.data ∧ (∃ c, left.head? = some c ∧ ch = outputChar tcOflag c) ∧
      wantsCr tcOflag ch = true ∧ p.At dev carriageReturn w.oktoblock
  | .putCh w left ch p =>
    phase = .inside ∧ left <:+ w.data ∧ (∃ c, left.head? = some c ∧ ch = outputChar tcOflag c) ∧
      p.At dev ch w.oktoblock
  | .drainAsleep => phase = .inside ∧ dev.xmit.head ≠ dev.xmit.tail ∧ dev.txint = true
  | .drainWoken ret => phase = .inside ∧ (ret = 0 ∨ ret = -eintr)
  | .polling => phase = .inside ∧ dev.xmit.head = dev.xmit.tail
  | .flushing _ | .echoing _ _ => False
  | .unlocking _ _ => phase = .unlocking ∨ phase = .out

/-- A call that is not inside has no business with the device. -/
theorem TxPc.At.frame (h : pc.At tcOflag dev phase) (hphase : phase ≠ .inside) :
    pc.At tcOflag dev' phase := by
  cases pc with
  | idle | entered | returning | locking | begun | closing | draining | loop | drainWoken
    | unlocking => exact h
  | putCr | putCh | drainAsleep | polling => exact absurd h.1 hphase
  | flushing | echoing => exact h.elim

omit [NeZero N] in
theorem TxPc.wake_of_not_asleep (h : pc.asleep = false) : pc.wake ret = pc := by
  cases pc with
  | putCr w left ch p | putCh w left ch p =>
    cases p with
    | asleep => cases h
    | _ => rfl
  | echoing chs p =>
    cases p with
    | asleep => cases h
    | _ => rfl
  | drainAsleep => cases h
  | _ => rfl

omit [NeZero N] in
theorem TxPc.asleep_wake : (pc.wake ret).asleep = false := by
  cases pc with
  | putCr w left ch p | putCh w left ch p => cases p <;> rfl
  | echoing chs p => cases p <;> rfl
  | _ => rfl

/-- A task that is asleep is inside. -/
theorem TxPc.At.inside_of_asleep (h : pc.At tcOflag dev phase) (hs : pc.asleep = true) :
    phase = .inside := by
  cases pc with
  | putCr | putCh | drainAsleep => exact h.1
  | echoing => exact h.elim
  | _ => cases hs

/-- **A task that is asleep** finds bytes in the buffer and the interrupt on. -/
theorem TxPc.At.of_asleep (hN : 1 < N) (h : pc.At tcOflag dev phase) (hs : pc.asleep = true) :
    dev.xmit.head ≠ dev.xmit.tail ∧ dev.txint = true := by
  cases pc with
  | putCr w left ch p =>
    cases p with
    | asleep =>
      obtain ⟨-, -, -, -, hfull, htx, -⟩ := h
      exact ⟨UartBuffer.head_ne_tail hN hfull, htx⟩
    | _ => cases hs
  | putCh w left ch p =>
    cases p with
    | asleep =>
      obtain ⟨-, -, -, hfull, htx, -⟩ := h
      exact ⟨UartBuffer.head_ne_tail hN hfull, htx⟩
    | _ => cases hs
  | drainAsleep => exact h.2
  | echoing => exact h.elim
  | _ => cases hs

/-- A consumer does not disturb a call, and may wake it. -/
theorem TxPc.At.takes {out : List UInt8} (h : pc.At tcOflag dev phase)
    (ht : dev.xmit.Takes out dev'.xmit) (hret : ret = 0 ∨ ret = -eintr) :
    (pc.wake ret).At tcOflag dev' phase := by
  cases pc with
  | putCr w left ch p =>
    obtain ⟨hin, hleft, hch, hcr, hp⟩ := h
    exact ⟨hin, hleft, hch, hcr, hp.takes ht hret⟩
  | putCh w left ch p =>
    obtain ⟨hin, hleft, hch, hp⟩ := h
    exact ⟨hin, hleft, hch, hp.takes ht hret⟩
  | drainAsleep => exact ⟨h.1, hret⟩
  | polling =>
    refine ⟨h.1, UartBuffer.held_eq_nil_iff.mp ?_⟩
    have hempty : dev.xmit.held = [] := UartBuffer.held_eq_nil_iff.mpr h.2
    rw [ht.held] at hempty
    exact (List.append_eq_nil_iff.mp hempty).2
  | echoing => exact h.elim
  | _ => exact h

/-- The transmit interrupt is no concern of a task that is awake. -/
theorem TxPc.At.awake (h : pc.At tcOflag dev phase) (hs : pc.asleep = false)
    (hxmit : dev'.xmit = dev.xmit) : pc.At tcOflag dev' phase := by
  have htakes : dev.xmit.Takes [] dev'.xmit := by
    rw [hxmit]
    exact .refl dev.xmit
  have hwake := h.takes htakes (Or.inl rfl)
  rwa [TxPc.wake_of_not_asleep hs] at hwake

end Calls

/-! ## The interrupt -/

section Interrupt

variable {τ : Type} {N : ℕ} [NeZero N] {dev : UartTx τ N} (pid : τ → UInt32) (ready : ℕ)

omit [NeZero N] in
/-- `uart_datasent` wakes whoever waits, and touches nothing but the semaphore. -/
theorem uartDatasent_eq (h : dev.xmitsem.Calm) :
    uartDatasent pid dev =
      ({ dev with xmitsem := { dev.xmitsem with val := 1, waitlist := [] } },
        dev.xmitsem.waitlist) := by
  rw [uartDatasent, uartWakeup_eq pid h]

/-- What `uart_xmitchars` leaves before it tells the waiters: what it sent is gone from the buffer,
and the interrupt is off if nothing is left. -/
def UartTx.transmitted (dev : UartTx τ N) (ready : ℕ) : UartTx τ N :=
  let loop := xmitLoop dev.xmit ready
  { dev with
    xmit := loop.1, wire := dev.wire ++ loop.2
    txint := if loop.1.head = loop.1.tail then false else dev.txint }

/-- **`uart_xmitchars`** wakes whoever waits when it sent anything, and nobody otherwise. -/
theorem uartXmitchars_eq (hN : N < 2 ^ 16) :
    uartXmitchars pid dev ready =
      if (xmitLoop dev.xmit ready).2 = [] then (dev.transmitted ready, [])
      else uartDatasent pid (dev.transmitted ready) := by
  have hdev : (if (xmitLoop dev.xmit ready).1.head = (xmitLoop dev.xmit ready).1.tail then
      UartTx.setTxint { dev with
        xmit := (xmitLoop dev.xmit ready).1, wire := dev.wire ++ (xmitLoop dev.xmit ready).2 } false
      else { dev with
        xmit := (xmitLoop dev.xmit ready).1, wire := dev.wire ++ (xmitLoop dev.xmit ready).2 }) =
      dev.transmitted ready := by
    by_cases hempty : (xmitLoop dev.xmit ready).1.head = (xmitLoop dev.xmit ready).1.tail
    · simp only [UartTx.transmitted, UartTx.setTxint, if_pos hempty]
    · simp only [UartTx.transmitted, if_neg hempty]
  have hbytes := nbytes_eq_zero_iff hN (xmitLoop_takes dev.xmit ready)
  unfold uartXmitchars
  simp only [hdev]
  by_cases hsent : (xmitLoop dev.xmit ready).2 = []
  · rw [if_neg (not_not_intro (hbytes.mpr hsent)), if_pos hsent]
  · rw [if_pos (fun h => hsent (hbytes.mp h)), if_neg hsent]

/-- The device after the interrupt, but for its semaphore. -/
theorem uartXmitchars_dev (hN : N < 2 ^ 16) :
    (uartXmitchars pid dev ready).1.xmit = (xmitLoop dev.xmit ready).1 ∧
      (uartXmitchars pid dev ready).1.wire = dev.wire ++ (xmitLoop dev.xmit ready).2 ∧
      (uartXmitchars pid dev ready).1.txint = (dev.transmitted ready).txint := by
  rw [uartXmitchars_eq pid ready hN]
  split <;> exact ⟨rfl, rfl, rfl⟩

end Interrupt

/-! ## What a step does -/

section Steps

variable {τ : Type} {N : ℕ} [NeZero N] [DecidableEq τ] (tcOflag : UInt32) (ids : Tasks τ)
  (s : Tty τ N) (t : τ)

/-- **The actions of a call** that neither flushes nor echoes, one for each branch of `stepTx`. -/
inductive TxStep : Tty τ N → Prop
  | lock {op : TxOp} (hpc : s.pc t = .entered op) (hop : op.locks) :
      TxStep { s.goto t (.locking op) with guard := s.guard.lock t }
  | locking {op : TxOp} {g : Guard τ} (hpc : s.pc t = .locking op)
      (hin : (s.guard.pc t).phase ≠ .inside)
      (hg : s.guard.step ids.toPids ids.getTcb t = some g) : TxStep { s with guard := g }
  | write {w : Write} (hpc : s.pc t = .locking (.write w))
      (hin : (s.guard.pc t).phase = .inside) : TxStep (s.goto t (.begun w))
  | drain (hpc : s.pc t = .locking .drain) (hin : (s.guard.pc t).phase = .inside) :
      TxStep (s.goto t .draining)
  | begun {w : Write} (hpc : s.pc t = .begun w) :
      TxStep { s.goto t (.loop w w.data) with dev := s.dev.setTxint false }
  | loopEnd {w : Write} (hpc : s.pc t = .loop w []) :
      TxStep (s.goto t (.closing w w.data.length))
  | loopCr {w : Write} {c : UInt8} {rest : List UInt8} (hpc : s.pc t = .loop w (c :: rest))
      (hcr : wantsCr tcOflag (outputChar tcOflag c) = true) :
      TxStep (s.goto t (.putCr w (c :: rest) (outputChar tcOflag c) .top))
  | loopCh {w : Write} {c : UInt8} {rest : List UInt8} (hpc : s.pc t = .loop w (c :: rest))
      (hcr : ¬ wantsCr tcOflag (outputChar tcOflag c) = true) :
      TxStep (s.goto t (.putCh w (c :: rest) (outputChar tcOflag c) .top))
  | putCr {w : Write} {left : List UInt8} {ch : UInt8} {p : PutPc N} {r : UartTx τ N × PutPc N}
      (hpc : s.pc t = .putCr w left ch p) (hres : p.result = none)
      (hr : uartPutxmitchar ids t carriageReturn w.oktoblock s.dev p = some r) :
      TxStep { s.goto t (.putCr w left ch r.2) with dev := r.1 }
  | failedCr {w : Write} {left : List UInt8} {ch : UInt8} {p : PutPc N} {ret : Int}
      (hpc : s.pc t = .putCr w left ch p) (hres : p.result = some ret) (hneg : ret < 0) :
      TxStep (s.goto t (.closing w (shortWrite w left ret)))
  | doneCr {w : Write} {left : List UInt8} {ch : UInt8} {p : PutPc N} {ret : Int}
      (hpc : s.pc t = .putCr w left ch p) (hres : p.result = some ret) (hpos : ¬ ret < 0) :
      TxStep (s.goto t (.putCh w left ch .top))
  | putCh {w : Write} {left : List UInt8} {ch : UInt8} {p : PutPc N} {r : UartTx τ N × PutPc N}
      (hpc : s.pc t = .putCh w left ch p) (hres : p.result = none)
      (hr : uartPutxmitchar ids t ch w.oktoblock s.dev p = some r) :
      TxStep { s.goto t (.putCh w left ch r.2) with dev := r.1 }
  | failedCh {w : Write} {left : List UInt8} {ch : UInt8} {p : PutPc N} {ret : Int}
      (hpc : s.pc t = .putCh w left ch p) (hres : p.result = some ret) (hneg : ret < 0) :
      TxStep (s.goto t (.closing w (shortWrite w left ret)))
  | doneCh {w : Write} {left : List UInt8} {ch : UInt8} {p : PutPc N} {ret : Int}
      (hpc : s.pc t = .putCh w left ch p) (hres : p.result = some ret) (hpos : ¬ ret < 0) :
      TxStep (s.goto t (.loop w left.tail))
  | closing {w : Write} {ret : Int} (hpc : s.pc t = .closing w ret) :
      TxStep { s.goto t (.unlocking (.write w) ret) with
        dev := if s.dev.xmit.head ≠ s.dev.xmit.tail then s.dev.setTxint true else s.dev
        guard := s.guard.unlock t }
  | drained (hpc : s.pc t = .draining) (hempty : s.dev.xmit.head = s.dev.xmit.tail) :
      TxStep (s.goto t .polling)
  | drainWait (hpc : s.pc t = .draining) (hne : s.dev.xmit.head ≠ s.dev.xmit.tail) :
      TxStep { s.goto t (if (waitSent ids t s.dev).2 then .drainAsleep else .draining) with
        dev := (waitSent ids t s.dev).1 }
  | drainEnded {ret : Int} (hpc : s.pc t = .drainWoken ret) (hneg : ret < 0) :
      TxStep { s.goto t (.unlocking .drain ret) with
        dev := s.dev.setTxint false, guard := s.guard.unlock t }
  | drainAgain {ret : Int} (hpc : s.pc t = .drainWoken ret) (hpos : ¬ ret < 0) :
      TxStep { s.goto t .draining with dev := s.dev.setTxint false }
  | unlocking {op : TxOp} {ret : Int} {g : Guard τ} (hpc : s.pc t = .unlocking op ret)
      (hg : s.guard.step ids.toPids ids.getTcb t = some g) : TxStep { s with guard := g }
  | unlocked {op : TxOp} {ret : Int} (hpc : s.pc t = .unlocking op ret)
      (hout : (s.guard.pc t).phase = .out) : TxStep (s.goto t (.returning op ret))

variable {tcOflag ids s t} {s' : Tty τ N}

/-- An action of one call leaves the others where they are. -/
theorem TxStep.of_ne (h : TxStep tcOflag ids s t s') {u : τ} (hu : u ≠ t) :
    s'.pc u = s.pc u ∧ (s'.guard.pc u).phase = (s.guard.pc u).phase := by
  have hgoto : ∀ pc, (s.goto t pc).pc u = s.pc u := fun pc => s.pc_goto_of_ne pc hu
  cases h with
  | lock | closing | drainEnded =>
    exact ⟨hgoto _, congrArg GuardPc.phase (Guard.pc_goto_of_ne _ hu)⟩
  | locking _ _ hg | unlocking _ hg => exact ⟨rfl, Guard.phase_step_of_ne hg hu⟩
  | _ => exact ⟨hgoto _, rfl⟩

theorem tty_call_eq_some {op : TxOp} (hs : tty tcOflag ids s (.call t op) = some s') :
    s.pc t = .idle ∧ s' = s.goto t (.entered op) := by
  rw [tty] at hs
  cases hpc : s.pc t with
  | idle =>
    rw [hpc] at hs
    exact ⟨rfl, (Option.some.inj hs).symm⟩
  | _ => rw [hpc] at hs; cases hs

theorem tty_ret_eq_some (hs : tty tcOflag ids s (.ret t) = some s') :
    ∃ op ret, s.pc t = .returning op ret ∧ s' = s.goto t .idle := by
  rw [tty] at hs
  cases hpc : s.pc t with
  | returning op ret =>
    rw [hpc] at hs
    exact ⟨op, ret, rfl, (Option.some.inj hs).symm⟩
  | _ => rw [hpc] at hs; cases hs

theorem tty_poll_eq_some {txempty elapsed : Bool}
    (hs : tty tcOflag ids s (.poll t txempty elapsed) = some s') :
    s.pc t = .polling ∧ (s' = s ∨ ∃ ret, (ret = 0 ∨ ret = -etimedout) ∧
      s' = { s.goto t (.unlocking .drain ret) with guard := s.guard.unlock t }) := by
  rw [tty] at hs
  cases hpc : s.pc t with
  | polling =>
    rw [hpc] at hs
    refine ⟨rfl, ?_⟩
    dsimp only at hs
    split_ifs at hs
    · exact Or.inr ⟨0, Or.inl rfl, (Option.some.inj hs).symm⟩
    · exact Or.inr ⟨-etimedout, Or.inr rfl, (Option.some.inj hs).symm⟩
    · exact Or.inl (Option.some.inj hs).symm
  | _ => rw [hpc] at hs; cases hs

theorem tty_interrupt_eq_some {ready : ℕ} (hs : tty tcOflag ids s (.interrupt ready) = some s') :
    s' = s.sent (uartXmitchars ids.pid s.dev ready) := by
  rw [tty] at hs
  split at hs
  · exact (Option.some.inj hs).symm
  · cases hs

theorem tty_signal_eq_some (hs : tty tcOflag ids s (.signal t) = some s') :
    (s.pc t).asleep = true ∧ s' = { s.goto t ((s.pc t).wake (-eintr)) with
      dev := { s.dev with xmitsem := nxsemWaitIrq s.dev.xmitsem t } } ∨
    ∃ op mutex, s.pc t = .locking op ∧ s.guard.pc t = .locking (.enter mutex) ∧
      s' = { s.goto t (.returning op (-eintr)) with guard := s.guard.goto t .out } := by
  rw [tty] at hs
  split at hs
  · rename_i hasleep
    exact Or.inl ⟨hasleep, (Option.some.inj hs).symm⟩
  · split at hs
    · rename_i hpc hg
      exact Or.inr ⟨_, _, hpc, hg, (Option.some.inj hs).symm⟩
    · cases hs

end Steps

/-! ## The invariant -/

section Driven

variable {τ : Type} {N : ℕ} [NeZero N] [DecidableEq τ] (tcOflag : UInt32) (ids : Tasks τ)

/-- **The invariant of the driver**, for tasks of one priority: every call fits the device and the
lock, and the tasks that are asleep are the waiters of `xmitsem`. -/
structure Driven (s : Tty τ N) : Prop where
  prio : ∀ t u, ids.prio t = ids.prio u
  guard : ∃ m, Guarded ids.toPids s.guard m
  task : ∀ t, (s.pc t).At tcOflag s.dev (s.guard.pc t).phase
  asleep : ∀ t, (s.pc t).asleep = true ↔ t ∈ s.dev.xmitsem.waitlist
  sem : s.dev.xmitsem.Calm

variable {tcOflag ids} {s s' : Tty τ N} {t u : τ} {pc : TxPc N}

theorem driven_init (hprio : ∀ t u, ids.prio t = ids.prio u) :
    Driven tcOflag ids (Tty.init : Tty τ N) :=
  ⟨hprio, ⟨_, guarded_init⟩, fun _ => rfl, fun _ => by simp [Tty.init, TxPc.asleep, UartTx.init],
    Or.inl ⟨rfl, Or.inl rfl⟩⟩

/-- At most one task is inside. -/
theorem Driven.inside_unique (h : Driven tcOflag ids s) (ht : (s.guard.pc t).phase = .inside)
    (hu : (s.guard.pc u).phase = .inside) : u = t := by
  obtain ⟨m, hm⟩ := h.guard
  exact hm.inside_unique hu ht

theorem Driven.fits (h : Driven tcOflag ids s) (hpc : s.pc t = pc) :
    pc.At tcOflag s.dev (s.guard.pc t).phase :=
  hpc ▸ h.task t

/-- While a task that is awake is inside, nobody waits for `xmitsem`. -/
theorem Driven.free (h : Driven tcOflag ids s) (ht : (s.guard.pc t).phase = .inside)
    (hs : (s.pc t).asleep = false) : s.dev.xmitsem.Free := by
  apply h.sem.free
  rw [List.eq_nil_iff_forall_not_mem]
  intro u hu
  have hasleep := (h.asleep u).mpr hu
  obtain rfl := h.inside_unique ht ((h.task u).inside_of_asleep hasleep)
  rw [hs] at hasleep
  cases hasleep

/-- **A task goes on**: only a task that is inside changes the device. -/
theorem Driven.own (h : Driven tcOflag ids s) (hguard : ∃ m, Guarded ids.toPids s'.guard m)
    (hpc : s'.pc = Function.update s.pc t pc)
    (hphase : ∀ u, u ≠ t → (s'.guard.pc u).phase = (s.guard.pc u).phase)
    (hframe : s'.dev = s.dev ∨ (s.guard.pc t).phase = .inside)
    (ht : pc.At tcOflag s'.dev (s'.guard.pc t).phase) (hsem : s'.dev.xmitsem.Calm)
    (hself : pc.asleep = true ↔ t ∈ s'.dev.xmitsem.waitlist)
    (hlist : ∀ u, u ≠ t → (u ∈ s'.dev.xmitsem.waitlist ↔ u ∈ s.dev.xmitsem.waitlist)) :
    Driven tcOflag ids s' := by
  refine ⟨h.prio, hguard, fun u => ?_, fun u => ?_, hsem⟩
  · rw [hpc]
    by_cases hu : u = t
    · rw [hu, Function.update_self]
      exact ht
    · rw [Function.update_of_ne hu, hphase u hu]
      rcases hframe with hdev | hin
      · rw [hdev]
        exact h.task u
      · exact (h.task u).frame fun hin' => hu (h.inside_unique hin hin')
  · rw [hpc]
    by_cases hu : u = t
    · rw [hu, Function.update_self]
      exact hself
    · rw [Function.update_of_ne hu, hlist u hu]
      exact h.asleep u

/-- A task goes on that is awake before and after, and leaves the semaphore alone. -/
theorem Driven.own_awake (h : Driven tcOflag ids s) (hguard : ∃ m, Guarded ids.toPids s'.guard m)
    (hpc : s'.pc = Function.update s.pc t pc)
    (hphase : ∀ u, u ≠ t → (s'.guard.pc u).phase = (s.guard.pc u).phase)
    (hframe : s'.dev = s.dev ∨ (s.guard.pc t).phase = .inside)
    (ht : pc.At tcOflag s'.dev (s'.guard.pc t).phase)
    (hsem : s'.dev.xmitsem = s.dev.xmitsem) (hold : (s.pc t).asleep = false)
    (hnew : pc.asleep = false) : Driven tcOflag ids s' := by
  refine h.own hguard hpc hphase hframe ht (hsem ▸ h.sem) ?_ fun u _ => by rw [hsem]
  rw [hsem, hnew, ← h.asleep t, hold]

/-- A task goes on, and touches neither the lock nor the device. -/
theorem Driven.goto (h : Driven tcOflag ids s) {pc' : TxPc N} (hpc : s.pc t = pc)
    (hold : pc.asleep = false) (ht : pc'.At tcOflag s.dev (s.guard.pc t).phase)
    (hnew : pc'.asleep = false) : Driven tcOflag ids (s.goto t pc') :=
  h.own_awake h.guard rfl (fun _ _ => rfl) (Or.inl rfl) ht rfl (hpc ▸ hold) hnew

/-- The task that is inside is done, and calls `nxmutex_unlock`. -/
theorem Driven.unlock (h : Driven tcOflag ids s) (hpc : s.pc t = pc) (hold : pc.asleep = false)
    (hin : (s.guard.pc t).phase = .inside) (dev : UartTx τ N)
    (hsem : dev.xmitsem = s.dev.xmitsem) (op : TxOp) (ret : Int) :
    Driven tcOflag ids
      { s.goto t (.unlocking op ret) with dev := dev, guard := s.guard.unlock t } := by
  obtain ⟨m, hm⟩ := h.guard
  refine h.own_awake ⟨m, hm.unlock hin⟩ rfl (fun u hu => ?_) (Or.inr hin) (Or.inl ?_) hsem
    (hpc ▸ hold) rfl
  · exact congrArg GuardPc.phase (Guard.pc_goto_of_ne _ hu)
  · exact congrArg GuardPc.phase (Guard.pc_goto_self _)

/-- The task that is inside goes on in its body. -/
theorem Driven.body (h : Driven tcOflag ids s) (hin : (s.guard.pc t).phase = .inside)
    {dev : UartTx τ N} (ht : pc.At tcOflag dev .inside) (hold : (s.pc t).asleep = false)
    (hsem : pc.asleep = false ∧ dev.xmitsem.Free ∨
      pc.asleep = true ∧ dev.xmitsem.AwaitedBy t) :
    Driven tcOflag ids { s.goto t pc with dev := dev } := by
  have hfree := h.free hin hold
  have hguard : ∃ m, Guarded ids.toPids s.guard m := h.guard
  rcases hsem with ⟨hnot, hsem⟩ | ⟨hasleep, hsem⟩
  · refine h.own hguard rfl (fun _ _ => rfl) (Or.inr hin) (hin ▸ ht) (Or.inl hsem) ?_ fun u _ => ?_
    · rw [hnot, hsem.1]
      simp
    · rw [hsem.1, hfree.1]
  · refine h.own hguard rfl (fun _ _ => rfl) (Or.inr hin) (hin ▸ ht) (Or.inr ⟨t, hsem⟩) ?_
      fun u hu => ?_
    · rw [hasleep, hsem.1]
      simp
    · rw [hsem.1, hfree.1]
      simp [hu]

/-- An action of `nxmutex_lock` or `nxmutex_unlock`. -/
theorem Driven.step_guard (h : Driven tcOflag ids s) {g : Guard τ}
    (hs : s.guard.step ids.toPids ids.getTcb t = some g)
    (ht : (s.pc t).At tcOflag s.dev (g.pc t).phase) :
    Driven tcOflag ids { s with guard := g } := by
  obtain ⟨m, hm⟩ := h.guard
  refine ⟨h.prio, hm.step (fun u _ => ids.live u) hs, fun u => ?_, h.asleep, h.sem⟩
  by_cases hu : u = t
  · rw [hu]
    exact ht
  · show (s.pc u).At tcOflag s.dev (g.pc u).phase
    rw [Guard.phase_step_of_ne hs hu]
    exact h.task u

/-- **A consumer has taken from the buffer**, and wakes every sleeper. -/
theorem Driven.sent (h : Driven tcOflag ids s) (dev : UartTx τ N) {out : List UInt8}
    (ht : s.dev.xmit.Takes out dev.xmit) (hsem : dev.xmitsem = s.dev.xmitsem) :
    Driven tcOflag ids (s.sent (uartDatasent ids.pid dev)) ∧
      ∀ u, (s.sent (uartDatasent ids.pid dev)).pc u = (s.pc u).wake 0 := by
  have hcalm : dev.xmitsem.Calm := hsem ▸ h.sem
  have hpc : ∀ u, (s.sent (uartDatasent ids.pid dev)).pc u = (s.pc u).wake 0 := by
    intro u
    show (if u ∈ (uartDatasent ids.pid dev).2 then (s.pc u).wake 0 else s.pc u) = _
    rw [uartDatasent_eq ids.pid hcalm, hsem]
    by_cases hu : u ∈ s.dev.xmitsem.waitlist
    · rw [if_pos hu]
    · rw [if_neg hu, TxPc.wake_of_not_asleep]
      exact Bool.eq_false_iff.mpr fun hasleep => hu ((h.asleep u).mp hasleep)
  have hdev : (s.sent (uartDatasent ids.pid dev)).dev =
      { dev with xmitsem := { dev.xmitsem with val := 1, waitlist := [] } } := by
    rw [Tty.sent, uartDatasent_eq ids.pid hcalm]
  refine ⟨⟨h.prio, h.guard, fun u => ?_, fun u => ?_, ?_⟩, hpc⟩
  · rw [hpc, hdev]
    exact (h.task u).takes ht (Or.inl rfl)
  · rw [hpc, hdev, TxPc.asleep_wake]
    simp
  · rw [hdev]
    exact Or.inl ⟨rfl, Or.inr rfl⟩

/-- The transmit interrupt. -/
theorem Driven.interrupt (hN : 1 < N) (hN' : N < 2 ^ 16) (h : Driven tcOflag ids s) (ready : ℕ) :
    Driven tcOflag ids (s.sent (uartXmitchars ids.pid s.dev ready)) := by
  rw [uartXmitchars_eq ids.pid ready hN']
  by_cases hsent : (xmitLoop s.dev.xmit ready).2 = []
  · rw [if_pos hsent]
    have hxmit : (s.dev.transmitted ready).xmit = s.dev.xmit := xmitLoop_of_nil hsent
    have hpc : (s.sent (s.dev.transmitted ready, [])).pc = s.pc := by
      funext u
      simp [Tty.sent]
    refine ⟨h.prio, h.guard, fun u => ?_, fun u => ?_, h.sem⟩
    · rw [hpc]
      show (s.pc u).At tcOflag (s.dev.transmitted ready) (s.guard.pc u).phase
      cases hasleep : (s.pc u).asleep with
      | false => exact (h.task u).awake hasleep hxmit
      | true =>
        have hne := ((h.task u).of_asleep hN hasleep).1
        have hdev : s.dev.transmitted ready = s.dev := by
          simp only [UartTx.transmitted, hsent, xmitLoop_of_nil hsent, if_neg hne, List.append_nil]
        rw [hdev]
        exact h.task u
    · rw [hpc]
      exact h.asleep u
  · rw [if_neg hsent]
    exact (h.sent (s.dev.transmitted ready) (xmitLoop_takes s.dev.xmit ready) rfl).1

/-- A signal for a task that is asleep. -/
theorem Driven.signal (h : Driven tcOflag ids s) (hs : (s.pc t).asleep = true) :
    Driven tcOflag ids { s.goto t ((s.pc t).wake (-eintr)) with
      dev := { s.dev with xmitsem := nxsemWaitIrq s.dev.xmitsem t } } := by
  have hmem := (h.asleep t).mp hs
  have hawaited : s.dev.xmitsem.AwaitedBy t := by
    rcases h.sem with ⟨hnil, -⟩ | ⟨u, hu⟩
    · rw [hnil] at hmem
      cases hmem
    · rw [hu.1, List.mem_singleton] at hmem
      exact hmem ▸ hu
  have hfree := nxsemWaitIrq_free hawaited
  have hin := (h.task t).inside_of_asleep hs
  refine h.own h.guard rfl (fun _ _ => rfl) (Or.inr hin) ?_ (Or.inl hfree) ?_ fun u hu => ?_
  · exact (h.task t).takes (.refl _) (Or.inr rfl)
  · rw [TxPc.asleep_wake, hfree.1]
    simp
  · rw [hfree.1, hawaited.1]
    simp [hu]

/-- A signal that is pending when a task calls `nxmutex_lock`. -/
theorem Driven.refused (h : Driven tcOflag ids s) {op : TxOp} {mutex : Bool}
    (hpc : s.pc t = .locking op) (hg : s.guard.pc t = .locking (.enter mutex)) :
    Driven tcOflag ids
      { s.goto t (.returning op (-eintr)) with guard := s.guard.goto t .out } := by
  obtain ⟨m, hm⟩ := h.guard
  refine h.own_awake ⟨m, hm.refuse hg⟩ rfl (fun u hu => ?_) (Or.inl rfl) ?_ rfl ?_ rfl
  · exact congrArg GuardPc.phase (Guard.pc_goto_of_ne _ hu)
  · exact congrArg GuardPc.phase (Guard.pc_goto_self _)
  · rw [hpc]
    rfl

/-- The critical section of `TCOFLUSH` takes everything. -/
theorem takes_tcoflush (b : UartBuffer N) : b.Takes b.held { b with tail := b.head } := by
  refine ⟨rfl, rfl, ?_⟩
  have hnil : UartBuffer.held { b with tail := b.head } = [] :=
    UartBuffer.held_eq_nil_iff.mpr rfl
  rw [hnil, List.append_nil]

/-- The device that `TCOFLUSH` has emptied. -/
def UartTx.flushed (dev : UartTx τ N) : UartTx τ N :=
  { dev with xmit := { dev.xmit with tail := dev.xmit.head } }

/-- **Among tasks of one priority `TCOFLUSH` is one action.** -/
theorem Driven.stepTx_flush (h : Driven tcOflag ids s) (hpc : s.pc t = .entered .flush) :
    CameraPipeline.stepTx tcOflag ids s t =
      some ((s.sent (uartDatasent ids.pid s.dev.flushed)).goto t (.returning .flush 0)) := by
  rw [CameraPipeline.stepTx, hpc]
  simp only [tcoflush, postUntilSwitch_eq h.prio]
  rfl

/-- `TCOFLUSH`. -/
theorem Driven.flush (h : Driven tcOflag ids s) (hpc : s.pc t = .entered .flush) :
    Driven tcOflag ids
      ((s.sent (uartDatasent ids.pid s.dev.flushed)).goto t (.returning .flush 0)) := by
  obtain ⟨hsent, hwake⟩ := h.sent s.dev.flushed (takes_tcoflush s.dev.xmit) rfl
  have hpc' : (s.sent (uartDatasent ids.pid s.dev.flushed)).pc t = .entered .flush := by
    rw [hwake, hpc]
    rfl
  exact hsent.goto hpc' rfl (h.fits hpc).1 rfl

omit [NeZero N] [DecidableEq τ] in
theorem asleep_putCr {w : Write} {left : List UInt8} {ch : UInt8} (p : PutPc N) :
    (TxPc.putCr w left ch p).asleep = true ↔ p = .asleep := by
  cases p <;> simp [TxPc.asleep]

omit [NeZero N] [DecidableEq τ] in
theorem asleep_putCh {w : Write} {left : List UInt8} {ch : UInt8} (p : PutPc N) :
    (TxPc.putCh w left ch p).asleep = true ↔ p = .asleep := by
  cases p <;> simp [TxPc.asleep]

section Put

variable {f : PutPc N → TxPc N} {p : PutPc N} {ch : UInt8} {oktoblock : Bool}

omit [NeZero N] [DecidableEq τ] in
/-- A call of `uart_putxmitchar` that has returned is not asleep. -/
theorem not_asleep_of_result (hasleep : ∀ p, (f p).asleep = true ↔ p = .asleep) {ret : Int}
    (h : p.result = some ret) : (f p).asleep = false := by
  rw [Bool.eq_false_iff, Ne, hasleep]
  rintro rfl
  cases h

omit [DecidableEq τ] in
/-- A call of `uart_putxmitchar` that goes on is not asleep. -/
theorem not_asleep_of_put (hasleep : ∀ p, (f p).asleep = true ↔ p = .asleep)
    {dev : UartTx τ N} {r : UartTx τ N × PutPc N}
    (h : uartPutxmitchar ids t ch oktoblock dev p = some r) : (f p).asleep = false := by
  rw [Bool.eq_false_iff, Ne, hasleep]
  rintro rfl
  cases h

/-- A put of a character, of `uart_writev`. -/
theorem Driven.put (h : Driven tcOflag ids s) (hin : (s.guard.pc t).phase = .inside)
    (hpc : s.pc t = f p) (hp : p.At s.dev ch oktoblock)
    (hat : ∀ (dev : UartTx τ N) p', p'.At dev ch oktoblock → (f p').At tcOflag dev .inside)
    (hasleep : ∀ p', (f p').asleep = true ↔ p' = .asleep) {r : UartTx τ N × PutPc N}
    (hr : uartPutxmitchar ids t ch oktoblock s.dev p = some r) :
    Driven tcOflag ids { s.goto t (f r.2) with dev := r.1 } := by
  have hold : (s.pc t).asleep = false := hpc ▸ not_asleep_of_put hasleep hr
  obtain ⟨hp', -, -, hsem⟩ := uartPutxmitchar_spec ids t hp (h.free hin hold) hr
  refine h.body hin (hat _ _ hp') hold (hsem.imp ?_ ?_)
  · rintro ⟨hne, hfree⟩
    exact ⟨Bool.eq_false_iff.mpr fun hs => hne ((hasleep _).mp hs), hfree⟩
  · rintro ⟨he, hawaited⟩
    exact ⟨(hasleep _).mpr he, hawaited⟩

end Put

/-- **What an action of a call does**: `TCOFLUSH`, or one of the other branches. -/
theorem Driven.txStep (h : Driven tcOflag ids s) (hs : stepTx tcOflag ids s t = some s') :
    s.pc t = .entered .flush ∧
        s' = (s.sent (uartDatasent ids.pid s.dev.flushed)).goto t (.returning .flush 0) ∨
      TxStep tcOflag ids s t s' := by
  by_cases hflush : s.pc t = .entered .flush
  · rw [h.stepTx_flush hflush] at hs
    exact Or.inl ⟨hflush, (Option.some.inj hs).symm⟩
  right
  rw [stepTx] at hs
  cases hpc : s.pc t with
  | idle | returning | polling | drainAsleep => rw [hpc] at hs; cases hs
  | entered op =>
    rw [hpc] at hs
    cases op with
    | write | drain => exact Option.some.inj hs ▸ TxStep.lock hpc trivial
    | flush => exact absurd hpc hflush
    | echo chs => exact absurd rfl ((h.fits hpc).2 chs)
  | locking op =>
    rw [hpc] at hs
    dsimp only at hs
    split at hs
    · rename_i hin
      cases op with
      | write w => exact Option.some.inj hs ▸ TxStep.write hpc hin
      | drain => exact Option.some.inj hs ▸ TxStep.drain hpc hin
      | flush | echo => exact (h.fits hpc).2.elim
    · rename_i hin
      obtain ⟨g, hg, rfl⟩ := Option.map_eq_some_iff.mp hs
      exact .locking hpc hin hg
  | begun w => rw [hpc] at hs; exact Option.some.inj hs ▸ TxStep.begun hpc
  | loop w left =>
    rw [hpc] at hs
    cases left with
    | nil => exact Option.some.inj hs ▸ TxStep.loopEnd hpc
    | cons c rest =>
      dsimp only at hs
      split at hs
      · rename_i hcr
        exact Option.some.inj hs ▸ TxStep.loopCr hpc hcr
      · rename_i hcr
        exact Option.some.inj hs ▸ TxStep.loopCh hpc hcr
  | putCr w left ch p =>
    rw [hpc] at hs
    dsimp only at hs
    cases hres : p.result with
    | none =>
      rw [hres] at hs
      obtain ⟨r, hr, rfl⟩ := Option.map_eq_some_iff.mp hs
      exact .putCr hpc hres hr
    | some ret =>
      rw [hres] at hs
      dsimp only at hs
      split at hs
      · rename_i hneg
        exact Option.some.inj hs ▸ TxStep.failedCr hpc hres hneg
      · rename_i hpos
        exact Option.some.inj hs ▸ TxStep.doneCr hpc hres hpos
  | putCh w left ch p =>
    rw [hpc] at hs
    dsimp only at hs
    cases hres : p.result with
    | none =>
      rw [hres] at hs
      obtain ⟨r, hr, rfl⟩ := Option.map_eq_some_iff.mp hs
      exact .putCh hpc hres hr
    | some ret =>
      rw [hres] at hs
      dsimp only at hs
      split at hs
      · rename_i hneg
        exact Option.some.inj hs ▸ TxStep.failedCh hpc hres hneg
      · rename_i hpos
        exact Option.some.inj hs ▸ TxStep.doneCh hpc hres hpos
  | closing w ret => rw [hpc] at hs; exact Option.some.inj hs ▸ TxStep.closing hpc
  | draining =>
    rw [hpc] at hs
    dsimp only at hs
    split at hs
    · rename_i hempty
      exact Option.some.inj hs ▸ TxStep.drained hpc hempty
    · rename_i hne
      exact Option.some.inj hs ▸ TxStep.drainWait hpc hne
  | drainWoken ret =>
    rw [hpc] at hs
    dsimp only at hs
    split at hs
    · rename_i hneg
      exact Option.some.inj hs ▸ TxStep.drainEnded hpc hneg
    · rename_i hpos
      exact Option.some.inj hs ▸ TxStep.drainAgain hpc hpos
  | flushing | echoing => exact (h.fits hpc).elim
  | unlocking op ret =>
    rw [hpc] at hs
    dsimp only at hs
    split at hs
    · rename_i hout
      exact Option.some.inj hs ▸ TxStep.unlocked hpc hout
    · obtain ⟨g, hg, rfl⟩ := Option.map_eq_some_iff.mp hs
      exact .unlocking hpc hg

/-- **Every action of a call keeps the invariant.** -/
theorem Driven.stepTx (h : Driven tcOflag ids s)
    (hs : CameraPipeline.stepTx tcOflag ids s t = some s') : Driven tcOflag ids s' := by
  rcases h.txStep hs with ⟨hflush, rfl⟩ | hstep
  · exact h.flush hflush
  cases hstep with
  | lock hpc hop =>
    obtain ⟨m, hm⟩ := h.guard
    have hold : (s.pc t).asleep = false := by rw [hpc]; rfl
    refine h.own_awake ⟨m, hm.lock (h.fits hpc).1⟩ rfl (fun u hu => ?_) (Or.inl rfl)
      ⟨Or.inl ?_, hop⟩ rfl hold rfl
    · exact congrArg GuardPc.phase (Guard.pc_goto_of_ne _ hu)
    · exact congrArg GuardPc.phase (Guard.pc_goto_self _)
  | locking hpc hin hg =>
    obtain ⟨hphase, hop⟩ := h.fits hpc
    refine h.step_guard hg ?_
    rw [hpc]
    refine ⟨?_, hop⟩
    rcases Guard.phase_step_self hg with ⟨-, hnext⟩ | ⟨hunlock, -⟩
    · exact hnext
    · rcases hphase with hlock | hlock <;> rw [hlock] at hunlock <;> cases hunlock
  | write hpc hin | drain hpc hin => exact h.goto hpc rfl hin rfl
  | begun hpc =>
    have hin := h.fits hpc
    have hold : (s.pc t).asleep = false := by rw [hpc]; rfl
    exact h.body hin ⟨rfl, List.suffix_rfl⟩ hold (Or.inl ⟨rfl, h.free hin hold⟩)
  | loopEnd hpc => exact h.goto hpc rfl (h.fits hpc).1 rfl
  | @loopCr w c rest hpc hcr =>
    obtain ⟨hin, hleft⟩ := h.fits hpc
    exact h.goto hpc rfl ⟨hin, hleft, ⟨c, rfl, rfl⟩, hcr, trivial⟩ rfl
  | @loopCh w c rest hpc hcr =>
    obtain ⟨hin, hleft⟩ := h.fits hpc
    exact h.goto hpc rfl ⟨hin, hleft, ⟨c, rfl, rfl⟩, trivial⟩ rfl
  | @putCr w left ch p r hpc hres hr =>
    obtain ⟨hin, hleft, hch, hcr, hp⟩ := h.fits hpc
    exact h.put hin (f := .putCr w left ch) hpc hp
      (fun _ _ hp' => ⟨rfl, hleft, hch, hcr, hp'⟩) asleep_putCr hr
  | failedCr hpc hres =>
    exact h.goto hpc (not_asleep_of_result asleep_putCr hres) (h.fits hpc).1 rfl
  | doneCr hpc hres =>
    obtain ⟨hin, hleft, hch, -, -⟩ := h.fits hpc
    exact h.goto hpc (not_asleep_of_result asleep_putCr hres) ⟨hin, hleft, hch, trivial⟩ rfl
  | @putCh w left ch p r hpc hres hr =>
    obtain ⟨hin, hleft, hch, hp⟩ := h.fits hpc
    exact h.put hin (f := .putCh w left ch) hpc hp
      (fun _ _ hp' => ⟨rfl, hleft, hch, hp'⟩) asleep_putCh hr
  | failedCh hpc hres =>
    exact h.goto hpc (not_asleep_of_result asleep_putCh hres) (h.fits hpc).1 rfl
  | doneCh hpc hres =>
    obtain ⟨hin, hleft, -, -⟩ := h.fits hpc
    exact h.goto hpc (not_asleep_of_result asleep_putCh hres)
      ⟨hin, (List.tail_suffix _).trans hleft⟩ rfl
  | closing hpc =>
    refine h.unlock hpc rfl (h.fits hpc) _ ?_ _ _
    split <;> rfl
  | drained hpc hempty => exact h.goto hpc rfl ⟨h.fits hpc, hempty⟩ rfl
  | drainWait hpc hne =>
    have hin := h.fits hpc
    have hold : (s.pc t).asleep = false := by rw [hpc]; rfl
    obtain ⟨hxmit, -, ⟨hnot, hsem⟩ | ⟨hslept, htx, hsem⟩⟩ := waitSent_spec ids t (h.free hin hold)
    · rw [hnot, if_neg Bool.false_ne_true]
      exact h.body hin rfl hold (Or.inl ⟨rfl, hsem⟩)
    · rw [hslept, if_pos rfl]
      exact h.body hin ⟨rfl, by rw [hxmit]; exact hne, htx⟩ hold (Or.inr ⟨rfl, hsem⟩)
  | drainEnded hpc => exact h.unlock hpc rfl (h.fits hpc).1 (s.dev.setTxint false) rfl _ _
  | drainAgain hpc =>
    have hin := (h.fits hpc).1
    have hold : (s.pc t).asleep = false := by rw [hpc]; rfl
    exact h.body hin rfl hold (Or.inl ⟨rfl, h.free hin hold⟩)
  | unlocking hpc hg =>
    refine h.step_guard hg ?_
    rw [hpc]
    rcases Guard.phase_step_self hg with ⟨hlock, -⟩ | ⟨-, hnext⟩
    · rcases h.fits hpc with hunlock | hunlock <;> rw [hunlock] at hlock <;> cases hlock
    · exact hnext
  | unlocked hpc hout => exact h.goto hpc rfl hout rfl

/-- The label does not begin an echo. -/
def TtyLabel.Silent (l : TtyLabel τ) : Prop := ∀ t chs, l ≠ .call t (.echo chs)

/-- **Every step keeps the invariant**, as long as nothing is echoed. -/
theorem Driven.step (hN : 1 < N) (hN' : N < 2 ^ 16) (h : Driven tcOflag ids s) {l : TtyLabel τ}
    (hl : l.Silent) (hs : tty tcOflag ids s l = some s') : Driven tcOflag ids s' := by
  cases l with
  | step t => exact h.stepTx hs
  | call t op =>
    obtain ⟨hpc, rfl⟩ := tty_call_eq_some hs
    have hop : ∀ chs, op ≠ .echo chs := fun chs he => hl t chs (by rw [he])
    exact h.goto hpc rfl ⟨h.fits hpc, hop⟩ rfl
  | poll t txempty elapsed =>
    obtain ⟨hpc, rfl | ⟨ret, -, rfl⟩⟩ := tty_poll_eq_some hs
    · exact h
    · exact h.unlock hpc rfl (h.fits hpc).1 s.dev rfl .drain ret
  | ret t =>
    obtain ⟨op, ret, hpc, rfl⟩ := tty_ret_eq_some hs
    have hout : (s.guard.pc t).phase = .out := h.fits hpc
    exact h.goto hpc rfl hout rfl
  | interrupt ready => exact tty_interrupt_eq_some hs ▸ h.interrupt hN hN' ready
  | signal t =>
    rcases tty_signal_eq_some hs with ⟨hasleep, rfl⟩ | ⟨op, mutex, hpc, hg, rfl⟩
    · exact h.signal hasleep
    · exact h.refused hpc hg

/-- The invariant holds in every state that the driver comes to without an echo. -/
theorem driven_run (hprio : ∀ t u, ids.prio t = ids.prio u) (hN : 1 < N) (hN' : N < 2 ^ 16)
    {ls : List (TtyLabel τ)} (hls : ∀ l ∈ ls, l.Silent)
    (h : run (tty tcOflag ids) Tty.init ls = some s) : Driven tcOflag ids s :=
  run_history (C := TtyLabel.Silent) (I := fun _ s => Driven tcOflag ids s) (driven_init hprio)
    (fun _ _ _ _ _ hdriven hl hs => hdriven.step hN hN' hl hs) hls h

end Driven

/-- **A task that waits for room is served.** In every state that any number of tasks of one
priority bring the driver to from `uart_register` on, whatever they write, drain and flush and
wherever they are preempted, interrupted or signalled, as long as none of them exits and nothing is
echoed: if a task is asleep on `xmitsem`, bytes are waiting and the transmit interrupt is on, and
the next interrupt that finds the data register ready wakes it. The buffer has room for a byte, and
its size fits the driver's counter. -/
theorem sleeper_is_served {τ : Type} [DecidableEq τ] {N : ℕ} [NeZero N] (tcOflag : UInt32)
    (ids : Tasks τ) (hprio : ∀ t u, ids.prio t = ids.prio u) (hN : 1 < N) (hN' : N < 2 ^ 16)
    {ls : List (TtyLabel τ)} {s : Tty τ N} (hls : ∀ l ∈ ls, l.Silent)
    (h : run (tty tcOflag ids) Tty.init ls = some s) {t : τ} (ht : (s.pc t).asleep = true) :
    s.dev.xmit.held ≠ [] ∧ s.dev.txint = true ∧
      ∀ ready, 0 < ready → ∃ s', tty tcOflag ids s (.interrupt ready) = some s' ∧
        (s'.pc t).asleep = false ∧ s.dev.wire.length < s'.dev.wire.length := by
  have hs : Driven tcOflag ids s := driven_run hprio hN hN' hls h
  obtain ⟨hne, htx⟩ := (hs.task t).of_asleep hN ht
  have hheld : s.dev.xmit.held ≠ [] := fun he => hne (UartBuffer.held_eq_nil_iff.mp he)
  refine ⟨hheld, htx, ?_⟩
  intro ready hready
  refine ⟨_, by rw [tty, if_pos htx], ?_⟩
  have hsent := xmitLoop_ne_nil hheld hready
  rw [uartXmitchars_eq ids.pid ready hN', if_neg hsent]
  obtain ⟨-, hwake⟩ := hs.sent (s.dev.transmitted ready) (xmitLoop_takes s.dev.xmit ready) rfl
  refine ⟨by rw [hwake, TxPc.asleep_wake], ?_⟩
  show s.dev.wire.length < (s.dev.wire ++ (xmitLoop s.dev.xmit ready).2).length
  rw [List.length_append]
  have hpos := List.length_pos_of_ne_nil hsent
  omega

/-- The camera writes two bytes to a device whose buffer has room for one; a signal for the hello
task, which is to write too, is pending. -/
def fullBuffer : List (TtyLabel Task) :=
  [[.call .camera (.write ⟨[1, 2], true⟩)], .replicate 16 (.step .camera),
    [.call .hello (.write ⟨[3], true⟩)], .replicate 4 (.step .hello), [.signal .hello]].flatten

/-- A writer asleep on a full buffer, and one whom the lock has refused. -/
theorem sleeper_is_served_full :
    ∃ s : Tty Task 2, run (tty 0 launchTasks) Tty.init fullBuffer = some s ∧
      (s.pc .camera).asleep = true ∧
      (s.pc .hello).result = some (.write ⟨[3], true⟩, -eintr) ∧
      ∃ s', tty 0 launchTasks s (.interrupt 1) = some s' ∧ (s'.pc .camera).asleep = false := by
  obtain ⟨s, hs, hasleep, hrefused⟩ : ∃ s : Tty Task 2,
      run (tty 0 launchTasks) Tty.init fullBuffer = some s ∧ (s.pc .camera).asleep = true ∧
        (s.pc .hello).result = some (.write ⟨[3], true⟩, -eintr) := by
    have hrun : (run (tty 0 launchTasks) (Tty.init : Tty Task 2) fullBuffer).map (fun s =>
        decide ((s.pc .camera).asleep = true ∧
          (s.pc .hello).result = some (.write ⟨[3], true⟩, -eintr))) = some true := by decide
    obtain ⟨s, hs, heq⟩ := Option.map_eq_some_iff.mp hrun
    exact ⟨s, hs, of_decide_eq_true heq⟩
  have hsilent : ∀ l ∈ fullBuffer, l.Silent := by
    intro l hl t chs he
    simp [fullBuffer, he] at hl
  obtain ⟨-, -, hserve⟩ :=
    sleeper_is_served 0 launchTasks (fun _ _ => rfl) (by decide) (by decide) hsilent hs hasleep
  obtain ⟨s', hs', hawake, -⟩ := hserve 1 Nat.one_pos
  exact ⟨s, hs, hasleep, hrefused, s', hs', hawake⟩

/-- The camera writes a byte that fills the buffer, and drains; the hello task echoes a character
meanwhile; then a signal ends the drain. -/
def echoAsleep : List (TtyLabel Task) :=
  [[.call .camera (.write ⟨[1], true⟩)], .replicate 18 (.step .camera),
    [.ret .camera, .call .camera .drain], .replicate 6 (.step .camera),
    [.call .hello (.echo [2])], .replicate 4 (.step .hello),
    [.signal .camera], .replicate 5 (.step .camera)].flatten

/-- **A task that echoes may not be served**: it is asleep on `xmitsem` with a byte in the buffer,
nobody is inside `xmit.lock`, the transmit interrupt is off, and the task that turned it off is
about to return. -/
theorem echo_sleeps_unserved :
    ∃ s : Tty Task 2, run (tty 0 launchTasks) Tty.init echoAsleep = some s ∧
      (s.pc .hello).asleep = true ∧ s.dev.xmit.held = [1] ∧
      (∀ t, (s.guard.pc t).phase = .out) ∧ (s.pc .camera).result = some (.drain, -eintr) ∧
      ∀ ready, tty 0 launchTasks s (.interrupt ready) = none := by
  have hrun : (run (tty 0 launchTasks) (Tty.init : Tty Task 2) echoAsleep).map (fun s =>
      decide ((s.pc .hello).asleep = true ∧ s.dev.xmit.held = [1] ∧
        (s.guard.pc .camera).phase = .out ∧ (s.guard.pc .hello).phase = .out ∧
        (s.pc .camera).result = some (.drain, -eintr) ∧ s.dev.txint = false)) = some true := by
    decide
  obtain ⟨s, hs, heq⟩ := Option.map_eq_some_iff.mp hrun
  obtain ⟨hasleep, hheld, hcamera, hhello, hres, htx⟩ := of_decide_eq_true heq
  refine ⟨s, hs, hasleep, hheld, fun t => ?_, hres, fun ready => ?_⟩
  · cases t with
    | camera => exact hcamera
    | hello => exact hhello
  · rw [tty, if_neg (by rw [htx]; exact Bool.false_ne_true)]

end CameraPipeline
