import CameraPipeline.Serial.Stream

/-!
# Buffered bytes are in flight

When no call is inside `xmit.lock` and bytes wait in the transmit buffer, only the transmit
interrupt can send them. It is on, with one exception: `uart_tcdrain` turns it off when a signal
ends its wait, and nothing turns it on again before the next write or drain.

## Main definitions

* `Interrupted log`: the last record of a call inside `xmit.lock` is of a drain that a signal ended
* `Flight s log`: the interrupt is on when it has to be

## Main results

* `leaves_inside`: what a call does last inside `xmit.lock`
* `buffered_bytes_in_flight`: when bytes that wait are on their way
-/

namespace CameraPipeline

open Data Systems

section Flight

variable {τ : Type} {N : ℕ} [NeZero N] [DecidableEq τ] {tcOflag : UInt32} {ids : Tasks τ}
  {s s' : Tty τ N} {t : τ} {log : List (TxRecord τ)}

/-- The last record of a call that was inside `xmit.lock` is of a drain that a signal ended. -/
def Interrupted (log : List (TxRecord τ)) : Prop :=
  ∃ e, (log.filter TxRecord.locked).getLast? = some e ∧ e.op = .drain ∧ e.ret = -eintr

omit [DecidableEq τ] in
theorem interrupted_snoc {e : TxRecord τ} (he : e.locked = true) :
    Interrupted (log ++ [e]) ↔ e.op = .drain ∧ e.ret = -eintr := by
  have hlast : ((log ++ [e]).filter TxRecord.locked).getLast? = some e := by
    rw [List.filter_append, List.filter_cons_of_pos he, List.filter_nil, List.getLast?_concat]
  rw [Interrupted, hlast]
  simp

omit [DecidableEq τ] in
/-- A call that was not inside changes nothing. -/
theorem interrupted_snoc_of_not_locked {e : TxRecord τ} (he : e.locked = false) :
    Interrupted (log ++ [e]) ↔ Interrupted log := by
  have hnot : ¬ e.locked = true := by rw [he]; exact Bool.false_ne_true
  rw [Interrupted, List.filter_append, List.filter_cons_of_neg hnot, List.filter_nil,
    List.append_nil]
  rfl

/-- **The interrupt is on when it has to be.** -/
structure Flight (s : Tty τ N) (log : List (TxRecord τ)) : Prop where
  closed : (∀ t, (s.guard.pc t).phase ≠ .inside) → s.dev.xmit.held ≠ [] →
    (s.dev.txint = true ↔ ¬ Interrupted log)
  closing : ∀ t w ret, s.pc t = .closing w ret → ¬ Interrupted log

/-- A write that is about to close has left its record. -/
theorem ends_closing (hstep : TxStep tcOflag ids s t s') {w : Write} {ret : Int}
    (hpc : s'.pc t = .closing w ret) :
    ∃ bytes, (s.pc t).ends tcOflag t (s'.pc t) = [⟨t, .write w, ret, true, bytes⟩] := by
  have hres' : (s'.pc t).result = some (.write w, ret) := by rw [hpc]; rfl
  cases hres : (s.pc t).result with
  | none => exact ⟨(s.pc t).put tcOflag, by rw [TxPc.ends, hres, hres', hpc]; rfl⟩
  | some r => exact absurd hpc ((hstep.result hres).2 w ret)

/-- **What a call does last inside `xmit.lock`**: a write turns the interrupt on if bytes wait, and
an interrupted drain turns it off. -/
theorem leaves_inside (h : Driven tcOflag ids s) (hstep : TxStep tcOflag ids s t s')
    (hin : (s.guard.pc t).phase = .inside) (hout : (s'.guard.pc t).phase ≠ .inside) :
    (∃ w ret, s.pc t = .closing w ret ∧ (s.pc t).ends tcOflag t (s'.pc t) = [] ∧
      s'.dev.xmit = s.dev.xmit ∧ (s.dev.xmit.head ≠ s.dev.xmit.tail → s'.dev.txint = true)) ∨
    s'.dev.txint = false ∧
      (s.pc t).ends tcOflag t (s'.pc t) = [⟨t, .drain, -eintr, true, []⟩] := by
  cases hstep with
  | lock hpc => exact absurd (hin.symm.trans (h.fits hpc).1) GuardPc.Phase.noConfusion
  | locking _ hne => exact absurd hin hne
  | closing hpc =>
    refine Or.inl ⟨_, _, hpc, ?_, ?_, fun hne => ?_⟩
    · simp only [hpc, Tty.pc_goto_self]
      rfl
    · dsimp only
      split <;> rfl
    · dsimp only
      rw [if_pos hne]
      rfl
  | @drainEnded ret hpc hneg =>
    obtain rfl : ret = -eintr := (h.fits hpc).2.resolve_left hneg.ne
    refine Or.inr ⟨rfl, ?_⟩
    simp only [hpc, Tty.pc_goto_self]
    rfl
  | unlocking hpc | unlocked hpc =>
    have hat := h.fits hpc
    rw [hin] at hat
    rcases hat with hat | hat <;> cases hat
  | _ => exact absurd hin hout

/-- A call goes on. -/
theorem Flight.own (hf : Flight s log) (h : Driven tcOflag ids s)
    (hstep : TxStep tcOflag ids s t s') :
    Flight s' (log ++ (s.pc t).ends tcOflag t (s'.pc t)) := by
  constructor
  · intro hnone hheld
    by_cases hin : (s.guard.pc t).phase = .inside
    · rcases leaves_inside h hstep hin (hnone t) with
        ⟨w, ret, hpc, hends, hxmit, htx⟩ | ⟨htx, hends⟩
      · have hne : s.dev.xmit.head ≠ s.dev.xmit.tail := fun he =>
          hheld (hxmit ▸ UartBuffer.held_eq_nil_iff.mpr he)
        rw [hends, List.append_nil, htx hne]
        exact ⟨fun _ => hf.closing t w ret hpc, fun _ => rfl⟩
      · rw [hends, htx]
        refine ⟨fun hfalse => absurd hfalse Bool.false_ne_true, fun hnot => ?_⟩
        exact absurd ((interrupted_snoc rfl).mpr ⟨rfl, rfl⟩) hnot
    · obtain ⟨hdev, hends⟩ := h.outside hstep hin
      rw [hdev, hends, List.append_nil]
      rw [hdev] at hheld
      refine hf.closed (fun u => ?_) hheld
      by_cases hu : u = t
      · exact hu ▸ hin
      · exact (hstep.of_ne hu).2 ▸ hnone u
  · intro u w ret hpc
    by_cases hu : u = t
    · subst hu
      obtain ⟨bytes, hends⟩ := ends_closing hstep hpc
      rw [hends, interrupted_snoc rfl]
      simp
    · have hold : s.pc u = .closing w ret := (hstep.of_ne hu).1 ▸ hpc
      have hout : (s.guard.pc t).phase ≠ .inside := fun ht => hu (h.inside_unique ht (h.fits hold))
      rw [(h.outside hstep hout).2, List.append_nil]
      exact hf.closing u w ret hold

omit [DecidableEq τ] in
/-- Nobody leaves `xmit.lock`, and the records of the calls inside it are the same. -/
theorem Flight.frame {log' : List (TxRecord τ)} (hf : Flight s log)
    (hlog : Interrupted log' ↔ Interrupted log)
    (hphase : (∀ u, (s'.guard.pc u).phase ≠ .inside) → ∀ u, (s.guard.pc u).phase ≠ .inside)
    (hpc : ∀ u w ret, s'.pc u = .closing w ret → s.pc u = .closing w ret)
    (hdev : s'.dev.xmit.held ≠ [] → s.dev.xmit.held ≠ [] ∧ s'.dev.txint = s.dev.txint) :
    Flight s' log' := by
  constructor
  · intro hnone hheld
    obtain ⟨hheld', htx⟩ := hdev hheld
    rw [htx, hlog]
    exact hf.closed (hphase hnone) hheld'
  · intro u w ret hu
    rw [hlog]
    exact hf.closing u w ret (hpc u w ret hu)

omit [NeZero N] [DecidableEq τ] in
theorem TxPc.eq_closing_of_wake {pc : TxPc N} {w : Write} {r ret : Int}
    (h : pc.wake r = .closing w ret) : pc = .closing w ret := by
  cases pc with
  | closing => exact h
  | _ => cases h

omit [NeZero N] in
theorem Tty.eq_closing_of_sent {r : UartTx τ N × List τ} {u : τ} {w : Write} {ret : Int}
    (h : (s.sent r).pc u = .closing w ret) : s.pc u = .closing w ret := by
  change (if u ∈ r.2 then (s.pc u).wake 0 else s.pc u) = _ at h
  split at h
  · exact TxPc.eq_closing_of_wake h
  · exact h

omit [NeZero N] in
theorem Tty.eq_closing_of_goto {pc : TxPc N} {u : τ} {w : Write} {ret : Int}
    (hpc : pc = .closing w ret → s.pc t = .closing w ret)
    (h : (s.goto t pc).pc u = .closing w ret) : s.pc u = .closing w ret := by
  by_cases hu : u = t
  · subst hu
    rw [Tty.pc_goto_self] at h
    exact hpc h
  · rwa [s.pc_goto_of_ne pc hu] at h

/-- A task moves to a place other than `closing`, and leaves no record. -/
theorem Flight.goto (hf : Flight s log) {pc : TxPc N}
    (hpc : ∀ w ret, pc = .closing w ret → s.pc t = .closing w ret) :
    Flight (s.goto t pc) (log ++ []) := by
  rw [List.append_nil]
  exact hf.frame Iff.rfl id (fun u w ret => Tty.eq_closing_of_goto (hpc w ret))
    fun hheld => ⟨hheld, rfl⟩

/-- `TCOFLUSH`. -/
theorem Flight.flush (hf : Flight s log) (dev : UartTx τ N) :
    Flight ((s.sent (uartDatasent ids.pid dev.flushed)).goto t (.returning .flush 0))
      (log ++ [⟨t, .flush, 0, false, []⟩]) := by
  refine hf.frame (interrupted_snoc_of_not_locked rfl) id (fun u w ret hu => ?_) fun hheld => ?_
  · exact Tty.eq_closing_of_sent (Tty.eq_closing_of_goto (fun he => by cases he) hu)
  · exact absurd (UartBuffer.held_eq_nil_iff.mpr rfl) hheld

/-- The busy wait of a drain: the buffer is empty, and no write is inside. -/
theorem Flight.poll (h : Driven tcOflag ids s) (hpc : s.pc t = .polling) (hdev : s'.dev = s.dev)
    (hold : ∀ u w ret, s'.pc u = .closing w ret → s.pc u = .closing w ret) : Flight s' log := by
  obtain ⟨hin, hempty⟩ := h.fits hpc
  constructor
  · intro _ hheld
    rw [hdev] at hheld
    exact absurd (UartBuffer.held_eq_nil_iff.mpr hempty) hheld
  · intro u w ret hu
    have hclosing := hold u w ret hu
    rw [h.inside_unique hin (h.fits hclosing), hpc] at hclosing
    cases hclosing

/-- The transmit interrupt stays on as long as bytes wait. -/
theorem Flight.interrupt (hN' : N < 2 ^ 16) (hf : Flight s log) (ready : ℕ) :
    Flight (s.sent (uartXmitchars ids.pid s.dev ready)) (log ++ []) := by
  obtain ⟨hxmit, -, htx⟩ := uartXmitchars_dev ids.pid ready hN'
  rw [List.append_nil]
  refine hf.frame Iff.rfl id (fun u w ret => Tty.eq_closing_of_sent) fun hheld => ?_
  change (uartXmitchars ids.pid s.dev ready).1.xmit.held ≠ [] at hheld
  rw [hxmit] at hheld
  constructor
  · rw [(xmitLoop_takes s.dev.xmit ready).held]
    exact List.append_ne_nil_of_right_ne_nil _ hheld
  · have hne : (xmitLoop s.dev.xmit ready).1.head ≠ (xmitLoop s.dev.xmit ready).1.tail :=
      fun he => hheld (UartBuffer.held_eq_nil_iff.mpr he)
    show (uartXmitchars ids.pid s.dev ready).1.txint = s.dev.txint
    rw [htx, UartTx.transmitted]
    exact if_neg hne

/-- `nxmutex_lock` is refused. -/
theorem Flight.refused (hf : Flight s log) {op : TxOp} {mutex : Bool}
    (hg : s.guard.pc t = .locking (.enter mutex)) :
    Flight { s.goto t (.returning op (-eintr)) with guard := s.guard.goto t .out }
      (log ++ [⟨t, op, -eintr, false, []⟩]) := by
  refine hf.frame (interrupted_snoc_of_not_locked rfl) (fun hnone u => ?_) (fun u w ret hu => ?_)
    fun hheld => ⟨hheld, rfl⟩
  · by_cases hut : u = t
    · rw [hut, hg]
      exact GuardPc.Phase.noConfusion
    · rw [← Guard.pc_goto_of_ne (g := s.guard) .out hut]
      exact hnone u
  · exact Tty.eq_closing_of_goto (fun he => by cases he) hu

/-- **Every step keeps the interrupt on when it has to be.** -/
theorem Flight.step (hN' : N < 2 ^ 16) (hf : Flight s log) (h : Driven tcOflag ids s)
    {l : TtyLabel τ} (hs : tty tcOflag ids s l = some s') :
    Flight s' (log ++ s.ended tcOflag ids l) := by
  cases l with
  | step t =>
    rw [Tty.ended_step hs]
    rcases h.txStep hs with ⟨hflush, rfl⟩ | hstep
    · rw [hflush, Tty.pc_goto_self]
      exact hf.flush s.dev
    · exact hf.own h hstep
  | poll t txempty elapsed =>
    obtain ⟨hpc, rfl | ⟨ret, -, rfl⟩⟩ := tty_poll_eq_some hs
    · exact .poll h hpc rfl fun _ _ _ => id
    · exact .poll h hpc rfl fun u w ret => Tty.eq_closing_of_goto (fun he => by cases he)
  | call t op =>
    obtain ⟨-, rfl⟩ := tty_call_eq_some hs
    exact hf.goto fun w ret he => by cases he
  | ret t =>
    obtain ⟨-, -, -, rfl⟩ := tty_ret_eq_some hs
    exact hf.goto fun w ret he => by cases he
  | interrupt ready => exact tty_interrupt_eq_some hs ▸ hf.interrupt hN' ready
  | signal t =>
    rw [Tty.ended_signal hs]
    rcases tty_signal_eq_some hs with ⟨-, rfl⟩ | ⟨op, mutex, hpc, hg, rfl⟩
    · dsimp only
      rw [Tty.pc_goto_self, TxPc.ends_wake, List.append_nil]
      exact hf.frame Iff.rfl id
        (fun u w ret => Tty.eq_closing_of_goto TxPc.eq_closing_of_wake) fun hheld => ⟨hheld, rfl⟩
    · dsimp only
      rw [hpc, Tty.pc_goto_self]
      exact hf.refused hg

end Flight

/-- **Buffered bytes are in flight.** In every state that any number of tasks of one priority bring
the driver to from `uart_register` on, as long as none of them exits and nothing is echoed: when no
call is inside `xmit.lock` and bytes wait in the buffer, the transmit interrupt is on unless the
last call to finish inside `xmit.lock` is a drain that a signal ended; then it is off. -/
theorem buffered_bytes_in_flight {τ : Type} [DecidableEq τ] {N : ℕ} [NeZero N] (tcOflag : UInt32)
    (ids : Tasks τ) (hprio : ∀ t u, ids.prio t = ids.prio u) (hN : 1 < N) (hN' : N < 2 ^ 16)
    {ls : List (TtyLabel τ)} {s : Tty τ N} (hls : ∀ l ∈ ls, l.Silent)
    (h : run (tty tcOflag ids) Tty.init ls = some s)
    (hout : ∀ t, (s.guard.pc t).phase ≠ .inside) (hheld : s.dev.xmit.held ≠ []) :
    s.dev.txint = true ↔ ¬ Interrupted
      (trace (tty tcOflag ids) (Tty.ended tcOflag ids) (Tty.init : Tty τ N) ls) := by
  have hflight := run_history (C := TtyLabel.Silent) (I := fun ls s => Driven tcOflag ids s ∧
    Flight s (trace (tty tcOflag ids) (Tty.ended tcOflag ids) (Tty.init : Tty τ N) ls)) ?_ ?_ hls h
  · exact hflight.2.closed hout hheld
  · refine ⟨driven_init hprio, fun _ hheld => absurd Data.held_self hheld, fun t w ret hpc => ?_⟩
    cases hpc
  · rintro ls s l s' hrun ⟨hdriven, hf⟩ hl hs
    rw [trace_snoc _ _ hrun hs]
    exact ⟨hdriven.step hN hN' hl hs, hf.step hN' hdriven hs⟩

/-- The camera writes a byte, and a signal ends its drain before the byte is sent; the hello task
is to drain too, waits for the lock, and has a signal pending. -/
def endedDrain : List (TtyLabel Task) :=
  [[.call .camera (.write ⟨[1], true⟩)], .replicate 18 (.step .camera),
    [.ret .camera, .call .camera .drain], .replicate 6 (.step .camera),
    [.call .hello .drain], .replicate 4 (.step .hello),
    [.signal .camera, .step .camera, .signal .hello]].flatten

/-- A byte that waits with the interrupt off, after a drain that a signal ended. -/
theorem buffered_bytes_in_flight_endedDrain :
    ∃ s : Tty Task 4, run (tty 0 launchTasks) Tty.init endedDrain = some s ∧
      s.dev.xmit.held = [1] ∧ s.dev.txint = false ∧
      Interrupted (trace (tty 0 launchTasks) (Tty.ended 0 launchTasks)
        (Tty.init : Tty Task 4) endedDrain) := by
  obtain ⟨s, hs, hheld, htx, hcamera, hhello⟩ : ∃ s : Tty Task 4,
      run (tty 0 launchTasks) Tty.init endedDrain = some s ∧ s.dev.xmit.held = [1] ∧
        s.dev.txint = false ∧ (s.guard.pc .camera).phase = .unlocking ∧
          (s.guard.pc .hello).phase = .out := by
    have hrun : (run (tty 0 launchTasks) (Tty.init : Tty Task 4) endedDrain).map
        (fun s => (s.dev.xmit.held, s.dev.txint, (s.guard.pc .camera).phase,
          (s.guard.pc .hello).phase)) = some ([1], false, .unlocking, .out) := by decide
    obtain ⟨s, hs, heq⟩ := Option.map_eq_some_iff.mp hrun
    simp only [Prod.mk.injEq] at heq
    exact ⟨s, hs, heq⟩
  have hsilent : ∀ l ∈ endedDrain, l.Silent := by
    intro l hl t chs he
    simp [endedDrain, he] at hl
  have hout : ∀ t, (s.guard.pc t).phase ≠ .inside := by
    intro t
    cases t with
    | camera => rw [hcamera]; simp
    | hello => rw [hhello]; simp
  have hiff := buffered_bytes_in_flight 0 launchTasks (fun _ _ => rfl) (by decide) (by decide)
    hsilent hs hout (by rw [hheld]; simp)
  rw [htx] at hiff
  exact ⟨s, hs, hheld, htx, not_not.mp fun hnot => absurd (hiff.mpr hnot) Bool.false_ne_true⟩

end CameraPipeline
