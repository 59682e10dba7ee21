import CameraPipeline.Sched.Priorities

/-!
# Every step keeps the invariant

One theorem for each thing that may happen: a task is created or activated, waits for a semaphore or
is released, sleeps or is woken, enables or disables preemption, exits. Each takes the kernel to one
that represents lists in order. What a wait, a post and a timeout do to their semaphore is what the
functions of `Lock.Semaphore` do when nothing comes between their actions, and as many tasks wait
for a semaphore as its count says, until a post wraps it.

## Main results

* `Good.create`, `Good.activate`, `Good.semWait`, `Good.semPost`, …: the steps
* `Good.exec`: every enabled step is one, and keeps the invariant
-/

namespace CameraPipeline

open Data Systems

/-! ## Fields that no list depends on -/

section Fields

variable {ν κ : Type} {s s' : Kernel ν κ} {A : Sched ν κ} {out : Option ν} {x : ν}

theorem Rep.withLockcount (h : Rep s A out) (f : ν → ℕ) :
    Rep { s with lockcount := f } { A with lockcount := f } out :=
  ⟨h.queues, h.place, h.running, h.waiting, h.absent, h.prio, rfl, h.semval⟩

theorem Rep.withSemval (h : Rep s A out) (f : κ → UInt32) :
    Rep { s with semval := f } { A with semval := f } out :=
  ⟨h.queues, h.place, h.running, h.waiting, h.absent, h.prio, h.lockcount, rfl⟩

/-- The state of a running task names its list whatever it waits for. -/
theorem Rep.withWaitobj [DecidableEq ν] (h : Rep s A out) (hx : s.taskState x = .running)
    (w : Option κ) : Rep { s with waitobj := Function.update s.waitobj x w } A out := by
  refine ⟨h.queues, fun t ht i => ?_, h.running, fun t ht hs => ?_, h.absent, h.prio, h.lockcount,
    h.semval⟩
  · by_cases htx : t = x
    · subst htx
      rw [h.place t ht i, hx]
      rfl
    · simpa [htx] using h.place t ht i
  · have htx : t ≠ x := fun he => by
      rw [he, hx] at hs
      cases hs
    simpa [htx] using h.waiting t ht hs

/-- A task that is in no list may have any state and any wait. -/
theorem Rep.congr_out (h : Rep s A (some x)) (hlinks : s'.links = s.links)
    (hlist : s'.tasklist = s.tasklist)
    (hother : ∀ t, t ≠ x → s'.taskState t = s.taskState t ∧ s'.waitobj t = s.waitobj t)
    (hprio : s'.schedPriority = s.schedPriority) (hlock : s'.lockcount = s.lockcount)
    (hsem : s'.semval = s.semval) : Rep s' A (some x) := by
  have hne : ∀ {t}, some t ≠ some x → t ≠ x := fun ht he => ht (congrArg some he)
  refine ⟨?_, fun t ht i => ?_, fun t ht => ?_, fun t ht => ?_, h.absent, hprio.trans h.prio,
    hlock.trans h.lockcount, hsem.trans h.semval⟩
  · rw [hlinks, hlist]
    exact h.queues
  · obtain ⟨hst, hw⟩ := hother t (hne ht)
    rw [hst, hw]
    exact h.place t ht i
  · rw [(hother t (hne ht)).1]
    exact h.running t ht
  · obtain ⟨hst, hw⟩ := hother t (hne ht)
    rw [hst, hw]
    exact h.waiting t ht

/-- A free task is in no list. -/
theorem Rep.take (h : Rep s A none) (hx : s.taskState x = .invalid) : Rep s A (some x) := by
  have hout : ∀ i, x ∉ A.lists i := fun i hi => by
    have := h.tlistHead_eq hi
    rw [hx] at this
    cases this
  refine ⟨h.queues, fun t _ i => h.mem_iff, fun t _ => h.running_iff t,
    fun t _ => h.isSome_waitobj t, fun t ht => ?_, h.prio, h.lockcount, h.semval⟩
  obtain rfl := Option.some.inj ht
  exact hout

end Fields

/-! ## One step -/

section Step

variable {ν κ : Type} [DecidableEq ν] [DecidableEq κ] [Fintype ν] {s : Kernel ν κ} {A : Sched ν κ}
  {idle x : ν} {k : κ} {p : UInt8}

omit [DecidableEq ν] [DecidableEq κ] [Fintype ν] in
theorem Sched.Ordered.withLockcount (h : A.Ordered idle) (f : ν → ℕ) :
    Sched.Ordered idle { A with lockcount := f } :=
  ⟨h.idle_last, h.idle_prio, h.prio_pos, h.sorted⟩

omit [DecidableEq ν] [DecidableEq κ] [Fintype ν] in
theorem Sched.Inv.withSemval (h : A.Inv idle) (f : κ → UInt32) :
    Sched.Inv idle { A with semval := f } :=
  ⟨⟨h.idle_last, h.idle_prio, h.prio_pos, h.sorted⟩, h.unlocked⟩

omit [Fintype ν] in
/-- A task is created. -/
theorem Good.create (h : Good idle s A) (hx : s.taskState x = .invalid) (hp : 1 ≤ p) :
    ∃ A', Good idle (nxthreadSetupScheduler s x p) A' ∧ A.Keeps A' := by
  have h₀ := h.rep.take hx
  have hout := h₀.absent x rfl
  have hidle : x ≠ idle := fun he => hout .readytorun (he ▸ h.inv.idle_mem)
  have hpos : 0 < p := UInt8.lt_of_lt_of_le (by decide) hp
  have h₁ := (h₀.withPriority (x := x) (p := p)).withLockcount (Function.update s.lockcount x 0)
  have hadd := dqAddfirst_eq (h.rep.queues.queue .inactivetasks) (hout .inactivetasks)
  have h₂ := h₁.enter_at (l := []) (i := .inactivetasks) .inactive (by simp) rfl rfl (by simp)
    (by simp)
  have ho₁ : (A.setPrio x p).Ordered idle := h.inv.setPrio hidle hpos fun _ hmem =>
    absurd hmem (hout _)
  have ho₂ : Sched.Ordered idle (Sched.put
      { A.setPrio x p with lockcount := Function.update s.lockcount x 0 } .inactivetasks
      (x :: A.lists .inactivetasks)) := by
    refine (ho₁.withLockcount _).put (fun t ht hti => ?_) (absurd · Bool.false_ne_true) (by simp)
    rcases List.mem_cons.mp ht with rfl | ht
    · simpa [Sched.setPrio] using hpos
    · exact ho₁.prio_pos ht hti
  refine ⟨_, ⟨?_, ⟨ho₂, fun hl => ?_⟩⟩, fun k => ?_, rfl⟩
  · simp only [nxthreadSetupScheduler, Kernel.setPriority]
    rw [hadd]
    exact h₂
  · rw [Sched.put_pending _ (i := .inactivetasks) (by simp)]
    refine h.inv.unlocked ?_
    rintro ⟨t, ht, hlock⟩
    refine hl ⟨t, ?_, ?_⟩
    · rw [Sched.put_ready _ (i := .inactivetasks) (by simp)]
      exact ht
    · have htx : t ≠ x := fun he => hout .readytorun (he ▸ List.mem_of_head? ht)
      simpa [Sched.put, htx, h.rep.lockcount] using hlock
  · exact Sched.put_lists_of_ne _ (i := .inactivetasks) (j := .waitlist k) (by simp) _

/-- A task in no list becomes ready to run or pending. -/
theorem Rep.good_add (h : Rep s A (some x)) (hinv : A.Inv idle) (hx : 0 < A.prio x) :
    ∃ s' A', (nxschedAddReadytorun s x).map Prod.fst = some s' ∧ Good idle s' A' ∧ A.Keeps A' := by
  obtain ⟨s', A', hadd, hrep, hinv', hk⟩ := h.add hinv hx
  exact ⟨s', A', hadd, ⟨hrep, hinv'⟩, hk⟩

/-- A created task is activated. -/
theorem Good.activate (h : Good idle s A) (hx : s.taskState x = .inactive) :
    ∃ s' A', nxtaskActivate s x = some s' ∧ Good idle s' A' ∧ A.Keeps A' := by
  have hmem : x ∈ A.lists .inactivetasks := h.rep.mem_iff.mpr (by rw [hx]; rfl)
  obtain ⟨l, r, hi⟩ := List.append_of_mem hmem
  have h₁ := h.rep.leave_other hi (by simp)
  have hinv₁ := h.inv.leave hi (by simp) (h.rep.ne_idle h.inv.toOrdered hmem (by simp))
  rw [nxtaskActivate, h.rep.tlistHead_eq hmem, Option.bind_some]
  obtain ⟨s', A', hadd, hgood, hk⟩ := Rep.good_add
    (s := { Kernel.setState (s.rem x .inactivetasks) x .invalid with
      waitobj := Function.update s.waitobj x none })
    (h₁.congr_out rfl rfl (fun t ht => by simp [Kernel.setState, Kernel.rem, Kernel.setList, ht])
      rfl rfl rfl) hinv₁ (h.rep.prio_pos h.inv.toOrdered hmem (by simp))
  exact ⟨s', A', hadd, hgood, (Sched.keeps_put fun k => by simp).trans hk⟩

/-- The sleep of a task is over, if it still sleeps. -/
theorem Good.sigTimeout (h : Good idle s A) :
    ∃ s' A', nxsigTimeout s x = some s' ∧ Good idle s' A' ∧ A.Keeps A' := by
  rw [nxsigTimeout]
  split
  · rename_i hx
    have hmem : x ∈ A.lists .waitingforsignal := h.rep.mem_iff.mpr (by rw [hx]; rfl)
    obtain ⟨l, r, hi⟩ := List.append_of_mem hmem
    have hinv₁ := h.inv.leave hi (by simp) (h.rep.ne_idle h.inv.toOrdered hmem (by simp))
    obtain ⟨s', A', hadd, hgood, hk⟩ := Rep.good_add (h.rep.leave_other hi (by simp)) hinv₁
      (h.rep.prio_pos h.inv.toOrdered hmem (by simp))
    exact ⟨s', A', hadd, hgood, (Sched.keeps_put fun k => by simp).trans hk⟩
  · exact ⟨s, A, rfl, h, .refl A⟩

/-- **The wait of a task for a semaphore is over**, if it still waits: what `nxsem_wait_irq` does to
the semaphore. -/
theorem Good.semTimeout (h : Good idle s A) :
    ∃ s' A', s.semTimeout x = some s' ∧ Good idle s' A' ∧ (A'.sem = A.sem ∨
      ∃ k, x ∈ (A.sem k).waitlist ∧
        A'.sem = Function.update A.sem k (nxsemWaitIrq (A.sem k) x)) := by
  rw [Kernel.semTimeout]
  split
  · rename_i hx
    obtain ⟨k, hk⟩ := Option.isSome_iff_exists.mp (h.rep.isSome_waitobj x hx)
    have hmem : x ∈ A.lists (.waitlist k) := h.rep.mem_iff.mpr (by rw [hx, hk]; rfl)
    obtain ⟨l, r, hi⟩ := List.append_of_mem hmem
    have hxl : x ∉ l := fun hl => by
      have hnodup := (h.rep.queues.queue (.waitlist k)).nodup
      rw [hi] at hnodup
      exact (List.nodup_append.mp hnodup).2.2 x hl x List.mem_cons_self rfl
    have h₁ := (h.rep.leave_other hi (by simp)).withSemval
      (Function.update A.semval k (A.semval k + 1))
    have hinv₁ := h.inv.leave hi (by simp) (h.rep.ne_idle h.inv.toOrdered hmem (by simp))
    rw [hk, Option.bind_some]
    obtain ⟨s', A', hadd, hgood, hkeeps⟩ := Rep.good_add
      (s := { s.rem x (.waitlist k) with
        semval := Function.update s.semval k (s.semval k + 1)
        waitobj := Function.update s.waitobj x none })
      (h₁.congr_out rfl rfl (fun t ht => by simp [Kernel.rem, Kernel.setList, ht]) rfl rfl
        (by simp [h.rep.semval])) (hinv₁.withSemval _)
      (h.rep.prio_pos h.inv.toOrdered hmem (by simp))
    refine ⟨s', A', hadd, hgood, Or.inr ⟨k, hmem, ?_⟩⟩
    rw [hkeeps.sem, Sched.sem_put, nxsemWaitIrq, Sched.sem, hi, List.erase_append_right _ hxl,
      List.erase_cons_head]
  · exact ⟨s, A, rfl, h, Or.inl rfl⟩

/-- **A semaphore is posted**: what a post that nothing comes between does to it. -/
theorem Good.semPost (h : Good idle s A) (pid : ν → UInt32) :
    ∃ s' A', s.semPost k = some s' ∧ Good idle s' A' ∧
      A'.sem = Function.update A.sem k (nxsemPostAlone pid (A.sem k)).1 := by
  have h₀ := h.rep.withSemval (Function.update A.semval k (A.semval k + 1))
  have hinv₀ := h.inv.withSemval (Function.update A.semval k (A.semval k + 1))
  have hq := h.rep.queues.queue (.waitlist k)
  have hval : (A.sem k).val = A.semval k := rfl
  simp only [Kernel.semPost, Kernel.semcount, h.rep.semval, nxsemPostAlone, hval]
  split
  · cases hi : A.lists (.waitlist k) with
    | nil =>
      rw [hi] at hq
      refine ⟨_, _, ?_, ⟨h₀, hinv₀⟩, ?_⟩
      · rw [dqRemfirst_nil hq]
        simp [Kernel.setList, Function.update_eq_self]
      · rw [Sched.sem_withSemval, wakeFirst]
        simp only [Sched.sem, hi]
    | cons x r =>
      rw [hi] at hq
      have hmem : x ∈ A.lists (.waitlist k) := by rw [hi]; exact List.mem_cons_self
      have h₁ := (h.rep.leave_at (l := []) hi (by simp)).withSemval
        (Function.update A.semval k (A.semval k + 1))
      have hinv₁ := h.inv.leave (l := []) hi (by simp)
        (h.rep.ne_idle h.inv.toOrdered hmem (by simp))
      simp only [dqRemfirst_eq hq]
      obtain ⟨s', A', hadd, hgood, hkeeps⟩ := Rep.good_add
        (s := { s.setList (.waitlist k) (s.links.cut none x r.head?,
            (s.tasklist (.waitlist k)).cut none r.head?) with
          semval := Function.update A.semval k (A.semval k + 1)
          waitobj := Function.update s.waitobj x none })
        (h₁.congr_out rfl rfl (fun t ht => by simp [Kernel.setList, ht]) rfl rfl rfl)
        (hinv₁.withSemval _) (h.rep.prio_pos h.inv.toOrdered hmem (by simp))
      refine ⟨s', A', hadd, hgood, ?_⟩
      rw [hkeeps.sem, Sched.sem_put, wakeFirst]
      simp only [Sched.sem, hi, Bool.false_eq_true, if_false, List.nil_append]
  · exact ⟨_, _, rfl, ⟨h₀, hinv₀⟩, Sched.sem_withSemval k _⟩

/-- **The running task waits for a semaphore**: what a wait that nothing comes between does to
it. -/
theorem Good.semWait (h : Good idle s A) (hen : 0 < s.semcount k ∨ s.thisTask ≠ some idle)
    (getTcb : UInt32 → Bool) (tid : UInt32) :
    ∃ s' A' x, s.semWait k = some s' ∧ Good idle s' A' ∧ A.ready.head? = some x ∧
      A'.sem = Function.update A.sem k (nxsemWaitSlow getTcb tid A.prio x (A.sem k) false).1 := by
  have h₀ := h.rep.withSemval (Function.update A.semval k (A.semval k - 1))
  have hinv₀ := h.inv.withSemval (Function.update A.semval k (A.semval k - 1))
  obtain ⟨x, rest, hready, hthis⟩ := h.exists_head
  have hhead : A.ready.head? = some x := by rw [hready]; rfl
  have hval : (A.sem k).val = A.semval k := rfl
  simp only [Kernel.semcount, h.rep.semval] at hen
  simp only [Kernel.semWait, Kernel.semcount, h.rep.semval, nxsemWaitSlow, Bool.false_eq_true,
    if_false, hval]
  split
  · exact ⟨_, _, x, rfl, ⟨h₀, hinv₀⟩, hhead, Sched.sem_withSemval k _⟩
  · rename_i hpos
    have hx : x ≠ idle := fun he => hen.elim hpos (fun hne => hne (he ▸ hthis))
    have hpos₀ : 0 < A.prio x := h.inv.prio_pos (List.mem_of_head? hhead) hx
    have hrun : s.taskState x = .running := (h.rep.running_iff x).mpr hhead
    obtain ⟨s₁, A₁, hself, h₁, hinv₁, hk₁, hprio₁, hw₁⟩ :=
      (h₀.withWaitobj hrun (some k)).removeSelf hinv₀.toOrdered hhead hx
    have hwx : s₁.waitobj x = some k := by
      rw [hw₁]
      exact Function.update_self ..
    obtain ⟨s₂, b, hadd, h₂, -, -⟩ := h₁.enter_other (i := .waitlist k) .waitSem (by simp)
      (by rw [hwx]; rfl) (by simp) (by rw [hwx]; exact fun _ => rfl)
    have hpos₁ : 0 < A₁.prio x := by rwa [hprio₁]
    refine ⟨s₂.setState x .waitSem, _, x, ?_, ⟨h₂, ?_⟩, hhead, ?_⟩
    · have hthis' : Kernel.thisTask { s with
          semval := Function.update A.semval k (A.semval k - 1) } = some x := hthis
      simp only [hthis', Option.bind_some]
      rw [hself, Option.bind_some, Kernel.addPrioritized_setState, hadd]
      rfl
    · refine hinv₁.congr (hinv₁.join hpos₁ rfl) ?_ rfl fun hnil => ?_
      · rw [Sched.join, Sched.put_ready _ (i := .waitlist k) (by simp)]
      · rw [Sched.join, Sched.put_pending _ (i := .waitlist k) (by simp), hnil]
    · have hlist : A₁.lists (.waitlist k) = A.lists (.waitlist k) := hk₁.waitlist k
      have hsem := hk₁.sem.trans (Sched.sem_withSemval (A := A) k (A.semval k - 1))
      have hjoin := Sched.sem_put (A := A₁) k (insertTask A₁.prio x (A₁.lists (.waitlist k)))
        (A.semval k - 1)
      have hval₁ : Function.update A₁.semval k (A.semval k - 1) = A₁.semval := by
        rw [hk₁.semval]
        exact Function.update_idem _ _ _
      rw [hval₁, hsem, Function.update_idem, hlist, hprio₁] at hjoin
      rw [Sched.join, hlist, hprio₁]
      exact hjoin

omit [DecidableEq ν] [DecidableEq κ] in
/-- Fewer tasks wait than there are: the running one does not. -/
theorem Rep.length_waitlist_lt (h : Rep s A none) (hx : A.ready.head? = some x) (k : κ) :
    (A.sem k).waitlist.length < Fintype.card ν := by
  have hnot : x ∉ A.lists (.waitlist k) := fun hmem =>
    absurd (h.queues.disjoint hmem (List.mem_of_head? hx)) (by simp)
  exact (List.nodup_cons.mpr ⟨hnot, (h.queues.queue (.waitlist k)).nodup⟩).length_le_card

/-- The running task sleeps. -/
theorem Good.sleep (h : Good idle s A) (hen : s.thisTask ≠ some idle) :
    ∃ s' A', nxsigClockwait s = some s' ∧ Good idle s' A' ∧ A.Keeps A' := by
  obtain ⟨x, rest, hready, hthis⟩ := h.exists_head
  have hx : x ≠ idle := fun he => hen (he ▸ hthis)
  have hhead : A.ready.head? = some x := by rw [hready]; rfl
  have hpos₀ : 0 < A.prio x := h.inv.prio_pos (List.mem_of_head? hhead) hx
  obtain ⟨s₁, A₁, hself, h₁, hinv₁, hk₁, hprio₁, -⟩ := h.rep.removeSelf h.inv.toOrdered hhead hx
  have hadd := dqAddlast_eq (h₁.queues.queue .waitingforsignal) (h₁.absent x rfl .waitingforsignal)
  have h₂ := h₁.enter_at (i := .waitingforsignal) .waitSig (by simp)
    (List.append_nil _).symm rfl (by simp) (by simp)
  have ho₂ : (A₁.put .waitingforsignal (A₁.lists .waitingforsignal ++ [x])).Ordered idle := by
    refine hinv₁.put (fun t ht hti => ?_) (absurd · Bool.false_ne_true) (by simp)
    rcases List.mem_append.mp ht with ht | ht
    · exact hinv₁.prio_pos ht hti
    · obtain rfl := List.mem_singleton.mp ht
      rwa [hprio₁]
  refine ⟨_, _, ?_, ⟨h₂, hinv₁.congr ho₂ ?_ rfl fun hnil => ?_⟩,
    hk₁.trans (Sched.keeps_put fun k => by simp)⟩
  · simp only [nxsigClockwait, hthis, hself, Option.bind_some, Kernel.setState]
    rw [hadd]
    rfl
  · rw [Sched.put_ready _ (i := .waitingforsignal) (by simp)]
  · rw [Sched.put_pending _ (i := .waitingforsignal) (by simp), hnil]

/-- The running task exits. -/
theorem Good.exit (h : Good idle s A) (hen : s.thisTask ≠ some idle) :
    ∃ s' A', nxtaskExit s = some s' ∧ Good idle s' A' ∧ A.Keeps A' := by
  obtain ⟨x, rest, hready, hthis⟩ := h.exists_head
  have hx : x ≠ idle := fun he => hen (he ▸ hthis)
  have hhead : A.ready.head? = some x := by rw [hready]; rfl
  obtain ⟨s₁, A₁, hself, h₁, hinv₁, hk₁, -, -⟩ := h.rep.removeSelf h.inv.toOrdered hhead hx
  obtain ⟨y, rest₁, hready₁⟩ := List.exists_cons_of_ne_nil hinv₁.ready_ne_nil
  have hthis₁ : s₁.thisTask = some y := by rw [h₁.thisTask, hready₁]; rfl
  have hyx : some y ≠ some x := fun he => by
    refine h₁.absent x rfl .readytorun ?_
    rw [← Sched.ready, hready₁, ← Option.some.inj he]
    exact List.mem_cons_self
  have hrun : s₁.setState y .running = s₁ := by
    have hy : s₁.taskState y = .running := (h₁.running y hyx).mpr (by rw [hready₁]; rfl)
    rw [Kernel.setState, ← hy, Function.update_eq_self]
  refine ⟨s₁.setState x .invalid, A₁, ?_, ⟨h₁.close, hinv₁⟩, hk₁⟩
  rw [nxtaskExit, hthis, Option.bind_some, hself, Option.bind_some, hthis₁, Option.map_some, hrun]

omit [DecidableEq κ] [Fintype ν] in
/-- The running task disables preemption. -/
theorem Good.schedLock (h : Good idle s A) :
    ∃ s' A', schedLock s = some s' ∧ Good idle s' A' ∧ A.Keeps A' := by
  obtain ⟨x, rest, hready, hthis⟩ := h.exists_head
  have h₁ := h.rep.withLockcount (Function.update s.lockcount x (s.lockcount x + 1))
  refine ⟨_, _, by rw [CameraPipeline.schedLock, hthis]; rfl, ⟨h₁,
    ⟨h.inv.toOrdered.withLockcount _, fun hl => absurd ⟨x, ?_, ?_⟩ hl⟩⟩, fun _ => rfl, rfl⟩
  · show A.ready.head? = some x
    rw [hready]
    rfl
  · simp

/-- The running task enables preemption. -/
theorem Good.schedUnlock (h : Good idle s A)
    (hen : ∀ rtcb, s.thisTask = some rtcb → 0 < s.lockcount rtcb) :
    ∃ s' A', schedUnlock s = some s' ∧ Good idle s' A' ∧ A.Keeps A' := by
  obtain ⟨x, rest, hready, hthis⟩ := h.exists_head
  have hpos := hen x hthis
  have h₁ := h.rep.withLockcount (Function.update s.lockcount x (s.lockcount x - 1))
  have ho₁ := h.inv.toOrdered.withLockcount (Function.update s.lockcount x (s.lockcount x - 1))
  rw [CameraPipeline.schedUnlock, hthis, Option.bind_some]
  dsimp only
  split
  · obtain ⟨s₂, b, hmerge, h₂, hinv₂, -⟩ := h₁.mergeIfPending ho₁
    have hk : A.Keeps { A with
        lockcount := Function.update s.lockcount x (s.lockcount x - 1) } := ⟨fun _ => rfl, rfl⟩
    exact ⟨s₂, _, by rw [hmerge]; rfl, ⟨h₂, hinv₂⟩, hk.trans Sched.keeps_merge⟩
  · rename_i hone
    refine ⟨_, _, rfl, ⟨h₁, ⟨ho₁, fun hl => absurd ⟨x, ?_, ?_⟩ hl⟩⟩, fun _ => rfl, rfl⟩
    · show A.ready.head? = some x
      rw [hready]
      rfl
    · simp only [Function.update_self]
      omega

/-- **Every enabled step is one, and keeps the invariant.** The counts of the semaphores stay true
where no post wraps one; a wait does not, with fewer tasks than it takes. -/
theorem Good.exec (h : Good idle s A) {l : SchedLabel ν κ} (hl : l.Enabled idle s) :
    ∃ s' A', l.exec s = some s' ∧ Good idle s' A' ∧
      (Fintype.card ν ≤ 2 ^ 31 → PostBelowMax s l → A.Counted → A'.Counted) := by
  have hkeep : ∀ {A'}, A.Keeps A' →
      Fintype.card ν ≤ 2 ^ 31 → PostBelowMax s l → A.Counted → A'.Counted :=
    fun hk _ _ hc => hc.of_keeps hk
  cases l with
  | create tcb priority =>
    obtain ⟨A', h', hk⟩ := h.create hl.1 hl.2
    exact ⟨_, A', rfl, h', hkeep hk⟩
  | activate tcb =>
    obtain ⟨s', A', hs', h', hk⟩ := h.activate hl
    exact ⟨s', A', hs', h', hkeep hk⟩
  | wait sem =>
    obtain ⟨s', A', x, hs', h', hhead, hsem⟩ := h.semWait hl (fun _ => true) 0
    refine ⟨s', A', hs', h', fun hcard _ hc => hc.update hsem ((hc sem).wait ?_)⟩
    exact lt_of_lt_of_le (h.rep.length_waitlist_lt hhead sem) hcard
  | post sem =>
    obtain ⟨s', A', hs', h', hsem⟩ := h.semPost (k := sem) fun _ => 0
    refine ⟨s', A', hs', h', fun _ hmax hc => hc.update hsem ((hc sem).post _ ?_)⟩
    rw [PostBelowMax, Kernel.semcount, h.rep.semval] at hmax
    exact hmax
  | semTimeout tcb =>
    obtain ⟨s', A', hs', h', hsem | ⟨k, hmem, hsem⟩⟩ := h.semTimeout (x := tcb)
    · exact ⟨s', A', hs', h', fun _ _ hc k => by rw [hsem]; exact hc k⟩
    · exact ⟨s', A', hs', h', fun _ _ hc => hc.update hsem ((hc k).leave hmem)⟩
  | sleep =>
    obtain ⟨s', A', hs', h', hk⟩ := h.sleep hl
    exact ⟨s', A', hs', h', hkeep hk⟩
  | sigTimeout tcb =>
    obtain ⟨s', A', hs', h', hk⟩ := h.sigTimeout (x := tcb)
    exact ⟨s', A', hs', h', hkeep hk⟩
  | lock =>
    obtain ⟨s', A', hs', h', hk⟩ := h.schedLock
    exact ⟨s', A', hs', h', hkeep hk⟩
  | unlock =>
    obtain ⟨s', A', hs', h', hk⟩ := h.schedUnlock hl
    exact ⟨s', A', hs', h', hkeep hk⟩
  | setPriority tcb priority =>
    obtain ⟨s', A', hs', h', hc⟩ := h.setPriority hl.1 hl.2 priority
    exact ⟨s', A', hs', h', fun _ _ => hc⟩
  | yield =>
    obtain ⟨s', A', hs', h', hc⟩ := h.schedYield
    exact ⟨s', A', hs', h', fun _ _ => hc⟩
  | slice =>
    obtain ⟨s', A', hs', h', hk⟩ := h.processRoundrobin
    exact ⟨s', A', hs', h', hkeep hk⟩
  | exit =>
    obtain ⟨s', A', hs', h', hk⟩ := h.exit hl
    exact ⟨s', A', hs', h', hkeep hk⟩

end Step

end CameraPipeline
