import CameraPipeline.Sched.Scheduler

/-!
# The scheduler over whole runs

Whatever the tasks, the interrupts and the timer do, no step of the kernel dereferences a NULL
pointer or walks past the end of a list; the one task that is marked as running is the head of the
ready-to-run list, and unless it has disabled preemption it has the highest priority of all the
tasks that could run; the count of a semaphore says how many tasks wait for it, as long as no post
wraps it; and tasks of one priority take turns.

The merge of the pending tasks walks both lists once, from where the last task went in. A comment in
the source asks why the tasks are not simply added one after another: they may as well be.

## Main definitions

* `addPending`: the pending tasks added one after another

## Main results

* `Rep.merge_eq_adds`: the merge does the same
* `good_run`, `counted_run`: every run keeps the invariant, and the counts where no post wraps one
* `kernel_never_faults`, `running_task_is_highest`, `waiters_counted`, `round_robin_serves`
-/

namespace CameraPipeline

open Data Systems

/-! ## Time slices -/

section Slices

variable {ν κ : Type} [DecidableEq ν] [DecidableEq κ] [Fintype ν] {s : Kernel ν κ} {A : Sched ν κ}
  {idle x t : ν} {l r : List ν}

/-- **A task comes up after as many slices as there are tasks before it**, if they have its priority
and have not disabled preemption. -/
theorem Good.slices (h : Good idle s A) (hready : A.ready = (x :: l) ++ t :: r)
    (hprio : ∀ u ∈ x :: l, A.prio u = A.prio t) (hlock : ∀ u ∈ x :: l, A.lockcount u = 0) :
    ∃ s', run (kernel idle) s (List.replicate (l.length + 1) .slice) = some s' ∧
      s'.thisTask = some t := by
  induction l generalizing s A x r with
  | nil =>
    have hx := hprio x List.mem_cons_self
    obtain ⟨s', hs', h', -⟩ :=
      h.slice hready (hlock x List.mem_cons_self) (by rw [hx]; exact UInt8.le_refl _)
    refine ⟨s', ?_, ?_⟩
    · exact (run_cons_eq_some _).mpr ⟨s', (if_pos trivial).trans hs', rfl⟩
    · have hnot : ¬ A.prio t < A.prio x := by rw [hx]; exact UInt8.lt_irrefl _
      rw [h'.rep.thisTask, A.put_ready_self, insertTask_cons, if_neg hnot]
      rfl
  | cons y l ih =>
    have hle : ∀ u ∈ (y :: l) ++ [t], A.prio x ≤ A.prio u := by
      intro u hu
      rw [hprio x List.mem_cons_self]
      rcases List.mem_append.mp hu with hu | hu
      · rw [hprio u (List.mem_cons_of_mem x hu)]
        exact UInt8.le_refl _
      · rw [List.mem_singleton.mp hu]
        exact UInt8.le_refl _
    obtain ⟨s₁, hs₁, h₁, -⟩ := h.slice hready (hlock x List.mem_cons_self)
      (hle y (by simp))
    have hready₁ : (A.put .readytorun (insertTask A.prio x (y :: (l ++ t :: r)))).ready =
        (y :: l) ++ t :: insertTask A.prio x r := by
      have := insertTask_append_of_le (r := r) hle
      simpa using this
    obtain ⟨s', hs', hthis⟩ := ih h₁ hready₁ (fun u hu => hprio u (List.mem_cons_of_mem x hu))
      fun u hu => hlock u (List.mem_cons_of_mem x hu)
    exact ⟨s', (run_cons_eq_some _).mpr ⟨s₁, (if_pos trivial).trans hs₁, hs'⟩, hthis⟩

end Slices

/-! ## The merge and single additions -/

section Adds

variable {ν κ : Type} [DecidableEq ν] [DecidableEq κ] [Fintype ν] {s : Kernel ν κ} {A : Sched ν κ}
  {idle : ν}

/-- What a comment in `nxsched_merge_pending` suggests in its place: the pending tasks are taken off
their list one after another, and given to `nxsched_add_readytorun`. -/
def addPending (s : Kernel ν κ) : ℕ → Option (Kernel ν κ)
  | 0 => none
  | n + 1 =>
    let r := dqRemfirst s.links (s.tasklist .pendingtasks)
    match r.2.2 with
    | none => some s
    | some ptcb =>
      (nxschedAddReadytorun (s.setList .pendingtasks (r.1, r.2.1)) ptcb).bind fun r =>
        addPending r.1 n

omit [DecidableEq ν] [Fintype ν] in
/-- The merge of a list with its first task added before. -/
theorem Sched.merged_join {x : ν} {ps : List ν} (hpend : A.pending = x :: ps) :
    ((A.put .pendingtasks ps).join .readytorun x).merged = A.merged := by
  have hlists : ∀ i, ((A.put .pendingtasks ps).join .readytorun x).merged.lists i =
      A.merged.lists i := by
    intro i
    by_cases hr : i = .readytorun
    · subst hr
      rw [← Sched.ready, ← Sched.ready, Sched.merged_ready, Sched.merged_ready, hpend, Sched.join,
        Sched.put_ready_self, Sched.put_pending _ (i := .readytorun) (by simp), Sched.pending,
        Sched.put_lists_self, ← Sched.ready, A.put_ready (i := .pendingtasks) (by simp)]
      rfl
    by_cases hp : i = .pendingtasks
    · subst hp
      rw [← Sched.pending, ← Sched.pending, Sched.merged_pending, Sched.merged_pending]
    · rw [Sched.merged_of_ne _ hr hp, Sched.merged_of_ne _ hr hp, Sched.join,
        Sched.put_lists_of_ne _ hr, Sched.put_lists_of_ne _ hp]
  exact congrArg (fun f => Sched.mk f A.prio A.lockcount A.semval) (funext hlists)

/-- The tasks `ps` become ready to run when none of them is kept pending by the running one. -/
theorem addPending_spec {ps : List ν} {n : ℕ} (h : Rep s A none) (hpend : A.pending = ps)
    (hne : A.ready ≠ []) (hsorted : Descending A.prio ps)
    (hgo : ∀ rtcb, A.ready.head? = some rtcb → 0 < A.lockcount rtcb →
      ∀ q ∈ ps, A.prio q ≤ A.prio rtcb) (hn : ps.length < n) :
    ∃ s', addPending s n = some s' ∧ Rep s' A.merged none ∧ s'.waitobj = s.waitobj := by
  induction ps generalizing s A n with
  | nil =>
    obtain ⟨n, rfl⟩ := Nat.exists_eq_succ_of_ne_zero (Nat.ne_of_gt hn)
    have hq := h.queues.queue .pendingtasks
    rw [← Sched.pending, hpend] at hq
    refine ⟨s, ?_, ?_, rfl⟩
    · rw [addPending, dqRemfirst_nil hq]
    · rwa [Sched.merged_of_pending_nil hpend]
  | cons p ps ih =>
    obtain ⟨n, rfl⟩ := Nat.exists_eq_succ_of_ne_zero (Nat.ne_of_gt (Nat.zero_lt_of_lt hn))
    obtain ⟨hp, hsorted⟩ := List.pairwise_cons.mp hsorted
    have hq := h.queues.queue .pendingtasks
    rw [← Sched.pending, hpend] at hq
    have h₁ := h.leave_at (l := []) hpend (by simp)
    obtain ⟨rtcb, rest, hready⟩ := List.exists_cons_of_ne_nil hne
    have hhead : A.ready.head? = some rtcb := by rw [hready]; rfl
    have hready₁ : (A.put .pendingtasks ps).ready = A.ready :=
      A.put_ready (i := .pendingtasks) (by simp) ps
    have hjoin : (A.put .pendingtasks ps).add p = (A.put .pendingtasks ps).join .readytorun p := by
      rw [Sched.add, hready₁, hhead]
      exact if_neg fun hlock =>
        absurd hlock.2 (UInt8.not_lt.mpr (hgo rtcb hhead hlock.1 p List.mem_cons_self))
    have hready₂ : ((A.put .pendingtasks ps).join .readytorun p).ready =
        insertTask A.prio p A.ready := by
      rw [Sched.join, Sched.put_ready_self, ← Sched.ready, hready₁]
      rfl
    obtain ⟨s₂, hadd, h₂, hw₂⟩ := h₁.addReadytorun (by rwa [List.nil_append, hready₁])
    rw [List.nil_append, hjoin] at h₂
    have hpend₂ : ((A.put .pendingtasks ps).join .readytorun p).pending = ps := by
      rw [Sched.join, Sched.put_pending _ (i := .readytorun) (by simp)]
      exact A.put_lists_self _ ps
    have hne₂ : ((A.put .pendingtasks ps).join .readytorun p).ready ≠ [] := by
      rw [hready₂]
      exact List.ne_nil_of_mem (mem_insertTask.mpr (.inl rfl))
    have hgo₂ : ∀ head, ((A.put .pendingtasks ps).join .readytorun p).ready.head? = some head →
        0 < A.lockcount head → ∀ q ∈ ps, A.prio q ≤ A.prio head := by
      intro head hh _ q hq'
      rw [hready₂, hready, insertTask_cons] at hh
      split at hh
      · obtain rfl := Option.some.inj hh
        exact hp q hq'
      · rename_i hge
        obtain rfl := Option.some.inj hh
        exact UInt8.le_trans (hp q hq') (UInt8.not_lt.mp hge)
    obtain ⟨s₃, hloop, h₃, hw₃⟩ :=
      ih h₂ hpend₂ hne₂ hsorted hgo₂ (Nat.lt_of_succ_lt_succ hn)
    rw [Sched.merged_join hpend] at h₃
    refine ⟨s₃, ?_, h₃, hw₃.trans hw₂⟩
    rw [addPending, dqRemfirst_eq hq]
    exact (congrArg (Option.bind · _) hadd).trans hloop

/-- **The merge does what single additions do.** -/
theorem Rep.merge_eq_adds (h : Rep s A none) (ho : A.Ordered idle) (hlock : ¬ A.Locked) :
    (nxschedMergePending s).map Prod.fst = addPending s (Fintype.card ν + 1) := by
  obtain ⟨s₁, b, hmerge, h₁, hw₁⟩ := h.mergePending ho.ready_ne_nil (ho.sorted rfl) fun p hp =>
    ⟨idle, ho.idle_mem, by rw [ho.idle_prio]; exact h.prio_pos ho hp (by simp)⟩
  obtain ⟨s₂, hadds, h₂, hw₂⟩ := addPending_spec h rfl ho.ready_ne_nil (ho.sorted rfl)
    (fun rtcb hhead hpos => absurd ⟨rtcb, hhead, hpos⟩ hlock)
    (Nat.lt_succ_of_le (length_le_card (h.queues.queue .pendingtasks)))
  have hmerged : A.merge = A.merged := by
    obtain ⟨rtcb, rest, hready⟩ := List.exists_cons_of_ne_nil ho.ready_ne_nil
    have hhead : A.ready.head? = some rtcb := by rw [hready]; rfl
    rw [Sched.merge, hhead]
    exact if_neg fun hpos => hlock ⟨rtcb, hhead, hpos⟩
  rw [hmerged] at h₁
  rw [hmerge, hadds, Option.map_some, h₁.unique h₂ (hw₁.trans hw₂.symm)]

end Adds

/-! ## Runs

A run for the statements below: two tasks are created and activated while the idle task has disabled
preemption; when it enables it again, the one of the higher priority runs. It waits for a semaphore,
and the other one, with preemption disabled, posts it. -/

/-- The tasks are pending. -/
def bringUp : List (SchedLabel (Fin 3) Unit) :=
  [.create 1 100, .activate 1, .create 2 120, .activate 2]

/-- The task of the higher priority waits. -/
def waitStep : List (SchedLabel (Fin 3) Unit) :=
  bringUp ++ [.unlock, .wait ()]

/-- It is pending again. -/
def postStep : List (SchedLabel (Fin 3) Unit) :=
  waitStep ++ [.lock, .post ()]

section Run

variable {ν κ : Type} [DecidableEq ν] [DecidableEq κ] [Fintype ν] {idle : ν} {count : κ → UInt32}

/-- The lists that `nx_start` sets up: the idle task runs. -/
def Sched.init (idle : ν) (count : κ → UInt32) : Sched ν κ where
  lists
    | .readytorun => [idle]
    | _ => []
  prio _ := 0
  lockcount := Function.update (fun _ => 0) idle 1
  semval := count

omit [DecidableEq κ] [Fintype ν] in
theorem good_init : Good idle (Kernel.init idle count) (Sched.init idle count) := by
  have hmem : ∀ {t i}, t ∈ (Sched.init idle count).lists i ↔ i = .readytorun ∧ t = idle := by
    intro t i
    cases i <;> simp [Sched.init]
  have hlinks : ∀ xs : List ν, xs.length ≤ 1 →
      Segment (Kernel.init idle count : Kernel ν κ).links none xs none
    | [], _ => trivial
    | [_], _ => ⟨rfl, rfl, trivial⟩
  refine ⟨⟨⟨fun i => ?_, fun {i j x} hi hj => ?_, fun _ _ => ⟨rfl, rfl⟩⟩, fun t _ i => ?_,
    fun t _ => ?_, fun t _ hs => ?_, absent_none _, rfl, rfl, rfl⟩,
    ⟨⟨rfl, rfl, fun hi ht => ?_, ?_⟩, ?_⟩⟩
  · cases i
    case readytorun => exact ⟨rfl, rfl, hlinks [idle] le_rfl, List.nodup_singleton idle⟩
    all_goals exact isQueue_nil _
  · rw [(hmem.mp hi).1, (hmem.mp hj).1]
  · rw [hmem]
    by_cases ht : t = idle
    · simp [Kernel.init, ht, tlistHead, eq_comm]
    · simp [Kernel.init, ht, tlistHead]
  · show _ ↔ some idle = some t
    by_cases ht : t = idle
    · simp [Kernel.init, ht]
    · simp [Kernel.init, ht, Ne.symm ht]
  · by_cases ht : t = idle <;> simp [Kernel.init, ht] at hs
  · exact absurd (hmem.mp hi).2 ht
  · intro i _
    cases i
    case readytorun => exact List.pairwise_singleton _ _
    all_goals exact List.Pairwise.nil
  · exact fun _ => rfl

omit [Fintype ν] [DecidableEq κ] in
theorem counted_init (hcount : ∀ k, 0 ≤ semcount (count k)) :
    (Sched.init idle count).Counted := by
  intro k
  have := hcount k
  simp only [Sem.Counted, Sched.sem, Sched.init, List.length_nil]
  omega

/-- A step of the kernel keeps the invariant. -/
theorem Good.kernel {s s' : Kernel ν κ} {A : Sched ν κ} (h : Good idle s A) {l : SchedLabel ν κ}
    (hs : kernel idle s l = some s') :
    ∃ A', Good idle s' A' ∧
      (Fintype.card ν ≤ 2 ^ 31 → PostBelowMax s l → A.Counted → A'.Counted) := by
  rw [CameraPipeline.kernel] at hs
  split at hs
  · rename_i hl
    obtain ⟨s₁, A₁, hexec, h₁⟩ := h.exec hl
    obtain rfl := Option.some.inj (hexec.symm.trans hs)
    exact ⟨A₁, h₁⟩
  · cases hs

/-- **Every run keeps the invariant.** -/
theorem good_run {ls : List (SchedLabel ν κ)} {s : Kernel ν κ}
    (hrun : run (kernel idle) (Kernel.init idle count) ls = some s) : ∃ A, Good idle s A := by
  refine run_invariant (I := fun s => ∃ A, Good idle s A) (fun s l s' hs hstep => ?_)
    ⟨_, good_init⟩ hrun
  obtain ⟨A, hA⟩ := hs
  exact (hA.kernel hstep).imp fun _ h => h.1

/-- **Every run in which no post wraps a count keeps the counts true.** -/
theorem counted_run (hcard : Fintype.card ν ≤ 2 ^ 31) (hcount : ∀ k, 0 ≤ semcount (count k))
    {ls : List (SchedLabel ν κ)} {s : Kernel ν κ}
    (hbelow : Along (kernel idle) PostBelowMax (Kernel.init idle count) ls)
    (hrun : run (kernel idle) (Kernel.init idle count) ls = some s) :
    ∃ A, Good idle s A ∧ A.Counted := by
  refine run_invariant_along (I := fun s => ∃ A, Good idle s A ∧ A.Counted)
    (fun s l s' hs hl hstep => ?_) ⟨_, good_init, counted_init hcount⟩ hbelow hrun
  obtain ⟨A, hA, hc⟩ := hs
  obtain ⟨A', hA', hc'⟩ := hA.kernel hstep
  exact ⟨A', hA', hc' hcard hl hc⟩

/-- **The kernel never faults**: in whatever state it comes to, a step that the callers may take
dereferences no NULL pointer and does not run past the end of a list. -/
theorem kernel_never_faults {ls : List (SchedLabel ν κ)} {s : Kernel ν κ}
    (hrun : run (kernel idle) (Kernel.init idle count) ls = some s)
    {l : SchedLabel ν κ} (hl : l.Enabled idle s) : ∃ s', kernel idle s l = some s' := by
  obtain ⟨A, hA⟩ := good_run hrun
  obtain ⟨s', -, hexec, -⟩ := hA.exec hl
  exact ⟨s', by rw [kernel, if_pos hl, hexec]⟩

theorem kernel_never_faults_unlock : ∃ s s' : Kernel (Fin 3) Unit,
    run (kernel 0) (Kernel.init 0 fun _ => 0) postStep = some s ∧ s.taskState 2 = .pending ∧
    kernel 0 s .unlock = some s' := by
  have hstate : (run (kernel 0) (Kernel.init 0 fun _ => 0) postStep).map
      (fun s => (s.taskState 2, s.thisTask.map s.lockcount)) = some (.pending, some 1) := by decide
  obtain ⟨s, hs, he⟩ := Option.map_eq_some_iff.mp hstate
  obtain ⟨hpend, hlock⟩ := Prod.mk.inj he
  have hen : SchedLabel.Enabled 0 s .unlock := fun rtcb hthis => by
    rw [hthis] at hlock
    exact Nat.lt_of_lt_of_eq Nat.one_pos (Option.some.inj hlock).symm
  obtain ⟨s', h'⟩ := kernel_never_faults hs hen
  exact ⟨s, s', hs, hpend, h'⟩

/-- **The running task has the highest priority.** In whatever state the kernel comes to, one task
is marked as running, the head of the ready-to-run list; no other task is ready to run with a higher
priority than its own; and a task is pending only while it has disabled preemption. -/
theorem running_task_is_highest {ls : List (SchedLabel ν κ)} {s : Kernel ν κ}
    (hrun : run (kernel idle) (Kernel.init idle count) ls = some s) :
    ∃ rtcb, s.thisTask = some rtcb ∧ (∀ t, s.taskState t = .running ↔ t = rtcb) ∧
      (∀ t, s.taskState t = .readytorun → s.schedPriority t ≤ s.schedPriority rtcb) ∧
      ∀ t, s.taskState t = .pending → 0 < s.lockcount rtcb := by
  obtain ⟨A, hA⟩ := good_run hrun
  obtain ⟨x, rest, hready, hthis⟩ := hA.exists_head
  have hhead : A.ready.head? = some x := by rw [hready]; rfl
  refine ⟨x, hthis, fun t => ?_, fun t ht => ?_, fun t ht => ?_⟩
  · rw [hA.rep.running_iff t, hhead, Option.some_inj, eq_comm]
  · have hmem : t ∈ A.ready := hA.rep.mem_iff.mpr (by rw [ht]; rfl)
    have hsorted : Descending A.prio A.ready := hA.inv.sorted rfl
    rw [hready] at hmem hsorted
    rw [hA.rep.prio]
    rcases List.mem_cons.mp hmem with rfl | hmem
    · exact UInt8.le_refl _
    · exact (List.pairwise_cons.mp hsorted).1 t hmem
  · have hmem : t ∈ A.pending := hA.rep.mem_iff.mpr (by rw [ht]; rfl)
    by_contra hlock
    rw [hA.rep.lockcount] at hlock
    rw [hA.inv.unlocked (Sched.not_locked hhead hlock)] at hmem
    cases hmem

theorem running_task_is_highest_pending : ∃ s : Kernel (Fin 3) Unit,
    run (kernel 0) (Kernel.init 0 fun _ => 0) postStep = some s ∧ s.taskState 2 = .pending ∧
    ∃ rtcb, s.thisTask = some rtcb ∧ (∀ t, s.taskState t = .running ↔ t = rtcb) ∧
      (∀ t, s.taskState t = .readytorun → s.schedPriority t ≤ s.schedPriority rtcb) ∧
      ∀ t, s.taskState t = .pending → 0 < s.lockcount rtcb := by
  have hstate : (run (kernel 0) (Kernel.init 0 fun _ => 0) postStep).map
      (fun s => s.taskState 2) = some .pending := by decide
  obtain ⟨s, hs, hpend⟩ := Option.map_eq_some_iff.mp hstate
  exact ⟨s, hs, hpend, running_task_is_highest hs⟩

/-- **The count of a semaphore says how many tasks wait for it**, in every run in which no post
finds a count at `SEM_VALUE_MAX`: none while it is not negative, and as many as it is below zero. -/
theorem waiters_counted (hcard : Fintype.card ν ≤ 2 ^ 31)
    (hcount : ∀ k, 0 ≤ semcount (count k)) {ls : List (SchedLabel ν κ)} {s : Kernel ν κ}
    (hbelow : Along (kernel idle) PostBelowMax (Kernel.init idle count) ls)
    (hrun : run (kernel idle) (Kernel.init idle count) ls = some s) (k : κ) :
    ((Finset.univ.filter fun t => s.taskState t = .waitSem ∧ s.waitobj t = some k).card : ℤ) =
      max 0 (-s.semcount k) := by
  obtain ⟨A, hA, hc⟩ := counted_run hcard hcount hbelow hrun
  have hset : (Finset.univ.filter fun t => s.taskState t = .waitSem ∧ s.waitobj t = some k) =
      (A.lists (.waitlist k)).toFinset := by
    ext t
    rw [Finset.mem_filter, List.mem_toFinset, hA.rep.mem_iff]
    cases hst : s.taskState t <;> simp [tlistHead]
  rw [hset, List.toFinset_card_of_nodup (hA.rep.queues.queue _).nodup, Kernel.semcount,
    hA.rep.semval]
  exact hc k

theorem waiters_counted_wait : ∃ s : Kernel (Fin 3) Unit,
    run (kernel 0) (Kernel.init 0 fun _ => 0) waitStep = some s ∧ s.semcount () = -1 ∧
    ((Finset.univ.filter fun t => s.taskState t = .waitSem ∧ s.waitobj t = some ()).card : ℤ) =
      max 0 (-s.semcount ()) := by
  have hstate : (run (kernel 0) (Kernel.init 0 fun _ => 0) waitStep).map
      (fun s => s.semcount ()) = some (-1) := by decide
  have hbelow : Along (kernel 0) PostBelowMax (Kernel.init 0 fun _ => 0) waitStep := by decide
  obtain ⟨s, hs, hcount⟩ := Option.map_eq_some_iff.mp hstate
  exact ⟨s, hs, hcount, waiters_counted (by decide) (fun _ => by decide) hbelow hs ()⟩

/-- A post at `SEM_VALUE_MAX` wraps the count: it is the lowest there is, and nobody waits. -/
example : (run (kernel 0) (Kernel.init (0 : Fin 3) fun _ : Unit => 0x7fffffff) [.post ()]).map
    (fun s => (s.semcount (), (s.tasklist (.waitlist ())).head)) =
      some (-0x80000000, none) := by decide

/-- **Tasks of one priority take turns.** While nothing but the ends of time slices happens, and no
task of the running one's priority has disabled preemption, another one that is ready to run gets to
run after as many of them at most as there are such tasks. -/
theorem round_robin_serves {ls : List (SchedLabel ν κ)} {s : Kernel ν κ}
    (hrun : run (kernel idle) (Kernel.init idle count) ls = some s) {rtcb t : ν}
    (hthis : s.thisTask = some rtcb) (ht : s.taskState t = .readytorun)
    (hprio : s.schedPriority t = s.schedPriority rtcb)
    (hlock : ∀ u, s.schedPriority u = s.schedPriority rtcb → s.lockcount u = 0) :
    ∃ n s', n ≤ (Finset.univ.filter fun u => s.taskState u = .readytorun ∧
        s.schedPriority u = s.schedPriority rtcb).card ∧
      run (kernel idle) s (List.replicate n .slice) = some s' ∧ s'.thisTask = some t := by
  obtain ⟨A, hA⟩ := good_run hrun
  have hhead : A.ready.head? = some rtcb := hA.rep.thisTask.symm.trans hthis
  obtain ⟨rest, hready⟩ := List.head?_eq_some_iff.mp hhead
  have hplaced := hA.rep.placed
  have hnodup := (hA.rep.queues.queue .readytorun).nodup
  have hsorted : Descending A.prio A.ready := hA.inv.sorted rfl
  rw [← Sched.ready, hready] at hnodup
  rw [hready] at hsorted hplaced
  have hmem : t ∈ A.ready := hA.rep.mem_iff.mpr (by rw [ht]; rfl)
  have htr : t ≠ rtcb := by
    rintro rfl
    rw [(hA.rep.running_iff t).mpr hhead] at ht
    cases ht
  rw [hready] at hmem
  obtain ⟨l, r, rfl⟩ := List.append_of_mem ((List.mem_cons.mp hmem).resolve_left htr)
  rw [hA.rep.prio, hA.rep.lockcount] at hlock
  rw [hA.rep.prio] at hprio ⊢
  have hbefore : ∀ u ∈ l, A.prio u = A.prio t := by
    intro u hu
    refine UInt8.le_antisymm ?_ ?_
    · rw [hprio]
      exact (List.pairwise_cons.mp hsorted).1 u (List.mem_append_left _ hu)
    · exact (List.pairwise_append.mp (List.pairwise_cons.mp hsorted).2).2.2 u hu t
        List.mem_cons_self
  have hall : ∀ u ∈ rtcb :: l, A.prio u = A.prio t := fun u hu => by
    rcases List.mem_cons.mp hu with rfl | hu
    · exact hprio.symm
    · exact hbefore u hu
  obtain ⟨s', hs', hthis'⟩ := hA.slices hready hall fun u hu => hlock u ((hall u hu).trans hprio)
  refine ⟨l.length + 1, s', ?_, hs', hthis'⟩
  obtain ⟨hrtcb, hnodup⟩ := List.nodup_cons.mp hnodup
  have hsub : (l ++ [t]).toFinset ⊆ Finset.univ.filter fun u => s.taskState u = .readytorun ∧
      A.prio u = A.prio rtcb := by
    intro u hu
    have hu' : u ∈ l ++ t :: r := by
      simp only [List.mem_toFinset, List.mem_append, List.mem_cons, List.not_mem_nil] at hu ⊢
      tauto
    have hne : rtcb ≠ u := fun he => hrtcb (he ▸ hu')
    refine Finset.mem_filter.mpr ⟨Finset.mem_univ u, ?_, ?_⟩
    · simpa [hne] using hplaced u (List.mem_cons_of_mem rtcb hu')
    · rw [← hprio]
      rcases List.mem_append.mp (List.mem_toFinset.mp hu) with hu | hu
      · exact hbefore u hu
      · rw [List.mem_singleton.mp hu]
  calc l.length + 1 = (l ++ [t]).toFinset.card := by
        rw [List.toFinset_card_of_nodup (hnodup.sublist (by simp)), List.length_append]
        rfl
    _ ≤ _ := Finset.card_le_card hsub

/-- Two tasks of one priority, the first of them running. -/
def twoTasks : List (SchedLabel (Fin 3) Unit) :=
  [.create 1 100, .activate 1, .create 2 100, .activate 2, .unlock]

theorem round_robin_serves_two : ∃ s : Kernel (Fin 3) Unit,
    run (kernel 0) (Kernel.init 0 fun _ => 0) twoTasks = some s ∧ s.thisTask = some 1 ∧
    ∃ n s', n ≤ (Finset.univ.filter fun u => s.taskState u = .readytorun ∧
        s.schedPriority u = s.schedPriority 1).card ∧
      run (kernel 0) s (List.replicate n .slice) = some s' ∧ s'.thisTask = some 2 := by
  have hstate : (run (kernel 0) (Kernel.init 0 fun _ => 0) twoTasks).map (fun s =>
      decide (s.thisTask = some 1 ∧ s.taskState 2 = .readytorun ∧
        s.schedPriority 2 = s.schedPriority 1 ∧
        ∀ u, s.schedPriority u = s.schedPriority 1 → s.lockcount u = 0)) = some true := by decide
  obtain ⟨s, hs, he⟩ := Option.map_eq_some_iff.mp hstate
  obtain ⟨hthis, ht, hprio, hlock⟩ := of_decide_eq_true he
  exact ⟨s, hs, hthis, round_robin_serves hs hthis ht hprio hlock⟩

/-- **The merge is what single additions are.** When the running task enables preemption, the merge
leaves the kernel as it is left by taking the pending tasks off their list one after another and
making each of them ready to run. -/
theorem merge_pending_eq_adds {ls : List (SchedLabel ν κ)} {s : Kernel ν κ}
    (hrun : run (kernel idle) (Kernel.init idle count) ls = some s) {rtcb : ν}
    (hthis : s.thisTask = some rtcb) :
    let s' : Kernel ν κ := { s with lockcount := Function.update s.lockcount rtcb 0 }
    (nxschedMergePending s').map Prod.fst = addPending s' (Fintype.card ν + 1) := by
  obtain ⟨A, hA⟩ := good_run hrun
  have hhead : A.ready.head? = some rtcb := hA.rep.thisTask.symm.trans hthis
  refine (hA.rep.withLockcount _).merge_eq_adds (hA.inv.toOrdered.withLockcount _) ?_
  exact Sched.not_locked hhead (by simp)

theorem merge_pending_eq_adds_bringUp : ∃ s : Kernel (Fin 3) Unit,
    run (kernel 0) (Kernel.init 0 fun _ => 0) bringUp = some s ∧ s.taskState 1 = .pending ∧
    s.taskState 2 = .pending ∧
    (nxschedMergePending { s with lockcount := Function.update s.lockcount 0 0 }).map Prod.fst =
      addPending { s with lockcount := Function.update s.lockcount 0 0 } 4 := by
  have hstate : (run (kernel 0) (Kernel.init 0 fun _ => 0) bringUp).map
      (fun s => (s.thisTask, s.taskState 1, s.taskState 2)) =
        some (some 0, .pending, .pending) := by decide
  obtain ⟨s, hs, he⟩ := Option.map_eq_some_iff.mp hstate
  obtain ⟨hthis, he⟩ := Prod.mk.inj he
  obtain ⟨h₁, h₂⟩ := Prod.mk.inj he
  exact ⟨s, hs, h₁, h₂, merge_pending_eq_adds hs hthis⟩

end Run

end CameraPipeline
