import CameraPipeline.Sched.Kernel

/-!
# The lists that the kernel represents

What the links, the ends and the states of the tasks stand for: a list of tasks for every task list,
with every task in the list that its state names. Each function of the scheduler is then an
operation on these lists: a task joins a prioritized list where `insertTask` says, leaves a list, or
the pending tasks join the ready-to-run list one after another.

A function may take a task out of its list and put it into another one later. In between, the state
of that task says nothing.

## Main definitions

* `Sched ν κ`: the lists, with the priorities, lock counts and semaphore words
* `Rep s A out`: the kernel `s` represents `A`, the task `out` being in no list
* `Sched.add`, `Sched.merge`: a task becomes ready to run, and the pending tasks do

## Main results

* `Rep.unique`: the lists and the waits determine the kernel
* `Rep.addReadytorun`, `Rep.removeReadytorun`, `Rep.mergePending`
-/

namespace CameraPipeline

open Data

/-! ## Lists -/

section Insert

variable {ν : Type} {prio : ν → UInt8}

/-- The tasks `ps` join the list, one after another. -/
def insertTasks (prio : ν → UInt8) (ps xs : List ν) : List ν :=
  ps.foldl (fun xs p => insertTask prio p xs) xs

theorem mem_insertTasks {y : ν} {ps xs : List ν} :
    y ∈ insertTasks prio ps xs ↔ y ∈ ps ∨ y ∈ xs := by
  induction ps generalizing xs with
  | nil => simp [insertTasks]
  | cons p ps ih =>
    rw [insertTasks, List.foldl_cons]
    rw [← insertTasks, ih, mem_insertTask, List.mem_cons]
    tauto

end Insert

/-- The lists of tasks, with the fields that the order in them and the merge depend on. -/
structure Sched (ν κ : Type) where
  lists : TaskList κ → List ν
  prio : ν → UInt8
  lockcount : ν → ℕ
  semval : κ → UInt32

namespace Sched

variable {ν κ : Type} (A : Sched ν κ)

/-- The tasks that are ready to run, the running one first. -/
abbrev ready : List ν :=
  A.lists .readytorun

/-- The tasks that wait for the running one to enable preemption. -/
abbrev pending : List ν :=
  A.lists .pendingtasks

/-- The running task has disabled preemption. -/
def Locked : Prop :=
  ∃ t, A.ready.head? = some t ∧ 0 < A.lockcount t

variable [DecidableEq κ]

/-- One list replaced. -/
def put (i : TaskList κ) (xs : List ν) : Sched ν κ :=
  { A with lists := Function.update A.lists i xs }

/-- A task joins a prioritized list. -/
def join (i : TaskList κ) (t : ν) : Sched ν κ :=
  A.put i (insertTask A.prio t (A.lists i))

/-- A task becomes ready to run, or pending. -/
def add (t : ν) : Sched ν κ :=
  match A.ready.head? with
  | none => A
  | some rtcb =>
    if 0 < A.lockcount rtcb ∧ A.prio rtcb < A.prio t then A.join .pendingtasks t
    else A.join .readytorun t

/-- The pending tasks become ready to run, one after another. -/
def merged : Sched ν κ :=
  (A.put .readytorun (insertTasks A.prio A.pending A.ready)).put .pendingtasks []

/-- The pending tasks become ready to run, unless preemption is disabled. -/
def merge : Sched ν κ :=
  match A.ready.head? with
  | none => A
  | some rtcb => if 0 < A.lockcount rtcb then A else A.merged

@[simp] theorem put_lists_self (i : TaskList κ) (xs : List ν) : (A.put i xs).lists i = xs :=
  Function.update_self ..

theorem put_lists_of_ne {i j : TaskList κ} (h : j ≠ i) (xs : List ν) :
    (A.put i xs).lists j = A.lists j :=
  Function.update_of_ne h ..

@[simp] theorem put_ready_self (xs : List ν) : (A.put .readytorun xs).ready = xs :=
  A.put_lists_self .readytorun xs

theorem put_ready {i : TaskList κ} (h : i ≠ .readytorun) (xs : List ν) :
    (A.put i xs).ready = A.ready :=
  A.put_lists_of_ne h.symm xs

theorem put_pending {i : TaskList κ} (h : i ≠ .pendingtasks) (xs : List ν) :
    (A.put i xs).pending = A.pending :=
  A.put_lists_of_ne h.symm xs

theorem merged_ready : A.merged.ready = insertTasks A.prio A.pending A.ready := by
  rw [merged, put_ready _ (i := .pendingtasks) (by simp), put_ready_self]

theorem merged_pending : A.merged.pending = [] :=
  put_lists_self ..

theorem merged_of_ne {i : TaskList κ} (hr : i ≠ .readytorun) (hp : i ≠ .pendingtasks) :
    A.merged.lists i = A.lists i := by
  rw [merged, put_lists_of_ne _ hp, put_lists_of_ne _ hr]

variable {A}

/-- Without pending tasks there is nothing to merge. -/
theorem merged_of_pending_nil (h : A.pending = []) : A.merged = A := by
  have hins : insertTasks A.prio A.pending A.ready = A.ready := by rw [h]; rfl
  rw [merged, hins, ← h]
  simp [put, Function.update_eq_self]

theorem merge_of_pending_nil (h : A.pending = []) : A.merge = A := by
  unfold merge
  split
  · rfl
  · rw [merged_of_pending_nil h, ite_self]

theorem mem_merged_ready {t : ν} : t ∈ A.merged.ready ↔ t ∈ A.pending ∨ t ∈ A.ready := by
  rw [merged_ready, mem_insertTasks]

/-- A task that is not ready to run after the merge is where it was. -/
theorem mem_merged {t : ν} (ht : t ∉ A.merged.ready) (i : TaskList κ) :
    t ∈ A.merged.lists i ↔ t ∈ A.lists i := by
  obtain ⟨htp, htr⟩ := not_or.mp (mt mem_merged_ready.mpr ht)
  by_cases hr : i = .readytorun
  · subst hr
    exact iff_of_false ht htr
  by_cases hp : i = .pendingtasks
  · subst hp
    refine iff_of_false ?_ htp
    rw [← pending, merged_pending]
    exact List.not_mem_nil
  · rw [merged_of_ne A hr hp]

/-- A task that is ready to run after the merge is in no other list. -/
theorem eq_of_mem_merged {i : TaskList κ} {t : ν}
    (hdisj : ∀ {i j t}, t ∈ A.lists i → t ∈ A.lists j → i = j) (ht : t ∈ A.merged.ready)
    (hi : t ∈ A.merged.lists i) : i = .readytorun := by
  by_contra hr
  by_cases hp : i = .pendingtasks
  · subst hp
    rw [← pending, merged_pending] at hi
    cases hi
  · rw [merged_of_ne A hr hp] at hi
    rcases mem_merged_ready.mp ht with ht | ht
    · exact hp (hdisj hi ht)
    · exact hr (hdisj hi ht)

end Sched

/-! ## Representation -/

section Rep

variable {ν κ : Type}

/-- **The kernel `s` represents `A`**: the links and the ends are those of the lists, and every task
but `out`, which is in no list, is in the list that its state names. -/
structure Rep (s : Kernel ν κ) (A : Sched ν κ) (out : Option ν) : Prop where
  queues : Queues s.links s.tasklist A.lists
  place : ∀ t, some t ≠ out → ∀ i,
    t ∈ A.lists i ↔ tlistHead (s.taskState t) (s.waitobj t) = some i
  running : ∀ t, some t ≠ out → (s.taskState t = .running ↔ A.ready.head? = some t)
  waiting : ∀ t, some t ≠ out → s.taskState t = .waitSem → (s.waitobj t).isSome
  absent : ∀ t, some t = out → ∀ i, t ∉ A.lists i
  prio : s.schedPriority = A.prio
  lockcount : s.lockcount = A.lockcount
  semval : s.semval = A.semval

/-- The tasks other than `x` have the same wait, and a state that names the same list. -/
def Kernel.Agree (s s' : Kernel ν κ) (x : ν) : Prop :=
  ∀ t, t ≠ x → s'.waitobj t = s.waitobj t ∧ (s'.taskState t = s.taskState t ∨
    (s'.taskState t).isRunnable ∧ (s.taskState t).isRunnable)

theorem Kernel.Agree.tlistHead {s s' : Kernel ν κ} {x t : ν} (h : s.Agree s' x) (ht : t ≠ x) :
    tlistHead (s'.taskState t) (s'.waitobj t) = tlistHead (s.taskState t) (s.waitobj t) := by
  obtain ⟨hw, hs | ⟨hs', hs⟩⟩ := h t ht
  · rw [hw, hs]
  · revert hs hs'
    cases s'.taskState t <;> cases s.taskState t <;>
      simp [TaskState.isRunnable, CameraPipeline.tlistHead]

theorem Kernel.Agree.waiting {s s' : Kernel ν κ} {x t : ν} (h : s.Agree s' x) (ht : t ≠ x)
    (hs : s.taskState t = .waitSem → (s.waitobj t).isSome) (hs' : s'.taskState t = .waitSem) :
    (s'.waitobj t).isSome := by
  obtain ⟨hw, hst | ⟨hrun, -⟩⟩ := h t ht
  · rw [hw]
    exact hs (hst ▸ hs')
  · rw [hs'] at hrun
    cases hrun

theorem tlistHead_inj {st st' : TaskState} {w : Option κ}
    (h : tlistHead st w = tlistHead st' w) (hr : st = .running ↔ st' = .running)
    (hw : st = .waitSem → w.isSome) (hw' : st' = .waitSem → w.isSome) : st = st' := by
  cases st <;> cases st' <;> cases w <;> simp_all [tlistHead]

variable {s s' : Kernel ν κ} {A : Sched ν κ} {out : Option ν} {l r : List ν} {x c : ν}
  {i : TaskList κ}

theorem Rep.mem_iff {t : ν} (h : Rep s A none) :
    t ∈ A.lists i ↔ tlistHead (s.taskState t) (s.waitobj t) = some i :=
  h.place t (Option.some_ne_none t) i

theorem Rep.running_iff (h : Rep s A none) (t : ν) :
    s.taskState t = .running ↔ A.ready.head? = some t :=
  h.running t (Option.some_ne_none t)

theorem Rep.isSome_waitobj (h : Rep s A none) (t : ν) :
    s.taskState t = .waitSem → (s.waitobj t).isSome :=
  h.waiting t (Option.some_ne_none t)

theorem absent_none (A : Sched ν κ) (t : ν) (ht : some t = none) (i : TaskList κ) :
    t ∉ A.lists i :=
  absurd ht (Option.some_ne_none t)

/-- **The lists and the waits determine the kernel.** -/
theorem Rep.unique (h : Rep s A none) (h' : Rep s' A none) (hw : s.waitobj = s'.waitobj) :
    s = s' := by
  obtain ⟨hlinks, hends⟩ := h.queues.unique h'.queues
  have hstate : s.taskState = s'.taskState := funext fun t => by
    have hrun : s.taskState t = .running ↔ s'.taskState t = .running :=
      (h.running_iff t).trans (h'.running_iff t).symm
    have hplace : tlistHead (s.taskState t) (s.waitobj t) =
        tlistHead (s'.taskState t) (s.waitobj t) := by
      refine Option.ext fun i => ?_
      have hi' := h'.mem_iff (i := i) (t := t)
      rw [← hw] at hi'
      exact h.mem_iff.symm.trans hi'
    exact tlistHead_inj hplace hrun (h.isSome_waitobj t) (hw ▸ h'.isSome_waitobj t)
  cases s
  cases s'
  simp only [Kernel.mk.injEq]
  exact ⟨hlinks, hends, hstate, h.prio.trans h'.prio.symm, h.lockcount.trans h'.lockcount.symm, hw,
    h.semval.trans h'.semval.symm⟩

/-- A task in a list is there by its state. -/
theorem Rep.tlistHead_eq {t : ν} (h : Rep s A out) (ht : t ∈ A.lists i) :
    tlistHead (s.taskState t) (s.waitobj t) = some i :=
  (h.place t (fun he => h.absent t he i ht) i).mp ht

theorem Rep.isRunnable {t : ν} (h : Rep s A out) (ht : t ∈ A.ready) :
    (s.taskState t).isRunnable := by
  have hplace := h.tlistHead_eq ht
  revert hplace
  cases s.taskState t <;> cases s.waitobj t <;> simp [tlistHead, TaskState.isRunnable]

theorem Rep.thisTask (h : Rep s A out) : s.thisTask = A.ready.head? :=
  (h.queues.queue .readytorun).head

variable [DecidableEq ν] [DecidableEq κ]

/-- **A task joins a list.** The states of the others name the lists they are in, as before. -/
theorem Rep.enter (h : Rep s A (some x)) (hi : A.lists i = l ++ r)
    (hlinks : s'.links = s.links.splice l.getLast? x r.head?)
    (hlist : s'.tasklist =
      Function.update s.tasklist i ((s.tasklist i).splice l.getLast? x r.head?))
    (hx : tlistHead (s'.taskState x) (s'.waitobj x) = some i)
    (hxw : s'.taskState x = .waitSem → (s'.waitobj x).isSome)
    (hother : s.Agree s' x)
    (hrun : ∀ t, s'.taskState t = .running ↔ (A.put i (l ++ x :: r)).ready.head? = some t)
    (hprio : s'.schedPriority = s.schedPriority) (hlock : s'.lockcount = s.lockcount)
    (hcount : s'.semval = s.semval) : Rep s' (A.put i (l ++ x :: r)) none := by
  have hout := h.absent x rfl
  refine ⟨?_, fun t _ j => ?_, fun t _ => hrun t, fun t _ ht => ?_, absent_none _,
    hprio.trans h.prio, hlock.trans h.lockcount, hcount.trans h.semval⟩
  · rw [hlinks, hlist]
    exact h.queues.splice hi hout
  · by_cases htx : t = x
    · subst htx
      rw [hx]
      by_cases hj : j = i
      · simp [hj]
      · rw [A.put_lists_of_ne hj]
        simp [hout j, Ne.symm hj]
    · rw [hother.tlistHead htx, ← h.place t (by simp [htx]) j]
      by_cases hj : j = i
      · subst hj
        rw [A.put_lists_self, hi, List.perm_middle.mem_iff, List.mem_cons, or_iff_right htx]
      · rw [A.put_lists_of_ne hj]
  · by_cases htx : t = x
    · exact htx ▸ hxw (htx ▸ ht)
    · exact hother.waiting htx (h.waiting t (by simp [htx])) ht

/-- **A task leaves a list.** -/
theorem Rep.leave (h : Rep s A none) (hi : A.lists i = l ++ x :: r)
    (hlinks : s'.links = s.links.cut l.getLast? x r.head?)
    (hlist : s'.tasklist = Function.update s.tasklist i ((s.tasklist i).cut l.getLast? r.head?))
    (hother : s.Agree s' x)
    (hrun : ∀ t, t ≠ x → (s'.taskState t = .running ↔ (A.put i (l ++ r)).ready.head? = some t))
    (hprio : s'.schedPriority = s.schedPriority) (hlock : s'.lockcount = s.lockcount)
    (hcount : s'.semval = s.semval) : Rep s' (A.put i (l ++ r)) (some x) := by
  have hnodup : (l ++ x :: r).Nodup := hi ▸ (h.queues.queue i).nodup
  have hxl : x ∉ l ++ r := (List.nodup_cons.mp (List.nodup_middle.mp hnodup)).1
  have hxi : x ∈ A.lists i := by simp [hi]
  have hne : ∀ {t}, some t ≠ some x → t ≠ x := fun ht he => ht (congrArg some he)
  refine ⟨?_, fun t ht j => ?_, fun t ht => hrun t (hne ht), fun t ht hs => ?_, fun t ht j => ?_,
    hprio.trans h.prio, hlock.trans h.lockcount, hcount.trans h.semval⟩
  · rw [hlinks, hlist]
    exact h.queues.cut hi
  · rw [hother.tlistHead (hne ht), ← h.mem_iff]
    by_cases hj : j = i
    · subst hj
      rw [A.put_lists_self, hi, List.perm_middle.mem_iff, List.mem_cons, or_iff_right (hne ht)]
    · rw [A.put_lists_of_ne hj]
  · exact hother.waiting (hne ht) (h.isSome_waitobj t) hs
  · obtain rfl := Option.some.inj ht
    by_cases hj : j = i
    · subst hj
      rwa [A.put_lists_self]
    · rw [A.put_lists_of_ne hj]
      exact fun hm => hj (h.queues.disjoint hm hxi)

/-! ## The functions of the scheduler -/

theorem Rep.rem (h : Rep s A out) (hi : A.lists i = l ++ x :: r) :
    s.rem x i = s.setList i
      (s.links.cut l.getLast? x r.head?, (s.tasklist i).cut l.getLast? r.head?) := by
  have hq : IsQueue s.links (s.tasklist i) (l ++ x :: r) := hi ▸ h.queues.queue i
  rw [Kernel.rem, dqRem_eq hq]

/-- A task that leaves a list other than the ready-to-run list. -/
theorem Rep.leave_at (h : Rep s A none) (hi : A.lists i = l ++ x :: r) (hne : i ≠ .readytorun) :
    Rep (s.setList i (s.links.cut l.getLast? x r.head?, (s.tasklist i).cut l.getLast? r.head?))
      (A.put i (l ++ r)) (some x) := by
  refine h.leave hi rfl rfl (fun t _ => ⟨rfl, .inl rfl⟩) (fun t _ => ?_) rfl rfl rfl
  rw [A.put_ready hne]
  exact h.running_iff t

theorem Rep.leave_other (h : Rep s A none) (hi : A.lists i = l ++ x :: r) (hne : i ≠ .readytorun) :
    Rep (s.rem x i) (A.put i (l ++ r)) (some x) := by
  rw [h.rem hi]
  exact h.leave_at hi hne

variable [Fintype ν]

theorem Rep.addPrioritized (h : Rep s A (some x)) (i : TaskList κ) :
    ∃ l r s', A.lists i = l ++ r ∧ insertTask A.prio x (A.lists i) = l ++ x :: r ∧
      s.addPrioritized x i = some (s', l.isEmpty) ∧ s' = s.setList i
        (s.links.splice l.getLast? x r.head?, (s.tasklist i).splice l.getLast? x r.head?) := by
  obtain ⟨l, r, hi, hins, hadd⟩ :=
    nxschedAddPrioritized_eq s.schedPriority (h.queues.queue i) (h.absent x rfl i)
  refine ⟨l, r, _, hi, h.prio ▸ hins, ?_, rfl⟩
  rw [Kernel.addPrioritized, hadd]
  rfl

omit [DecidableEq κ] in
theorem Kernel.addPrioritized_setState [DecidableEq κ] (s : Kernel ν κ) (x : ν) (st : TaskState) :
    (s.setState x st).addPrioritized x i =
      (s.addPrioritized x i).map fun r => (r.1.setState x st, r.2) := by
  rw [Kernel.addPrioritized, Kernel.addPrioritized, Option.map_map]
  rfl

omit [Fintype ν] in
/-- A task that joins a list other than the ready-to-run list, in a state that names it. -/
theorem Rep.enter_at (h : Rep s A (some x)) (st : TaskState) (hne : i ≠ .readytorun)
    (hi : A.lists i = l ++ r) (hst : tlistHead st (s.waitobj x) = some i) (hrun : st ≠ .running)
    (hw : st = .waitSem → (s.waitobj x).isSome) :
    Rep ((s.setList i (s.links.splice l.getLast? x r.head?,
      (s.tasklist i).splice l.getLast? x r.head?)).setState x st) (A.put i (l ++ x :: r)) none := by
  refine h.enter hi rfl rfl ?_ ?_ (fun t ht => ⟨rfl, .inl ?_⟩) (fun t => ?_) rfl rfl rfl
  · simpa [Kernel.setState, Kernel.setList] using hst
  · simpa [Kernel.setState, Kernel.setList] using hw
  · simp [Kernel.setState, Kernel.setList, ht]
  · rw [A.put_ready hne]
    by_cases ht : t = x
    · subst ht
      have hx : A.ready.head? ≠ some t := fun he => h.absent t rfl _ (List.mem_of_head? he)
      simp [Kernel.setState, Kernel.setList, hrun, hx]
    · simp only [Kernel.setState, Kernel.setList, Function.update_of_ne ht]
      exact h.running t (by simp [ht])

theorem Rep.enter_other (h : Rep s A (some x)) (st : TaskState) (hne : i ≠ .readytorun)
    (hst : tlistHead st (s.waitobj x) = some i) (hrun : st ≠ .running)
    (hw : st = .waitSem → (s.waitobj x).isSome) :
    ∃ s' b, (s.addPrioritized x i) = some (s', b) ∧
      Rep (s'.setState x st) (A.join i x) none ∧ s'.taskState = s.taskState ∧
      s'.waitobj = s.waitobj := by
  obtain ⟨l, r, s₁, hi, hins, hadd, rfl⟩ := h.addPrioritized i
  refine ⟨_, _, hadd, ?_, rfl, rfl⟩
  rw [Sched.join, hins]
  exact h.enter_at st hne hi hst hrun hw

/-- **A task becomes ready to run, or pending.** -/
theorem Rep.addReadytorun (h : Rep s A (some x)) (hne : A.ready ≠ []) :
    ∃ s', nxschedAddReadytorun s x = some (s', decide ((A.add x).ready.head? = some x)) ∧
      Rep s' (A.add x) none ∧ s'.waitobj = s.waitobj := by
  obtain ⟨rtcb, rest, hready⟩ := List.exists_cons_of_ne_nil hne
  have hhead : A.ready.head? = some rtcb := by rw [hready, List.head?_cons]
  have hx : ∀ j, x ∉ A.lists j := h.absent x rfl
  have hrx : rtcb ≠ x := fun he => hx .readytorun (he ▸ List.mem_of_head? hhead)
  simp only [nxschedAddReadytorun, h.thisTask, Sched.add, hhead, Option.bind_some,
    h.lockcount, h.prio]
  split
  · -- preemption is disabled, and the task has the higher priority
    obtain ⟨s', b, hadd, hrep, -, hw⟩ :=
      h.enter_other (i := .pendingtasks) .pending (by simp) rfl (by simp) (by simp)
    have hfalse : decide ((A.join .pendingtasks x).ready.head? = some x) = false := by
      rw [Sched.join, A.put_ready (i := .pendingtasks) (by simp), hhead]
      simpa using hrx
    exact ⟨_, by rw [hadd, hfalse]; rfl, hrep, hw⟩
  · obtain ⟨l, r, s₁, hi, hins, hadd, hs₁⟩ := h.addPrioritized .readytorun
    rw [hadd, Sched.join, hins, Option.bind_some]
    have hrun : ∀ t, t ≠ x → (s.taskState t = .running ↔ t = rtcb) := by
      intro t ht
      rw [h.running t (by simp [ht]), hhead, Option.some_inj, eq_comm]
    cases l with
    | nil =>
      obtain rfl : r = A.ready := hi.symm
      have hflink : s₁.links.flink x = some rtcb := by
        simp [hs₁, Kernel.setList, Links.splice, hhead]
      refine ⟨(s₁.setState x .running).setState rtcb .readytorun, ?_, ?_, by rw [hs₁]; rfl⟩
      · simp [hflink]
      · subst hs₁
        refine h.enter hi rfl rfl ?_ ?_ (fun t ht => ⟨rfl, ?_⟩) (fun t => ?_) rfl rfl rfl
        · simp [Kernel.setState, Kernel.setList, Ne.symm hrx, tlistHead]
        · simp [Kernel.setState, Kernel.setList, Ne.symm hrx]
        · by_cases htr : t = rtcb
          · have hrunning : s.taskState rtcb = .running := (hrun rtcb hrx).mpr rfl
            exact .inr (by simp [Kernel.setState, Kernel.setList, htr, hrunning,
              TaskState.isRunnable])
          · exact .inl (by simp [Kernel.setState, Kernel.setList, ht, htr])
        · rw [A.put_ready_self]
          by_cases htx : t = x
          · simp [Kernel.setState, Kernel.setList, htx, Ne.symm hrx]
          by_cases htr : t = rtcb
          · simp [Kernel.setState, Kernel.setList, htr, Ne.symm hrx]
          · have hnot : s.taskState t ≠ .running := fun he => htr ((hrun t htx).mp he)
            simp [Kernel.setState, Kernel.setList, htr, htx, hnot, Ne.symm htx]
    | cons y l =>
      have hy : y = rtcb := by
        rw [Sched.ready, hi] at hhead
        exact Option.some.inj hhead
      refine ⟨s₁.setState x .readytorun, ?_, ?_, by rw [hs₁]; rfl⟩
      · simp [hy, hrx]
      · subst hs₁
        refine h.enter hi rfl rfl ?_ ?_ (fun t ht => ⟨rfl, .inl ?_⟩) (fun t => ?_) rfl rfl rfl
        · simp [Kernel.setState, Kernel.setList, tlistHead]
        · simp [Kernel.setState, Kernel.setList]
        · simp [Kernel.setState, Kernel.setList, ht]
        · rw [A.put_ready_self]
          by_cases htx : t = x
          · simp [Kernel.setState, Kernel.setList, htx, hy, hrx]
          · simp [Kernel.setState, Kernel.setList, htx, hy, hrun t htx, eq_comm]

omit [Fintype ν] in
/-- **A task leaves the ready-to-run list**; the next one runs if it was the running one. -/
theorem Rep.removeReadytorun (h : Rep s A none) (hi : A.ready = l ++ x :: r)
    (hrest : l ++ r ≠ []) :
    ∃ s', nxschedRemoveReadytorun s x = some (s', l.isEmpty) ∧
      Rep s' (A.put .readytorun (l ++ r)) (some x) ∧ s'.waitobj = s.waitobj := by
  have hq := h.queues.queue .readytorun
  rw [← Sched.ready, hi] at hq
  have hx : x ∈ A.ready := by rw [hi]; simp
  have hrunnable := h.isRunnable hx
  have hxl : x ∉ l ++ r := (List.nodup_cons.mp (List.nodup_middle.mp hq.nodup)).1
  have hrem : dqRem s.links (s.tasklist .readytorun) x = _ := dqRem_eq hq
  rw [nxschedRemoveReadytorun, h.tlistHead_eq hx, Option.bind_some, hq.blink, hq.flink]
  have hrun : ∀ t, s.taskState t = .running ↔ (l ++ x :: r).head? = some t := fun t =>
    hi ▸ h.running_iff t
  cases l with
  | nil =>
    obtain ⟨next, r, rfl⟩ := List.exists_cons_of_ne_nil hrest
    have hnx : next ≠ x := fun he => hxl (by simp [he])
    refine ⟨((s.setState next .running).rem x .readytorun).setState x .invalid,
      by simp [hrunnable], ?_, rfl⟩
    have hnext : (s.taskState next).isRunnable := h.isRunnable (by rw [hi]; simp)
    refine h.leave hi (congrArg Prod.fst hrem) ?_ (fun t ht => ⟨rfl, ?_⟩) (fun t ht => ?_)
      rfl rfl rfl
    · exact congrArg (Function.update s.tasklist .readytorun) (congrArg Prod.snd hrem)
    · by_cases htn : t = next
      · refine .inr ⟨?_, htn ▸ hnext⟩
        simp [Kernel.setState, Kernel.rem, Kernel.setList, htn, hnx, TaskState.isRunnable]
      · exact .inl (by simp [Kernel.setState, Kernel.rem, Kernel.setList, ht, htn])
    · rw [A.put_ready_self]
      by_cases htn : t = next
      · simp [Kernel.setState, Kernel.rem, Kernel.setList, htn, hnx]
      · have hnot : s.taskState t ≠ .running := fun he => ht (by simpa using ((hrun t).mp he).symm)
        simp [Kernel.setState, Kernel.rem, Kernel.setList, ht, htn, hnot, Ne.symm htn]
  | cons y l =>
    have hblink : (y :: l).getLast? ≠ none := by simp
    refine ⟨(s.rem x .readytorun).setState x .invalid, by simp [hblink], ?_, rfl⟩
    refine h.leave hi (congrArg Prod.fst hrem) ?_ (fun t ht => ⟨rfl, .inl ?_⟩) (fun t ht => ?_)
      rfl rfl rfl
    · exact congrArg (Function.update s.tasklist .readytorun) (congrArg Prod.snd hrem)
    · simp [Kernel.setState, Kernel.rem, Kernel.setList, ht]
    · rw [A.put_ready_self]
      simp [Kernel.setState, Kernel.rem, Kernel.setList, ht, hrun t]

/-! ## The merge -/

/-- The head of the ready-to-run list is running, and the tasks behind it are not. -/
def Placed (s : Kernel ν κ) (xs : List ν) : Prop :=
  ∀ t ∈ xs, s.taskState t = if xs.head? = some t then .running else .readytorun

/-- The fields that a merge does not write. -/
structure Kernel.SameFields (s s' : Kernel ν κ) : Prop where
  schedPriority : s'.schedPriority = s.schedPriority
  lockcount : s'.lockcount = s.lockcount
  waitobj : s'.waitobj = s.waitobj
  semval : s'.semval = s.semval

omit [DecidableEq ν] [DecidableEq κ] [Fintype ν] in
theorem Kernel.SameFields.trans {s₁ s₂ s₃ : Kernel ν κ} (h₁ : s₁.SameFields s₂)
    (h₂ : s₂.SameFields s₃) : s₁.SameFields s₃ :=
  ⟨h₂.schedPriority.trans h₁.schedPriority, h₂.lockcount.trans h₁.lockcount,
    h₂.waitobj.trans h₁.waitobj, h₂.semval.trans h₁.semval⟩

omit [DecidableEq ν] [Fintype ν] in
theorem findLower_eq {prio : ν → UInt8} {h : Links ν} {q : Ends ν} {p : UInt8}
    (hq : IsQueue h q (l ++ r)) {n : ℕ} (hn : r.length < n) (hlow : ∃ y ∈ r, prio y < p) :
    ∃ l' y r', r = l' ++ y :: r' ∧ (∀ z ∈ l', p ≤ prio z) ∧ prio y < p ∧
      findLower prio h p n r.head? = some y := by
  induction r generalizing l n with
  | nil =>
    obtain ⟨y, hy, -⟩ := hlow
    cases hy
  | cons x r ih =>
    obtain ⟨n, rfl⟩ := Nat.exists_eq_succ_of_ne_zero (Nat.ne_of_gt (Nat.zero_lt_of_lt hn))
    rw [List.head?_cons, findLower, hq.flink]
    by_cases hx : p ≤ prio x
    · rw [if_pos hx]
      have hq' : IsQueue h q ((l ++ [x]) ++ r) := by simpa using hq
      have hlow' : ∃ y ∈ r, prio y < p := by
        obtain ⟨y, hy, hlt⟩ := hlow
        rcases List.mem_cons.mp hy with rfl | hy
        · exact absurd hlt (UInt8.not_lt.mpr hx)
        · exact ⟨y, hy, hlt⟩
      obtain ⟨l', y, r', rfl, hl', hy, hfind⟩ := ih hq' (Nat.lt_of_succ_lt_succ hn) hlow'
      refine ⟨x :: l', y, r', rfl, fun z hz => ?_, hy, hfind⟩
      rcases List.mem_cons.mp hz with rfl | hz
      · exact hx
      · exact hl' z hz
    · rw [if_neg hx]
      exact ⟨[], x, r, rfl, List.forall_mem_nil _, UInt8.not_le.mp hx, rfl⟩

omit [Fintype ν] in
/-- **One round of the merge** puts the task `x` before `c`. -/
theorem mergeInsert_spec (hq : IsQueue s.links (s.tasklist .readytorun) (l ++ c :: r))
    (hx : x ∉ l ++ c :: r) (hplaced : Placed s (l ++ c :: r)) :
    ∃ s', mergeInsert s x c = (s', l.isEmpty) ∧
      s'.links = s.links.splice l.getLast? x (some c) ∧
      s'.tasklist = Function.update s.tasklist .readytorun
        ((s.tasklist .readytorun).splice l.getLast? x (some c)) ∧
      Placed s' (l ++ x :: c :: r) ∧
      (∀ y, y ∉ l ++ x :: c :: r → s'.taskState y = s.taskState y) ∧ s.SameFields s' := by
  have hadd := addBefore_eq hq hx
  have hne : ∀ t ∈ l ++ c :: r, t ≠ x := fun t ht he => hx (he ▸ ht)
  rw [List.head?_cons, addBefore, hq.blink] at hadd
  rw [mergeInsert, hq.blink]
  cases hl : l.getLast? with
  | none =>
    obtain rfl := List.getLast?_eq_none_iff.mp hl
    have hcx : c ≠ x := hne c (by simp)
    simp only [List.getLast?_nil, Prod.mk.injEq] at hadd
    refine ⟨_, rfl, hadd.1, congrArg (Function.update s.tasklist .readytorun) hadd.2.1,
      fun t ht => ?_, fun y hy => ?_, ⟨rfl, rfl, rfl, rfl⟩⟩
    · by_cases htx : t = x
      · simp [Kernel.setState, htx]
      have ht' : t ∈ c :: r := by simpa [htx] using ht
      by_cases htc : t = c
      · simp [Kernel.setState, htc, hcx, Ne.symm hcx]
      · have := hplaced t ht'
        simp_all [Kernel.setState, Kernel.setList, Ne.symm htx, Ne.symm htc]
    · simp only [List.nil_append, List.mem_cons, not_or] at hy
      simp [Kernel.setState, Kernel.setList, hy.1, hy.2.1]
  | some last =>
    obtain ⟨f, l', rfl⟩ : ∃ f l', l = f :: l' :=
      List.exists_cons_of_ne_nil fun h => by simp [h] at hl
    have hf : f ≠ x := hne f (by simp)
    simp only [hl, Prod.mk.injEq] at hadd
    refine ⟨_, rfl, hadd.1, ?_, fun t ht => ?_, fun y hy => ?_, ⟨rfl, rfl, rfl, rfl⟩⟩
    · rw [← hadd.2.1]
      exact (Function.update_eq_self _ _).symm
    · by_cases htx : t = x
      · simp [Kernel.setState, htx, hf]
      · have ht' : t ∈ f :: l' ++ c :: r := by simpa [htx] using ht
        have := hplaced t ht'
        simpa [Kernel.setState, htx] using this
    · have hyx : y ≠ x := fun he => hy (by simp [he])
      simp [Kernel.setState, hyx]

/-- **The merge loop.** The cursor `c` is at the task put in last, so that the tasks `l` before it
all have a priority at least that of the tasks `ps` still pending; a task of a lower priority than
these is behind it. -/
theorem mergeLoop_spec {ps : List ν} {prev : Option ν} {n : ℕ} (ret : Bool)
    (hq : IsQueue s.links (s.tasklist .readytorun) (l ++ c :: r))
    (hps : Segment s.links prev ps none) (hnew : ∀ p ∈ ps, p ∉ l ++ c :: r) (hnodup : ps.Nodup)
    (hsorted : ps.Pairwise fun a b => s.schedPriority b ≤ s.schedPriority a)
    (habove : ∀ p ∈ ps, ∀ y ∈ l, s.schedPriority p ≤ s.schedPriority y)
    (hlow : ∀ p ∈ ps, ∃ y ∈ c :: r, s.schedPriority y < s.schedPriority p)
    (hplaced : Placed s (l ++ c :: r)) (hn : ps.length < n) :
    ∃ s' b, mergeLoop s n ps.head? c ret = some (s', b) ∧
      IsQueue s'.links (s'.tasklist .readytorun) (insertTasks s.schedPriority ps (l ++ c :: r)) ∧
      Placed s' (insertTasks s.schedPriority ps (l ++ c :: r)) ∧
      (∀ i, i ≠ .readytorun → s'.tasklist i = s.tasklist i) ∧
      (∀ y, y ∉ ps → y ∉ l ++ c :: r → s'.taskState y = s.taskState y ∧
        s'.links.flink y = s.links.flink y ∧ s'.links.blink y = s.links.blink y) ∧
      s.SameFields s' := by
  induction ps generalizing s l c r prev n ret with
  | nil =>
    obtain ⟨n, rfl⟩ := Nat.exists_eq_succ_of_ne_zero (Nat.ne_of_gt hn)
    exact ⟨s, ret, rfl, hq, hplaced, fun _ _ => rfl, fun _ _ _ => ⟨rfl, rfl, rfl⟩,
      ⟨rfl, rfl, rfl, rfl⟩⟩
  | cons p ps ih =>
    obtain ⟨n, rfl⟩ := Nat.exists_eq_succ_of_ne_zero (Nat.ne_of_gt (Nat.zero_lt_of_lt hn))
    obtain ⟨-, hflink, hseg⟩ := hps
    obtain ⟨hp, hnodup⟩ := List.nodup_cons.mp hnodup
    obtain ⟨hfirst, hsorted⟩ := List.pairwise_cons.mp hsorted
    have hlen : (c :: r).length < Fintype.card ν + 1 := by
      have := length_le_card hq
      rw [List.length_append] at this
      omega
    obtain ⟨l', y, r', hsplit, hge, hlt, hfind⟩ :=
      findLower_eq hq hlen (hlow p List.mem_cons_self)
    have hwhole : l ++ c :: r = (l ++ l') ++ y :: r' := by rw [hsplit, List.append_assoc]
    have hins : insertTask s.schedPriority p ((l ++ l') ++ y :: r') =
        (l ++ l') ++ p :: y :: r' := by
      refine insertTask_append (fun z hz => ?_) fun z hz => ?_
      · rcases List.mem_append.mp hz with hz | hz
        · exact habove p List.mem_cons_self z hz
        · exact hge z hz
      · exact Option.some.inj hz ▸ hlt
    rw [hwhole] at hq hnew hplaced ⊢
    obtain ⟨s₁, hinsert, hlinks, hlist, hplaced₁, hstate₁, hsame₁⟩ :=
      mergeInsert_spec hq (hnew p List.mem_cons_self) hplaced
    have hq₁ : IsQueue s₁.links (s₁.tasklist .readytorun) ((l ++ l') ++ p :: y :: r') := by
      rw [hlinks, hlist, Function.update_self]
      exact hq.splice (hnew p List.mem_cons_self)
    have hframe : ∀ z, z ∉ (l ++ l') ++ p :: y :: r' →
        s₁.links.flink z = s.links.flink z ∧ s₁.links.blink z = s.links.blink z := by
      intro z hz
      simp only [List.mem_append, List.mem_cons, not_or] at hz
      rw [hlinks]
      refine Links.splice_frame hz.2.1 (fun he => ?_) fun he => hz.2.2.1 (Option.some.inj he)
      rcases List.mem_append.mp (List.mem_of_getLast? he.symm) with hz' | hz'
      · exact hz.1.1 hz'
      · exact hz.1.2 hz'
    have hnew₁ : ∀ z ∈ ps, z ∉ (l ++ l') ++ p :: y :: r' := by
      intro z hz hmem
      rcases List.mem_cons.mp (List.perm_middle.mem_iff.mp hmem) with rfl | hmem
      · exact hp hz
      · exact hnew z (List.mem_cons_of_mem p hz) hmem
    have hseg₁ : Segment s₁.links (some p) ps none :=
      hseg.congr (fun z hz => (hframe z (hnew₁ z hz)).1) fun z hz => (hframe z (hnew₁ z hz)).2
    have habove₁ : ∀ q ∈ ps, ∀ z ∈ l ++ l', s.schedPriority q ≤ s.schedPriority z := by
      intro q hq z hz
      refine UInt8.le_trans (hfirst q hq) ?_
      rcases List.mem_append.mp hz with hz | hz
      · exact habove p List.mem_cons_self z hz
      · exact hge z hz
    have hlow₁ : ∀ q ∈ ps, ∃ z ∈ p :: y :: r', s.schedPriority z < s.schedPriority q := by
      intro q hq
      obtain ⟨z, hz, hzq⟩ := hlow q (List.mem_cons_of_mem p hq)
      rw [hsplit] at hz
      rcases List.mem_append.mp hz with hz | hz
      · exact absurd hzq (UInt8.not_lt.mpr (habove₁ q hq z (List.mem_append_right l hz)))
      · exact ⟨z, List.mem_cons_of_mem p hz, hzq⟩
    rw [← hsame₁.schedPriority] at hsorted habove₁ hlow₁
    obtain ⟨s₂, b, hloop, hq₂, hplaced₂, hlist₂, hframe₂, hsame₂⟩ :=
      ih _ hq₁ hseg₁ hnew₁ hnodup hsorted habove₁ hlow₁ hplaced₁ (Nat.lt_of_succ_lt_succ hn)
    rw [hsame₁.schedPriority, ← hins] at hq₂ hplaced₂
    refine ⟨s₂, b, ?_, hq₂, hplaced₂, fun i hi => ?_, fun z hz hz' => ?_, hsame₁.trans hsame₂⟩
    · rw [List.head?_cons] at hfind
      rw [List.head?_cons, mergeLoop, hfind, Option.bind_some, hinsert, hflink, Option.or_none]
      exact hloop
    · rw [hlist₂ i hi, hlist, Function.update_of_ne hi]
    · obtain ⟨hzp, hz⟩ := not_or.mp (fun h => hz (List.mem_cons.mpr h))
      have hz₁ : z ∉ (l ++ l') ++ p :: y :: r' := fun hmem =>
        (List.mem_cons.mp (List.perm_middle.mem_iff.mp hmem)).elim hzp hz'
      obtain ⟨h₁, h₂, h₃⟩ := hframe₂ z hz hz₁
      obtain ⟨h₄, h₅⟩ := hframe z hz₁
      exact ⟨h₁.trans (hstate₁ z hz₁), h₂.trans h₄, h₃.trans h₅⟩

omit [DecidableEq κ] [Fintype ν] in
theorem Rep.placed (h : Rep s A out) : Placed s A.ready := by
  intro t ht
  have hout : some t ≠ out := fun he => h.absent t he _ ht
  have hrunnable := h.isRunnable ht
  have hrun := h.running t hout
  split
  · exact hrun.mpr ‹_›
  · revert hrunnable hrun
    cases s.taskState t <;> simp_all [TaskState.isRunnable]

omit [Fintype ν] in
/-- What the kernel represents when the pending tasks are in the ready-to-run list. -/
theorem Rep.merged (h : Rep s A out)
    (hq : IsQueue s'.links (s'.tasklist .readytorun) A.merged.ready)
    (hplaced : Placed s' A.merged.ready)
    (hlist : ∀ i, i ≠ .readytorun → s'.tasklist i = s.tasklist i)
    (hkeep : ∀ y, y ∉ A.merged.ready → s'.taskState y = s.taskState y ∧
      s'.links.flink y = s.links.flink y ∧ s'.links.blink y = s.links.blink y)
    (hsame : s.SameFields s') :
    Rep (s'.setList .pendingtasks (s'.links, ⟨none, none⟩)) A.merged out := by
  have hstate : ∀ {t}, t ∈ A.merged.ready →
      tlistHead (s'.taskState t) (s'.waitobj t) = some .readytorun := by
    intro t ht
    rw [hplaced t ht]
    split <;> rfl
  refine ⟨⟨fun i => ?_, fun {i j t} hi hj => ?_, fun t ht => ?_⟩, fun t hout i => ?_,
    fun t hout => ?_, fun t hout hs => ?_, fun t hout i hi => ?_, hsame.schedPriority.trans h.prio,
    hsame.lockcount.trans h.lockcount, hsame.semval.trans h.semval⟩
  · by_cases hr : i = .readytorun
    · subst hr
      simpa [Kernel.setList] using hq
    by_cases hp : i = .pendingtasks
    · subst hp
      rw [← Sched.pending, A.merged_pending]
      simpa [Kernel.setList] using isQueue_nil s'.links
    · -- the nodes of the other lists keep their links
      have hi : ∀ t ∈ A.lists i, t ∉ A.merged.ready := fun t ht ht' =>
        hr (Sched.eq_of_mem_merged h.queues.disjoint ht' (by rwa [A.merged_of_ne hr hp]))
      have := (h.queues.queue i).frame (fun t ht => (hkeep t (hi t ht)).2.1)
        fun t ht => (hkeep t (hi t ht)).2.2
      simpa [Kernel.setList, hp, hlist i hr, A.merged_of_ne hr hp] using this
  · by_cases ht : t ∈ A.merged.ready
    · rw [Sched.eq_of_mem_merged h.queues.disjoint ht hi,
        Sched.eq_of_mem_merged h.queues.disjoint ht hj]
    · exact h.queues.disjoint ((Sched.mem_merged ht i).mp hi) ((Sched.mem_merged ht j).mp hj)
  · obtain ⟨-, h₁, h₂⟩ := hkeep t (ht .readytorun)
    have hcleared := h.queues.cleared t fun i => mt (Sched.mem_merged (ht .readytorun) i).mpr (ht i)
    exact ⟨h₁.trans hcleared.1, h₂.trans hcleared.2⟩
  · by_cases ht : t ∈ A.merged.ready
    · refine ⟨fun hi => ?_, fun hi => ?_⟩
      · rw [Sched.eq_of_mem_merged h.queues.disjoint ht hi]
        exact hstate ht
      · rw [← Option.some.inj ((hstate ht).symm.trans hi)]
        exact ht
    · rw [Sched.mem_merged ht, h.place t hout i]
      show _ ↔ tlistHead (s'.taskState t) (s'.waitobj t) = some i
      rw [(hkeep t ht).1, hsame.waitobj]
  · show s'.taskState t = .running ↔ _
    by_cases ht : t ∈ A.merged.ready
    · rw [hplaced t ht]
      split <;> simp_all
    · have hA : t ∉ A.ready := mt (Sched.mem_merged ht .readytorun).mpr ht
      rw [(hkeep t ht).1, h.running t hout]
      exact iff_of_false (mt List.mem_of_head? hA) (mt List.mem_of_head? ht)
  · have ht : t ∉ A.merged.ready := fun ht => by
      have hs' : s'.taskState t = .waitSem := hs
      rw [hplaced t ht] at hs'
      split at hs' <;> cases hs'
    show (s'.waitobj t).isSome
    rw [hsame.waitobj]
    exact h.waiting t hout ((hkeep t ht).1.symm.trans hs)
  · have hA := h.absent t hout
    have ht : t ∉ A.merged.ready := fun ht => (Sched.mem_merged_ready.mp ht).elim (hA _) (hA _)
    exact hA i ((Sched.mem_merged ht i).mp hi)

/-- **The pending tasks become ready to run**, unless preemption is disabled. -/
theorem Rep.mergePending (h : Rep s A out) (hne : A.ready ≠ [])
    (hsorted : A.pending.Pairwise fun a b => A.prio b ≤ A.prio a)
    (hlow : ∀ p ∈ A.pending, ∃ y ∈ A.ready, A.prio y < A.prio p) :
    ∃ s' b, nxschedMergePending s = some (s', b) ∧ Rep s' A.merge out ∧ s'.waitobj = s.waitobj := by
  obtain ⟨rtcb, rest, hready⟩ := List.exists_cons_of_ne_nil hne
  have hhead : A.ready.head? = some rtcb := by rw [hready, List.head?_cons]
  simp only [nxschedMergePending, h.thisTask, Sched.merge, hhead, Option.bind_some,
    h.lockcount]
  split
  · exact ⟨s, false, rfl, h, rfl⟩
  · have hqr := h.queues.queue .readytorun
    have hqp := h.queues.queue .pendingtasks
    have hnew : ∀ p ∈ A.pending, p ∉ A.ready := fun p hp hp' =>
      absurd (h.queues.disjoint hp hp') (by simp)
    have hplaced := h.placed
    rw [← h.prio] at hsorted hlow
    rw [← Sched.ready] at hqr
    rw [hready] at hqr hnew hlow hplaced
    obtain ⟨s', b, hloop, hq', hplaced', hlist', hframe', hsame⟩ :=
      mergeLoop_spec (l := []) (n := Fintype.card ν + 1) false hqr hqp.segment hnew
        hqp.nodup hsorted (fun _ _ => List.forall_mem_nil _) hlow hplaced
        (Nat.lt_succ_of_le (length_le_card hqp))
    rw [← hqp.head] at hloop
    rw [List.nil_append, ← hready, h.prio, ← Sched.pending, ← A.merged_ready] at hq' hplaced'
    rw [List.nil_append, ← hready] at hframe'
    have hkeep : ∀ y, y ∉ A.merged.ready → _ := fun y hy =>
      hframe' y (fun hp => hy (Sched.mem_merged_ready.mpr (.inl hp)))
        fun hr => hy (Sched.mem_merged_ready.mpr (.inr hr))
    exact ⟨_, b, congrArg _ hloop, h.merged hq' hplaced' hlist' hkeep hsame, hsame.waitobj⟩

end Rep

end CameraPipeline
