import CameraPipeline.Sched.Order

/-!
# Leaving and becoming ready

The two halves of every step of the scheduler: the running task leaves the ready-to-run list and the
pending tasks are merged, and a task that was in no list becomes ready to run or pending. Both keep
the invariant, and leave alone the lists of tasks that wait for semaphores.

## Main definitions

* `Sched.sem A k`: the semaphore `k`, with its word and its wait list
* `Sched.Counted A`: every semaphore's count says how many tasks wait for it
* `Good idle s A`: the kernel represents `A`, which satisfies the invariant

## Main results

* `Rep.removeSelf`, `Rep.add`: the two halves
* `Rep.close`: a task that is in no list is free
-/

namespace CameraPipeline

open Data

/-! ## What the operations leave alone -/

namespace Sched

variable {ν κ : Type}

/-- A counting semaphore of the kernel. -/
def sem (A : Sched ν κ) (k : κ) : Sem ν := ⟨A.semval k, 0, A.lists (.waitlist k)⟩

/-- **Every semaphore's count says how many tasks wait for it.** -/
def Counted (A : Sched ν κ) : Prop :=
  ∀ k, (A.sem k).Counted

/-- The semaphores are the same. -/
structure Keeps (A A' : Sched ν κ) : Prop where
  waitlist : ∀ k, A'.lists (.waitlist k) = A.lists (.waitlist k)
  semval : A'.semval = A.semval

variable {A A₁ A₂ A₃ : Sched ν κ} {i : TaskList κ} {xs : List ν} {t : ν}

theorem Keeps.trans (h₁ : Keeps A₁ A₂) (h₂ : Keeps A₂ A₃) : Keeps A₁ A₃ :=
  ⟨fun k => (h₂.waitlist k).trans (h₁.waitlist k), h₂.semval.trans h₁.semval⟩

theorem Keeps.refl (A : Sched ν κ) : Keeps A A := ⟨fun _ => rfl, rfl⟩

theorem Keeps.sem (h : Keeps A A₁) : A₁.sem = A.sem := funext fun k => by
  rw [Sched.sem, Sched.sem, h.waitlist, h.semval]

theorem Counted.of_keeps (h : A.Counted) (hk : Keeps A A₁) : A₁.Counted := fun k => by
  rw [hk.sem]
  exact h k

variable [DecidableEq κ]

/-- One semaphore replaced. -/
theorem sem_put (k : κ) (xs : List ν) (val : UInt32) :
    Sched.sem { A.put (.waitlist k) xs with semval := Function.update A.semval k val } =
      Function.update A.sem k ⟨val, 0, xs⟩ := by
  funext j
  by_cases hj : j = k
  · subst hj
    simp [Sched.sem, put]
  · have hne : (TaskList.waitlist j : TaskList κ) ≠ .waitlist k := fun he => hj (by cases he; rfl)
    simp [Sched.sem, put, hj, hne]

/-- The word of one semaphore replaced. -/
theorem sem_withSemval (k : κ) (val : UInt32) :
    Sched.sem { A with semval := Function.update A.semval k val } =
      Function.update A.sem k ⟨val, 0, A.lists (.waitlist k)⟩ := by
  rw [← sem_put, put, Function.update_eq_self]

theorem Counted.update {k : κ} {sem : Sem ν} (h : A.Counted)
    (hsem : A₁.sem = Function.update A.sem k sem) (hk : sem.Counted) : A₁.Counted := by
  intro j
  rw [hsem]
  by_cases hj : j = k
  · subst hj
    rwa [Function.update_self]
  · rw [Function.update_of_ne hj]
    exact h j

theorem keeps_put (hi : ∀ k, i ≠ .waitlist k) : Keeps A (A.put i xs) :=
  ⟨fun k => A.put_lists_of_ne (hi k).symm xs, rfl⟩

theorem keeps_add : Keeps A (A.add t) := by
  unfold add
  split
  · exact .refl A
  · split <;> exact keeps_put fun k => by simp

theorem keeps_merge : Keeps A A.merge := by
  unfold merge
  split
  · exact .refl A
  · split
    · exact .refl A
    · exact (keeps_put (i := .readytorun) fun k => by simp).trans
        (keeps_put (i := .pendingtasks) fun k => by simp)

theorem merge_prio : A.merge.prio = A.prio := by
  unfold merge
  split
  · rfl
  · split <;> rfl

end Sched

/-! ## The functions of the scheduler -/

section Functions

variable {ν κ : Type} [DecidableEq ν] [DecidableEq κ] {s s' : Kernel ν κ} {A : Sched ν κ}
  {out : Option ν} {idle x : ν} {l r : List ν} {i : TaskList κ} {k : κ} {p : UInt8}

/-- **The kernel represents `A`, which satisfies the invariant.** -/
structure Good (idle : ν) (s : Kernel ν κ) (A : Sched ν κ) : Prop where
  rep : Rep s A none
  inv : A.Inv idle

omit [DecidableEq ν] [DecidableEq κ] in
/-- The running task is the head of the ready-to-run list. -/
theorem Good.exists_head (h : Good idle s A) :
    ∃ x rest, A.ready = x :: rest ∧ s.thisTask = some x := by
  obtain ⟨x, rest, hready⟩ := List.exists_cons_of_ne_nil h.inv.ready_ne_nil
  exact ⟨x, rest, hready, by rw [h.rep.thisTask, hready, List.head?_cons]⟩

omit [DecidableEq ν] [DecidableEq κ] in
theorem Rep.ne_idle (h : Rep s A out) (ho : A.Ordered idle) (hx : x ∈ A.lists i)
    (hi : i ≠ .readytorun) : x ≠ idle := fun he =>
  hi (h.queues.disjoint (he ▸ hx) ho.idle_mem)

omit [DecidableEq ν] [DecidableEq κ] in
/-- A task in a list other than the ready-to-run list has a priority above the idle task's. -/
theorem Rep.prio_pos (h : Rep s A out) (ho : A.Ordered idle) (hx : x ∈ A.lists i)
    (hi : i ≠ .readytorun) : 0 < A.prio x :=
  ho.prio_pos hx (h.ne_idle ho hx hi)

omit [DecidableEq κ] in
/-- A task that is in no list is free. -/
theorem Rep.close (h : Rep s A (some x)) : Rep (s.setState x .invalid) A none := by
  have hx := h.absent x rfl
  refine ⟨h.queues, fun t _ i => ?_, fun t _ => ?_, fun t _ hs => ?_, absent_none _, h.prio,
    h.lockcount, h.semval⟩
  · by_cases ht : t = x
    · subst ht
      simp [Kernel.setState, tlistHead, hx i]
    · simpa [Kernel.setState, ht] using h.place t (by simp [ht]) i
  · by_cases ht : t = x
    · subst ht
      have hhead : A.ready.head? ≠ some t := fun he => hx _ (List.mem_of_head? he)
      simp [Kernel.setState, hhead]
    · simpa [Kernel.setState, ht] using h.running t (by simp [ht])
  · by_cases ht : t = x
    · subst ht
      simp [Kernel.setState] at hs
    · exact h.waiting t (by simp [ht]) (by simpa [Kernel.setState, ht] using hs)

variable [Fintype ν]

theorem Rep.mergeIfPending (h : Rep s A out) (ho : A.Ordered idle) :
    ∃ s' b, s.mergeIfPending = some (s', b) ∧ Rep s' A.merge out ∧ A.merge.Inv idle ∧
      s'.waitobj = s.waitobj := by
  have hp : ∀ p ∈ A.pending, p ≠ idle := fun p hp => h.ne_idle ho hp (by simp)
  have hinv := ho.merge hp
  rw [Kernel.mergeIfPending, (h.queues.queue .pendingtasks).head]
  by_cases hpend : A.pending = []
  · -- nothing to merge
    rw [Sched.merge_of_pending_nil hpend] at hinv ⊢
    exact ⟨s, false, by rw [← Sched.pending, hpend]; rfl, h, hinv, rfl⟩
  · obtain ⟨q, qs, hq⟩ := List.exists_cons_of_ne_nil hpend
    obtain ⟨s', b, hmerge, hrep, hw⟩ := h.mergePending ho.ready_ne_nil (ho.sorted rfl)
      fun p hp' => ⟨idle, ho.idle_mem, by rw [ho.idle_prio]; exact ho.prio_pos hp' (hp p hp')⟩
    exact ⟨s', b, by rw [← Sched.pending, hq]; exact hmerge, hrep, hinv, hw⟩

/-- **The running task leaves the ready-to-run list**, to wait, to sleep or to exit. -/
theorem Rep.removeSelf (h : Rep s A none) (ho : A.Ordered idle)
    (hhead : A.ready.head? = some x) (hx : x ≠ idle) :
    ∃ s' A', nxschedRemoveSelf s x = some s' ∧ Rep s' A' (some x) ∧ A'.Inv idle ∧ A.Keeps A' ∧
      A'.prio = A.prio ∧ s'.waitobj = s.waitobj := by
  obtain ⟨rest, hready⟩ := List.head?_eq_some_iff.mp hhead
  have ho₁ : (A.put .readytorun rest).Ordered idle := ho.leave (l := []) hready hx
  have hne : rest ≠ [] := by
    have := ho₁.ready_ne_nil
    rwa [A.put_ready_self] at this
  obtain ⟨s₁, hrem, h₁, hw₁⟩ := h.removeReadytorun (l := []) hready hne
  obtain ⟨s₂, b, hmerge, h₂, hinv, hw₂⟩ := h₁.mergeIfPending ho₁
  refine ⟨s₂, _, ?_, h₂, hinv, ?_, Sched.merge_prio, hw₂.trans hw₁⟩
  · rw [nxschedRemoveSelf, hrem, Option.bind_some, hmerge]
    rfl
  · exact (Sched.keeps_put (i := .readytorun) fun k => by simp).trans Sched.keeps_merge

/-- A task that was in no list becomes ready to run or pending. -/
theorem Rep.add (h : Rep s A (some x)) (hinv : A.Inv idle) (hx : 0 < A.prio x) :
    ∃ s' A', (nxschedAddReadytorun s x).map Prod.fst = some s' ∧ Rep s' A' none ∧ A'.Inv idle ∧
      A.Keeps A' := by
  obtain ⟨s', hadd, hrep, -⟩ := h.addReadytorun hinv.ready_ne_nil
  exact ⟨s', _, by rw [hadd]; rfl, hrep, hinv.add hx, Sched.keeps_add⟩

end Functions

end CameraPipeline
