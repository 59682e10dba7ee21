import CameraPipeline.Sched.Representation

/-!
# What keeps the lists in order

The invariant of the scheduler, on the lists that the kernel represents: the prioritized lists are
in descending order of priority, the idle task is at the end of the ready-to-run list with a
priority below all others, and no task is pending unless the running one has disabled preemption. A
task that joins or leaves a list keeps the order; the merge is what restores the last part.

## Main definitions

* `Descending prio xs`: the tasks `xs` in descending order of priority
* `Sched.Ordered idle A`, `Sched.Inv idle A`: the order of the lists, and the invariant

## Main results

* `Sched.Ordered.join`, `Sched.Ordered.put`, `Sched.Ordered.merged`: what keeps the order
* `Sched.Inv.add`, `Sched.Ordered.merge`: what keeps the invariant, and what restores it
-/

namespace CameraPipeline

open Data

/-! ## Descending lists -/

section Descending

variable {ν : Type} {prio : ν → UInt8} {xs ps l r : List ν} {t z : ν}

/-- The tasks are in descending order of priority. -/
def Descending (prio : ν → UInt8) (xs : List ν) : Prop :=
  xs.Pairwise fun a b => prio b ≤ prio a

theorem insertTask_cons (y : ν) : insertTask prio t (y :: xs) =
    if prio y < prio t then t :: y :: xs else y :: insertTask prio t xs :=
  List.orderedInsert_cons ..

theorem Descending.insertTask (h : Descending prio xs) :
    Descending prio (insertTask prio t xs) := by
  induction xs with
  | nil => exact List.pairwise_singleton _ _
  | cons y xs ih =>
    obtain ⟨hy, h⟩ := List.pairwise_cons.mp h
    rw [insertTask_cons]
    split
    · rename_i hlt
      refine List.pairwise_cons.mpr ⟨fun z hz => ?_, List.pairwise_cons.mpr ⟨hy, h⟩⟩
      rcases List.mem_cons.mp hz with rfl | hz
      · exact UInt8.le_of_lt hlt
      · exact UInt8.le_trans (hy z hz) (UInt8.le_of_lt hlt)
    · rename_i hge
      refine List.pairwise_cons.mpr ⟨fun z hz => ?_, ih h⟩
      rcases mem_insertTask.mp hz with rfl | hz
      · exact UInt8.not_lt.mp hge
      · exact hy z hz

theorem Descending.insertTasks (h : Descending prio xs) :
    Descending prio (insertTasks prio ps xs) := by
  induction ps generalizing xs with
  | nil => exact h
  | cons p ps ih => exact ih h.insertTask

/-- The last task stays last, if its priority is the lower one. -/
theorem insertTask_concat (hz : prio z < prio t) :
    insertTask prio t (l ++ [z]) = insertTask prio t l ++ [z] := by
  induction l with
  | nil =>
    rw [List.nil_append, insertTask_cons, if_pos hz]
    rfl
  | cons y l ih =>
    rw [List.cons_append, insertTask_cons, insertTask_cons, ih]
    split <;> rfl

theorem getLast?_insertTask (hlast : xs.getLast? = some z) (hz : prio z < prio t) :
    (insertTask prio t xs).getLast? = some z := by
  obtain ⟨l, rfl⟩ := List.getLast?_eq_some_iff.mp hlast
  rw [insertTask_concat hz, List.getLast?_concat]

theorem getLast?_insertTasks (hlast : xs.getLast? = some z) (hz : ∀ p ∈ ps, prio z < prio p) :
    (insertTasks prio ps xs).getLast? = some z := by
  induction ps generalizing xs with
  | nil => exact hlast
  | cons p ps ih =>
    exact ih (getLast?_insertTask hlast (hz p List.mem_cons_self))
      fun q hq => hz q (List.mem_cons_of_mem p hq)

/-- A task joins behind the tasks of its priority or more. -/
theorem insertTask_append_of_le (hl : ∀ y ∈ l, prio t ≤ prio y) :
    insertTask prio t (l ++ r) = l ++ insertTask prio t r := by
  induction l with
  | nil => rfl
  | cons y l ih =>
    have hy : ¬ prio y < prio t := UInt8.not_lt.mpr (hl y List.mem_cons_self)
    have hl' : ∀ z ∈ l, prio t ≤ prio z := fun z hz => hl z (List.mem_cons_of_mem y hz)
    rw [List.cons_append, insertTask_cons, if_neg hy, ih hl']
    rfl

/-- Only the priorities of the tasks in the list matter. -/
theorem Descending.congr {prio' : ν → UInt8} (h : Descending prio xs)
    (hxs : ∀ t ∈ xs, prio' t = prio t) : Descending prio' xs :=
  List.Pairwise.imp_of_mem (fun ha hb hab => by rwa [hxs _ ha, hxs _ hb]) h

end Descending

/-! ## The invariant -/

/-- The lists that `nxsched_add_prioritized` keeps. -/
def TaskList.isPrioritized {κ : Type} : TaskList κ → Bool
  | readytorun | pendingtasks | waitlist _ => true
  | _ => false

namespace Sched

variable {ν κ : Type}

/-- **The order of the lists.** -/
structure Ordered (idle : ν) (A : Sched ν κ) : Prop where
  idle_last : A.ready.getLast? = some idle
  idle_prio : A.prio idle = 0
  prio_pos : ∀ {i t}, t ∈ A.lists i → t ≠ idle → 0 < A.prio t
  sorted : ∀ {i}, i.isPrioritized → Descending A.prio (A.lists i)

/-- **The invariant of the scheduler.** -/
structure Inv (idle : ν) (A : Sched ν κ) : Prop extends Ordered idle A where
  unlocked : ¬ A.Locked → A.pending = []

variable {A : Sched ν κ} {idle x t : ν} {i : TaskList κ} {xs l r : List ν}

theorem Ordered.idle_mem (h : A.Ordered idle) : idle ∈ A.ready :=
  List.mem_of_getLast? h.idle_last

theorem Ordered.ready_ne_nil (h : A.Ordered idle) : A.ready ≠ [] :=
  List.ne_nil_of_mem h.idle_mem

theorem Ordered.ne_idle (h : A.Ordered idle) (hx : 0 < A.prio x) : x ≠ idle := fun he => by
  rw [he, h.idle_prio] at hx
  exact UInt8.lt_irrefl _ hx

/-- The invariant depends on the running task and on whether tasks are pending. -/
theorem Inv.congr {A' : Sched ν κ} (h : A.Inv idle) (ho : A'.Ordered idle)
    (hhead : A'.ready.head? = A.ready.head?) (hlock : A'.lockcount = A.lockcount)
    (hpend : A.pending = [] → A'.pending = []) : A'.Inv idle := by
  refine ⟨ho, fun hl => hpend (h.unlocked ?_)⟩
  rintro ⟨t, ht, hlt⟩
  refine hl ⟨t, ?_, ?_⟩
  · rw [hhead, ht]
  · rwa [hlock]

theorem not_locked (hhead : A.ready.head? = some x) (hx : ¬ 0 < A.lockcount x) : ¬ A.Locked := by
  rintro ⟨t, ht, hlock⟩
  rw [Option.some.inj (hhead.symm.trans ht)] at hx
  exact hx hlock

variable [DecidableEq κ]

/-- One list may be replaced by another one in order. -/
theorem Ordered.put (h : A.Ordered idle) (hpos : ∀ t ∈ xs, t ≠ idle → 0 < A.prio t)
    (hsorted : i.isPrioritized → Descending A.prio xs)
    (hlast : i = .readytorun → xs.getLast? = some idle) : (A.put i xs).Ordered idle := by
  refine ⟨?_, h.idle_prio, fun {j t} ht hidle => ?_, fun {j} hj => ?_⟩
  · by_cases hi : i = .readytorun
    · subst hi
      rw [put_ready_self]
      exact hlast rfl
    · rw [A.put_ready hi]
      exact h.idle_last
  · by_cases hj : j = i
    · subst hj
      rw [put_lists_self] at ht
      exact hpos t ht hidle
    · rw [A.put_lists_of_ne hj] at ht
      exact h.prio_pos ht hidle
  · by_cases hji : j = i
    · subst hji
      rw [put_lists_self]
      exact hsorted hj
    · rw [A.put_lists_of_ne hji]
      exact h.sorted hj

/-- A task joins a prioritized list. -/
theorem Ordered.join (h : A.Ordered idle) (hx : 0 < A.prio x) (hi : i.isPrioritized) :
    (A.join i x).Ordered idle := by
  refine h.put (fun t ht hidle => ?_) (fun _ => (h.sorted hi).insertTask) fun hr => ?_
  · rcases mem_insertTask.mp ht with rfl | ht
    · exact hx
    · exact h.prio_pos ht hidle
  · subst hr
    exact getLast?_insertTask h.idle_last (by rwa [h.idle_prio])

/-- A task other than the idle task leaves a list. -/
theorem Ordered.leave (h : A.Ordered idle) (hi : A.lists i = l ++ x :: r) (hx : x ≠ idle) :
    (A.put i (l ++ r)).Ordered idle := by
  have hsub : (l ++ r).Sublist (A.lists i) := by
    rw [hi]
    exact (List.sublist_cons_self x r).append_left l
  refine h.put (fun t ht => h.prio_pos (hsub.mem ht)) (fun hp => (h.sorted hp).sublist hsub) ?_
  rintro rfl
  have hlast : (l ++ x :: r).getLast? = some idle := hi ▸ h.idle_last
  cases r with
  | nil => exact absurd (by simpa using hlast) hx
  | cons y r => simpa [List.getLast?_append, List.getLast?_cons] using hlast

/-- A task leaves a list other than the ready-to-run list. -/
theorem Inv.leave (h : A.Inv idle) (hi : A.lists i = l ++ x :: r) (hr : i ≠ .readytorun)
    (hx : x ≠ idle) : (A.put i (l ++ r)).Inv idle := by
  refine h.congr (h.toOrdered.leave hi hx) (by rw [A.put_ready hr]) rfl fun hnil => ?_
  have hp : i ≠ .pendingtasks := by
    rintro rfl
    rw [← pending, hnil] at hi
    simp at hi
  rw [A.put_pending hp, hnil]

theorem Ordered.merged (h : A.Ordered idle) (hp : ∀ p ∈ A.pending, p ≠ idle) :
    A.merged.Ordered idle := by
  have hpos : ∀ p ∈ A.pending, A.prio idle < A.prio p := fun p hp' => by
    rw [h.idle_prio]
    exact h.prio_pos hp' (hp p hp')
  have hready : (A.put .readytorun (insertTasks A.prio A.pending A.ready)).Ordered idle := by
    refine h.put (fun t ht hidle => ?_) (fun _ => (h.sorted rfl).insertTasks)
      fun _ => getLast?_insertTasks h.idle_last hpos
    exact (mem_insertTasks.mp ht).elim (h.prio_pos · hidle) (h.prio_pos · hidle)
  exact hready.put (List.forall_mem_nil _) (fun _ => List.Pairwise.nil) (by simp)

/-- **The merge restores the invariant.** -/
theorem Ordered.merge (h : A.Ordered idle) (hp : ∀ p ∈ A.pending, p ≠ idle) :
    A.merge.Inv idle := by
  obtain ⟨rtcb, rest, hready⟩ := List.exists_cons_of_ne_nil h.ready_ne_nil
  have hhead : A.ready.head? = some rtcb := by rw [hready, List.head?_cons]
  rw [Sched.merge, hhead]
  show Inv idle (if 0 < A.lockcount rtcb then A else A.merged)
  split
  · exact ⟨h, fun hl => absurd ⟨rtcb, hhead, ‹_›⟩ hl⟩
  · exact ⟨h.merged hp, fun _ => A.merged_pending⟩

/-- **A task that becomes ready to run or pending keeps the invariant.** -/
theorem Inv.add (h : A.Inv idle) (hx : 0 < A.prio x) : (A.add x).Inv idle := by
  obtain ⟨rtcb, rest, hready⟩ := List.exists_cons_of_ne_nil h.ready_ne_nil
  have hhead : A.ready.head? = some rtcb := by rw [hready, List.head?_cons]
  rw [Sched.add, hhead]
  show Inv idle (if 0 < A.lockcount rtcb ∧ A.prio rtcb < A.prio x then A.join .pendingtasks x
    else A.join .readytorun x)
  split
  · rename_i hpend
    refine ⟨h.join hx rfl, fun hl => absurd ⟨rtcb, ?_, hpend.1⟩ hl⟩
    rw [Sched.join, A.put_ready (i := .pendingtasks) (by simp), hhead]
  · rename_i hnot
    refine ⟨h.join hx rfl, fun hl => ?_⟩
    rw [Sched.join, A.put_pending (i := .readytorun) (by simp)]
    refine h.unlocked ?_
    rintro ⟨t, ht, hlock⟩
    refine hl ⟨rtcb, ?_, ?_⟩
    · -- under disabled preemption the running task stays the first
      obtain rfl : rtcb = t := Option.some.inj (hhead.symm.trans ht)
      rw [Sched.join, put_ready_self, ← ready, hready, insertTask_cons,
        if_neg fun hlt => hnot ⟨hlock, hlt⟩]
      rfl
    · exact Option.some.inj (hhead.symm.trans ht) ▸ hlock

end Sched

end CameraPipeline
