import Mathlib.Data.List.Nodup
import Mathlib.Data.Nat.ModEq

/-!
# Locks that are handed over

The abstract state of a lock whose release hands it to the first waiter: an owner and a queue, the
owner not queued and nobody queued on a free lock. Every task has one role, and the lock changes
only by the three operations, each of which moves one task to a new role, or two at a release.

## Main definitions

* `Handoff τ`: a lock of tasks in `τ`
* `Role`, `Handoff.role`: what a task is to the lock
* `Handoff.takenBy`, `Handoff.enqueue`, `Handoff.release`: the lock after each operation

## Main results

* `Handoff.holding_unique`: two holders are the same
* `Handoff.exists_holding_of_waiting`: while a task waits, another one holds the lock
* `Handoff.role_release_self`, `Handoff.role_release_head`, `Handoff.role_release_of_ne`: the roles
  after a release
-/

namespace Systems

/-- What a task is to a lock. -/
inductive Role
  | out
  | waiting
  | holding
  deriving DecidableEq

/-- **A lock that is handed over**: its owner and the tasks queued for it. -/
structure Handoff (τ : Type) where
  owner : Option τ
  queue : List τ
  queue_nil : owner = none → queue = []
  nodup : queue.Nodup
  owner_notMem : ∀ t, owner = some t → t ∉ queue

namespace Handoff

variable {τ : Type} [DecidableEq τ] {m : Handoff τ} {t u : τ}

/-- The role of a task. -/
def role (m : Handoff τ) (t : τ) : Role :=
  if m.owner = some t then .holding else if t ∈ m.queue then .waiting else .out

theorem role_eq_holding : m.role t = .holding ↔ m.owner = some t := by
  unfold role
  split_ifs <;> simp_all

theorem role_eq_waiting : m.role t = .waiting ↔ t ∈ m.queue := by
  unfold role
  split_ifs with ho
  · simpa using m.owner_notMem t ho
  · simpa
  · simpa

theorem role_eq_out : m.role t = .out ↔ m.owner ≠ some t ∧ t ∉ m.queue := by
  unfold role
  split_ifs <;> simp_all

/-- **Mutual exclusion**. -/
theorem holding_unique (ht : m.role t = .holding) (hu : m.role u = .holding) : t = u :=
  Option.some.inj ((role_eq_holding.mp ht).symm.trans (role_eq_holding.mp hu))

/-- **While a task waits, another one holds the lock.** -/
theorem exists_holding_of_waiting (h : m.role t = .waiting) : ∃ u, u ≠ t ∧ m.role u = .holding := by
  cases ho : m.owner with
  | none =>
    have hmem := role_eq_waiting.mp h
    rw [m.queue_nil ho] at hmem
    cases hmem
  | some u =>
    have hu : m.role u = .holding := role_eq_holding.mpr ho
    refine ⟨u, fun he => ?_, hu⟩
    rw [he, h] at hu
    cases hu

/-- The free lock. -/
def free : Handoff τ where
  owner := none
  queue := []
  queue_nil _ := rfl
  nodup := List.nodup_nil
  owner_notMem _ _ := List.not_mem_nil

omit [DecidableEq τ] in
/-- A lock with no owner is the free lock. -/
theorem eq_free (h : m.owner = none) : m = free := by
  obtain ⟨owner, queue, hnil, hnodup, hmem⟩ := m
  cases h
  cases hnil rfl
  rfl

theorem role_free (t : τ) : (free : Handoff τ).role t = .out := rfl

/-- The lock that a task took when it was free. -/
def takenBy (t : τ) : Handoff τ where
  owner := some t
  queue := []
  queue_nil h := nomatch h
  nodup := List.nodup_nil
  owner_notMem _ _ := List.not_mem_nil

theorem role_takenBy_self (t : τ) : (takenBy t).role t = .holding :=
  role_eq_holding.mpr rfl

theorem role_takenBy_of_ne (h : u ≠ t) : (takenBy t).role u = .out :=
  role_eq_out.mpr ⟨fun he => h (Option.some.inj he).symm, List.not_mem_nil⟩

/-- A task joins the queue of an owned lock, wherever it goes in. -/
def enqueue (m : Handoff τ) (t : τ) (queue : List τ) (hq : queue.Perm (t :: m.queue))
    (howned : m.owner ≠ none) (hout : m.role t = .out) : Handoff τ where
  owner := m.owner
  queue := queue
  queue_nil h := absurd h howned
  nodup := hq.nodup_iff.mpr (List.nodup_cons.mpr ⟨(role_eq_out.mp hout).2, m.nodup⟩)
  owner_notMem u hu hmem := by
    rcases List.mem_cons.mp (hq.mem_iff.mp hmem) with rfl | h
    · exact (role_eq_out.mp hout).1 hu
    · exact m.owner_notMem u hu h

section Enqueue

variable {queue : List τ} (hq : queue.Perm (t :: m.queue)) (howned : m.owner ≠ none)
  (hout : m.role t = .out)

@[simp] theorem owner_enqueue : (m.enqueue t queue hq howned hout).owner = m.owner := rfl

@[simp] theorem queue_enqueue : (m.enqueue t queue hq howned hout).queue = queue := rfl

theorem role_enqueue_self : (m.enqueue t queue hq howned hout).role t = .waiting :=
  role_eq_waiting.mpr (hq.mem_iff.mpr List.mem_cons_self)

theorem role_enqueue_of_ne (h : u ≠ t) :
    (m.enqueue t queue hq howned hout).role u = m.role u := by
  simp [role, enqueue, hq.mem_iff, h]

end Enqueue

/-- The owner leaves, and the first of the queue is the new owner. -/
def release (m : Handoff τ) : Handoff τ where
  owner := m.queue.head?
  queue := m.queue.tail
  queue_nil h := by rw [List.head?_eq_none_iff.mp h]; rfl
  nodup := m.nodup.tail
  owner_notMem t ht := by
    obtain ⟨rest, hq⟩ := List.head?_eq_some_iff.mp ht
    have hnodup := m.nodup
    rw [hq] at hnodup ⊢
    exact (List.nodup_cons.mp hnodup).1

omit [DecidableEq τ] in
@[simp] theorem owner_release : m.release.owner = m.queue.head? := rfl

omit [DecidableEq τ] in
@[simp] theorem queue_release : m.release.queue = m.queue.tail := rfl

theorem role_release_self (h : m.role t = .holding) : m.release.role t = .out := by
  have hmem := m.owner_notMem t (role_eq_holding.mp h)
  refine role_eq_out.mpr ⟨fun he => hmem (List.mem_of_head? he), fun hq => hmem ?_⟩
  exact List.mem_of_mem_tail hq

theorem role_release_head (h : m.queue.head? = some u) : m.release.role u = .holding :=
  role_eq_holding.mpr h

theorem role_release_of_ne (h : m.role t = .holding) (hu : u ≠ t)
    (hhead : m.queue.head? ≠ some u) : m.release.role u = m.role u := by
  have hown : m.owner ≠ some u := fun he =>
    hu (Option.some.inj (he.symm.trans (role_eq_holding.mp h)))
  have htail : u ∈ m.queue.tail ↔ u ∈ m.queue := by
    cases hq : m.queue with
    | nil => simp
    | cons v q =>
      rw [hq] at hhead
      have hne : u ≠ v := fun he => hhead (by rw [he]; rfl)
      simp [hne]
  simp [role, release, hhead, hown, htail]

end Handoff

end Systems
