import CameraPipeline.Data.LinkedQueue
import Mathlib.Data.List.Sort
import Mathlib.Data.Fintype.Card

/-!
# The kernel's task lists

The doubly linked lists the scheduler keeps its tasks in: the operations on the ends, on a node
anywhere in a list, and `nxsched_add_prioritized`, which keeps a list in descending order of
priority. Every one of them is a node put between two neighbours, or taken out.

## Main definitions

* `dqAddfirst`, `dqAddlast`, `dqRem`, `dqRemfirst`: a task joins or leaves a list
* `nxschedAddPrioritized`: a task joins a list, behind the tasks of its priority
* `insertTask prio tcb xs`: where the task joins the list `xs`

## Main results

* `dqAddfirst_eq`, `dqAddlast_eq`, `dqRem_eq`, `dqRemfirst_eq`: the nodes they put in or take out
* `nxschedAddPrioritized_eq`: a task joins a list where `insertTask` says
-/

namespace CameraPipeline

open Data

/-! ## Stores to the links -/

section Stores

variable {ν : Type} [DecidableEq ν]

/-- `x->flink = y`. -/
def setFlink (h : Links ν) (x : ν) (y : Option ν) : Links ν :=
  { h with flink := Function.update h.flink x y }

/-- `x->blink = y`. -/
def setBlink (h : Links ν) (x : ν) (y : Option ν) : Links ν :=
  { h with blink := Function.update h.blink x y }

/-- `dq_addfirst`. -/
def dqAddfirst (h : Links ν) (queue : Ends ν) (node : ν) : Links ν × Ends ν :=
  let h := setFlink (setBlink h node none) node queue.head
  match queue.head with
  | none => (h, ⟨some node, some node⟩)
  | some head => (setBlink h head (some node), { queue with head := some node })

/-- `dq_addlast`; `none` is a queue with a head and no tail. -/
def dqAddlast (h : Links ν) (queue : Ends ν) (node : ν) : Option (Links ν × Ends ν) :=
  let h := setBlink (setFlink h node none) node queue.tail
  match queue.head with
  | none => some (h, ⟨some node, some node⟩)
  | some _ =>
    queue.tail.map fun tail => (setFlink h tail (some node), { queue with tail := some node })

/-- `dq_rem`. -/
def dqRem (h : Links ν) (queue : Ends ν) (node : ν) : Links ν × Ends ν :=
  let prev := h.blink node
  let next := h.flink node
  let r := match prev with
    | none => (h, { queue with head := next })
    | some p => (setFlink h p next, queue)
  let r := match next with
    | none => (r.1, { r.2 with tail := prev })
    | some n => (setBlink r.1 n prev, r.2)
  (setBlink (setFlink r.1 node none) node none, r.2)

/-- `dq_remfirst`. -/
def dqRemfirst (h : Links ν) (queue : Ends ν) : Links ν × Ends ν × Option ν :=
  match queue.head with
  | none => (h, queue, none)
  | some ret =>
    let r := match h.flink ret with
      | none => (h, (⟨none, none⟩ : Ends ν))
      | some next => (setBlink h next none, { queue with head := some next })
    (setBlink (setFlink r.1 ret none) ret none, r.2, some ret)

variable {h : Links ν} {q : Ends ν} {l r xs : List ν} {x : ν}

/-- **`dq_addfirst` puts the node in front.** -/
theorem dqAddfirst_eq (hq : IsQueue h q xs) (hx : x ∉ xs) :
    dqAddfirst h q x = (h.splice none x xs.head?, q.splice none x xs.head?) := by
  have hne : ∀ y, xs.head? = some y → y ≠ x := fun y hy he => hx (he ▸ List.mem_of_head? hy)
  rw [dqAddfirst, hq.head]
  refine Prod.ext (Links.ext (funext fun y => ?_) (funext fun y => ?_)) ?_
  · cases hxs : xs.head? <;>
      simp [setFlink, setBlink, Links.splice, Function.update_apply]
  · cases hxs : xs.head? with
    | none => simp [setFlink, setBlink, Links.splice, Function.update_apply]
    | some head =>
      simp only [setFlink, setBlink, Links.splice, Function.update_apply, Option.some_inj]
      by_cases hy : y = x
      · simp [hy, Ne.symm (hne head hxs)]
      · simp [hy]
  · cases xs with
    | nil => rfl
    | cons y xs => simp [Ends.splice]

/-- **`dq_addlast` puts the node at the end.** -/
theorem dqAddlast_eq (hq : IsQueue h q xs) (hx : x ∉ xs) :
    dqAddlast h q x = some (h.splice xs.getLast? x none, q.splice xs.getLast? x none) := by
  have hne : ∀ y, xs.getLast? = some y → y ≠ x := fun y hy he => hx (he ▸ List.mem_of_getLast? hy)
  rw [dqAddlast, hq.head, hq.tail]
  cases xs with
  | nil =>
    refine congrArg some (Prod.ext (Links.ext (funext fun y => ?_) (funext fun y => ?_)) rfl) <;>
      simp [setFlink, setBlink, Links.splice, Function.update_apply]
  | cons z xs =>
    obtain ⟨last, hlast⟩ : ∃ last, (z :: xs).getLast? = some last := ⟨_, List.getLast?_cons⟩
    rw [List.head?_cons, hlast]
    refine congrArg some (Prod.ext (Links.ext (funext fun y => ?_) (funext fun y => ?_)) ?_)
    · simp only [setFlink, setBlink, Links.splice, Function.update_apply, Option.some_inj]
      by_cases hy : y = x
      · simp [hy, Ne.symm (hne last hlast)]
      · simp [hy]
    · simp [setFlink, setBlink, Links.splice, Function.update_apply]
    · simp [Ends.splice, hq.head]

/-- **`dq_rem` takes the node out.** -/
theorem dqRem_eq (hq : IsQueue h q (l ++ x :: r)) :
    dqRem h q x = (h.cut l.getLast? x r.head?, q.cut l.getLast? r.head?) := by
  rw [dqRem, hq.blink, hq.flink]
  refine Prod.ext (Links.ext (funext fun y => ?_) (funext fun y => ?_)) ?_
  · cases hl : l.getLast? <;> cases hr : r.head? <;>
      simp [setFlink, setBlink, Links.cut, Function.update_apply, eq_comm]
  · cases hl : l.getLast? <;> cases hr : r.head? <;>
      simp [setFlink, setBlink, Links.cut, Function.update_apply, eq_comm]
  · cases hl : l.getLast? <;> cases hr : r.head? <;> rfl

/-- **`dq_remfirst` takes the first node out.** -/
theorem dqRemfirst_eq (hq : IsQueue h q (x :: r)) :
    dqRemfirst h q = (h.cut none x r.head?, q.cut none r.head?, some x) := by
  have hflink : h.flink x = r.head? := IsQueue.flink (l := []) hq
  rw [dqRemfirst, hq.head]
  simp only [List.head?_cons, hflink]
  refine Prod.ext (Links.ext (funext fun y => ?_) (funext fun y => ?_)) (Prod.ext ?_ rfl)
  · cases hr : r.head? <;>
      simp [setFlink, setBlink, Links.cut, Function.update_apply]
  · cases hr : r.head? <;>
      simp [setFlink, setBlink, Links.cut, Function.update_apply, eq_comm]
  · cases hr : r.head? <;> rfl

theorem dqRemfirst_nil (hq : IsQueue h q []) : dqRemfirst h q = (h, q, none) := by
  rw [dqRemfirst, hq.head]
  rfl

end Stores

/-! ## Prioritized lists -/

section Prioritized

variable {ν : Type} (prio : ν → UInt8)

/-- The loop of `nxsched_add_prioritized`: the first task from `next` on of a lower priority than
`p`. The result is `none` when the list does not end within the fuel. -/
def findNext (h : Links ν) (p : UInt8) : ℕ → Option ν → Option (Option ν)
  | 0, _ => none
  | _ + 1, none => some none
  | n + 1, some next => if p ≤ prio next then findNext h p n (h.flink next) else some (some next)

/-- Where a task joins a list: before the first task of a lower priority. -/
def insertTask (tcb : ν) (xs : List ν) : List ν :=
  xs.orderedInsert (fun a b => prio b < prio a) tcb

variable {prio} in
theorem perm_insertTask (tcb : ν) (xs : List ν) : (insertTask prio tcb xs).Perm (tcb :: xs) :=
  List.perm_orderedInsert _ tcb xs

variable {prio} in
theorem mem_insertTask {tcb y : ν} {xs : List ν} :
    y ∈ insertTask prio tcb xs ↔ y = tcb ∨ y ∈ xs :=
  List.mem_orderedInsert _

variable [DecidableEq ν]

/-- The stores of `nxsched_add_prioritized`, when `next` is where the loop has stopped. -/
def addBefore (h : Links ν) (list : Ends ν) (tcb : ν) : Option ν → Links ν × Ends ν × Bool
  | none =>
    match list.tail with
    | none => (setBlink (setFlink h tcb none) tcb none, ⟨some tcb, some tcb⟩, true)
    | some prev =>
      (setFlink (setBlink (setFlink h tcb none) tcb (some prev)) prev (some tcb),
        { list with tail := some tcb }, false)
  | some next =>
    match h.blink next with
    | none =>
      (setBlink (setBlink (setFlink h tcb (some next)) tcb none) next (some tcb),
        { list with head := some tcb }, true)
    | some prev =>
      (setBlink (setFlink (setBlink (setFlink h tcb (some next)) tcb (some prev)) prev (some tcb))
        next (some tcb), list, false)

/-- **`nxsched_add_prioritized`**: the links, the list, and whether the task is its new head. -/
def nxschedAddPrioritized [Fintype ν] (h : Links ν) (list : Ends ν) (tcb : ν) :
    Option (Links ν × Ends ν × Bool) :=
  (findNext prio h (prio tcb) (Fintype.card ν + 1) list.head).map (addBefore h list tcb)

variable {prio} {h : Links ν} {q : Ends ν} {l r xs : List ν} {x tcb : ν} {p : UInt8}

variable (prio p) in
omit [DecidableEq ν] in
/-- The loop stops behind the tasks of the priority `p` or more. -/
theorem findNext_eq (hq : IsQueue h q (l ++ r)) {n : ℕ} (hn : r.length < n) :
    ∃ l' r', r = l' ++ r' ∧ (∀ y ∈ l', p ≤ prio y) ∧ (∀ y, r'.head? = some y → prio y < p) ∧
      findNext prio h p n r.head? = some r'.head? := by
  induction r generalizing l n with
  | nil =>
    obtain ⟨n, rfl⟩ := Nat.exists_eq_succ_of_ne_zero (Nat.ne_of_gt hn)
    exact ⟨[], [], rfl, List.forall_mem_nil _, fun y hy => absurd hy (by simp), rfl⟩
  | cons x r ih =>
    obtain ⟨n, rfl⟩ := Nat.exists_eq_succ_of_ne_zero (Nat.ne_of_gt (Nat.zero_lt_of_lt hn))
    rw [List.head?_cons, findNext, hq.flink]
    by_cases hx : p ≤ prio x
    · rw [if_pos hx]
      have hq' : IsQueue h q ((l ++ [x]) ++ r) := by simpa using hq
      obtain ⟨l', r', rfl, hl', hr', hfind⟩ := ih hq' (Nat.lt_of_succ_lt_succ hn)
      refine ⟨x :: l', r', rfl, fun y hy => ?_, hr', hfind⟩
      rcases List.mem_cons.mp hy with rfl | hy
      · exact hx
      · exact hl' y hy
    · rw [if_neg hx]
      refine ⟨[], x :: r, rfl, List.forall_mem_nil _, fun y hy => ?_, rfl⟩
      rw [← Option.some.inj hy]
      exact UInt8.not_le.mp hx

theorem update_update_apply {β : Type} (f : ν → β) {a b : ν} (hab : b ≠ a) (v w : β) (y : ν) :
    Function.update (Function.update f a v) b w y =
      if y = a then v else if y = b then w else f y := by
  rw [Function.update_apply, Function.update_apply]
  by_cases hy : y = a
  · rw [hy, if_neg (Ne.symm hab), if_pos rfl, if_pos rfl]
  · rw [if_neg hy, if_neg hy]

/-- The stores put the task before `next`. -/
theorem addBefore_eq (hq : IsQueue h q (l ++ r)) (hx : x ∉ l ++ r) :
    addBefore h q x r.head? =
      (h.splice l.getLast? x r.head?, q.splice l.getLast? x r.head?, l.isEmpty) := by
  have hprev : ∀ {y}, l.getLast? = some y → y ≠ x := fun hy he =>
    hx (List.mem_append_left r (he ▸ List.mem_of_getLast? hy))
  have hnext : ∀ {y}, r.head? = some y → y ≠ x := fun hy he =>
    hx (List.mem_append_right l (he ▸ List.mem_of_head? hy))
  have hempty : l.isEmpty = l.getLast?.isNone := by cases l <;> rfl
  rw [hempty]
  cases hr : r.head? with
  | none =>
    obtain rfl := List.head?_eq_none_iff.mp hr
    have htail : q.tail = l.getLast? := by simpa using hq.tail
    rw [addBefore, htail]
    cases hl : l.getLast? with
    | none =>
      refine Prod.ext (Links.ext (funext fun y => ?_) (funext fun y => ?_)) rfl <;>
        simp [setFlink, setBlink, Links.splice, Function.update_apply]
    | some prev =>
      refine Prod.ext (Links.ext (funext fun y => ?_) (funext fun y => ?_)) rfl <;>
        simp [setFlink, setBlink, Links.splice, update_update_apply _ (hprev hl),
          Function.update_apply]
  | some next =>
    obtain ⟨r', rfl⟩ := List.head?_eq_some_iff.mp hr
    rw [addBefore, hq.blink]
    cases hl : l.getLast? with
    | none =>
      refine Prod.ext (Links.ext (funext fun y => ?_) (funext fun y => ?_)) rfl <;>
        simp [setFlink, setBlink, Links.splice, update_update_apply _ (hnext hr),
          Function.update_apply]
    | some prev =>
      refine Prod.ext (Links.ext (funext fun y => ?_) (funext fun y => ?_)) rfl
      · simp [setFlink, setBlink, Links.splice, update_update_apply _ (hprev hl)]
      · simp [setFlink, setBlink, Links.splice, update_update_apply _ (hnext hr)]

omit [DecidableEq ν] in
/-- A task joins behind the tasks of its priority or more. -/
theorem insertTask_append (hl : ∀ y ∈ l, prio x ≤ prio y)
    (hr : ∀ y, r.head? = some y → prio y < prio x) : insertTask prio x (l ++ r) = l ++ x :: r := by
  induction l with
  | nil =>
    cases r with
    | nil => rfl
    | cons y r => exact List.orderedInsert_cons_of_le _ r (hr y rfl)
  | cons y l ih =>
    have hy : ¬ prio y < prio x := UInt8.not_lt.mpr (hl y List.mem_cons_self)
    rw [List.cons_append, insertTask, List.orderedInsert_cons, if_neg hy]
    exact congrArg (y :: ·) (ih fun z hz => hl z (List.mem_cons_of_mem y hz))

omit [DecidableEq ν] in
theorem length_le_card [Fintype ν] (hq : IsQueue h q xs) : xs.length ≤ Fintype.card ν :=
  hq.nodup.length_le_card

variable (prio) in
/-- **A task joins a list where `insertTask` says**, between two neighbours in it. -/
theorem nxschedAddPrioritized_eq [Fintype ν] (hq : IsQueue h q xs) (hx : x ∉ xs) :
    ∃ l r, xs = l ++ r ∧ insertTask prio x xs = l ++ x :: r ∧
      nxschedAddPrioritized prio h q x =
        some (h.splice l.getLast? x r.head?, q.splice l.getLast? x r.head?, l.isEmpty) := by
  have hlen := length_le_card hq
  obtain ⟨l, r, rfl, hl, hr, hfind⟩ :=
    findNext_eq (l := []) prio (prio x) hq (Nat.lt_succ_of_le hlen)
  refine ⟨l, r, rfl, insertTask_append hl hr, ?_⟩
  rw [nxschedAddPrioritized, hq.head, hfind, Option.map_some, addBefore_eq hq hx]

end Prioritized

end CameraPipeline
