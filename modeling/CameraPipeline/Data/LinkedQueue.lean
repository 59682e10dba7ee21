import Mathlib.Data.List.Nodup
import Mathlib.Data.Nat.ModEq

/-!
# Doubly linked queues

Nodes that carry a forward and a backward link, and queues given by their first and last node. The
nodes are shared: a node's links say where it is in whichever queue it is in, so that an operation
on one queue has to leave the nodes of the others alone. A queue represents the list of its nodes;
putting a node in and taking one out are the two operations on the links that every queue operation
comes down to.

## Main definitions

* `Links ν`, `Ends ν`: the links of the nodes, and the two ends of a queue
* `Segment h prev xs next`: the nodes `xs`, linked one after another between two neighbours
* `IsQueue h q xs`: the queue `q` represents the list `xs`
* `Links.splice`, `Links.cut`: a node put between two neighbours, and taken out
* `Queues h q L`: queues over the same nodes, a node in one of them at most

## Main results

* `segment_append`: a segment splits anywhere
* `IsQueue.splice`, `IsQueue.cut`: a node put in, and taken out
* `IsQueue.frame`: a queue whose nodes keep their links represents the same list
* `Queues.splice`, `Queues.cut`: a node put into one queue of many, and taken out
* `Queues.unique`: the lists determine the links and the ends
-/

namespace Data

variable {ν : Type*}

/-- The forward and the backward link of every node. -/
@[ext] structure Links (ν : Type*) where
  flink : ν → Option ν
  blink : ν → Option ν

/-- The first and the last node of a queue. -/
@[ext] structure Ends (ν : Type*) where
  head : Option ν
  tail : Option ν

/-! ## Segments -/

/-- The nodes `xs` are linked one after another, entered from `prev` and left to `next`. -/
def Segment (h : Links ν) (prev : Option ν) : List ν → Option ν → Prop
  | [], _ => True
  | x :: xs, next => h.blink x = prev ∧ h.flink x = xs.head?.or next ∧ Segment h (some x) xs next

section Segment

variable {h h' : Links ν} {prev prev' next next' : Option ν} {xs l r : List ν} {x : ν}

theorem getLast?_cons_or (x : ν) (l : List ν) (p : Option ν) :
    (x :: l).getLast?.or p = l.getLast?.or (some x) := by
  rw [List.getLast?_cons]
  cases l.getLast? <;> rfl

/-- **A segment splits anywhere.** -/
theorem segment_append :
    Segment h prev (l ++ r) next ↔
      Segment h prev l (r.head?.or next) ∧ Segment h (l.getLast?.or prev) r next := by
  induction l generalizing prev with
  | nil => simp [Segment]
  | cons x l ih =>
    rw [List.cons_append, Segment, Segment, ih, getLast?_cons_or, List.head?_append,
      Option.or_assoc, and_assoc, and_assoc]

theorem Segment.congr (hs : Segment h prev xs next)
    (hf : ∀ y ∈ xs, h'.flink y = h.flink y) (hb : ∀ y ∈ xs, h'.blink y = h.blink y) :
    Segment h' prev xs next := by
  induction xs generalizing prev with
  | nil => trivial
  | cons x xs ih =>
    obtain ⟨h₁, h₂, h₃⟩ := hs
    refine ⟨(hb x List.mem_cons_self).trans h₁, (hf x List.mem_cons_self).trans h₂, ih h₃ ?_ ?_⟩
    · exact fun y hy => hf y (List.mem_cons_of_mem x hy)
    · exact fun y hy => hb y (List.mem_cons_of_mem x hy)

/-- The last node of a segment gets a new neighbour. -/
theorem Segment.set_next [DecidableEq ν] (hs : Segment h prev xs next) (hnodup : xs.Nodup)
    (hf : ∀ y ∈ xs, h'.flink y = if some y = xs.getLast? then next' else h.flink y)
    (hb : ∀ y ∈ xs, h'.blink y = h.blink y) : Segment h' prev xs next' := by
  induction xs generalizing prev with
  | nil => trivial
  | cons x xs ih =>
    obtain ⟨h₁, h₂, h₃⟩ := hs
    obtain ⟨hx, hnodup⟩ := List.nodup_cons.mp hnodup
    refine ⟨(hb x List.mem_cons_self).trans h₁, ?_, ih h₃ hnodup (fun y hy => ?_) fun y hy => ?_⟩
    · rw [hf x List.mem_cons_self]
      cases xs with
      | nil => simp
      | cons y ys =>
        have hne : some x ≠ (x :: y :: ys).getLast? := by
          rw [List.getLast?_cons_cons]
          exact fun he => hx (List.mem_of_getLast? he.symm)
        rw [if_neg hne, h₂]
        rfl
    · rw [hf y (List.mem_cons_of_mem x hy)]
      cases xs with
      | nil => cases hy
      | cons z zs => rw [List.getLast?_cons_cons]
    · exact hb y (List.mem_cons_of_mem x hy)

/-- The first node of a segment gets a new neighbour. -/
theorem Segment.set_prev [DecidableEq ν] (hs : Segment h prev xs next) (hnodup : xs.Nodup)
    (hf : ∀ y ∈ xs, h'.flink y = h.flink y)
    (hb : ∀ y ∈ xs, h'.blink y = if some y = xs.head? then prev' else h.blink y) :
    Segment h' prev' xs next := by
  cases xs with
  | nil => trivial
  | cons x xs =>
    obtain ⟨-, h₂, h₃⟩ := hs
    obtain ⟨hx, -⟩ := List.nodup_cons.mp hnodup
    refine ⟨?_, (hf x List.mem_cons_self).trans h₂, h₃.congr (fun y hy => ?_) fun y hy => ?_⟩
    · rw [hb x List.mem_cons_self, List.head?_cons, if_pos rfl]
    · exact hf y (List.mem_cons_of_mem x hy)
    · have hyx : some y ≠ some x := fun he => hx (Option.some.inj he ▸ hy)
      rw [hb y (List.mem_cons_of_mem x hy), List.head?_cons, if_neg hyx]

end Segment

/-! ## Queues -/

/-- **The queue `q` represents the list `xs`.** -/
structure IsQueue (h : Links ν) (q : Ends ν) (xs : List ν) : Prop where
  head : q.head = xs.head?
  tail : q.tail = xs.getLast?
  segment : Segment h none xs none
  nodup : xs.Nodup

section Queue

variable {h h' : Links ν} {q : Ends ν} {xs l r : List ν} {x : ν}

theorem isQueue_nil (h : Links ν) : IsQueue h ⟨none, none⟩ [] :=
  ⟨rfl, rfl, trivial, List.nodup_nil⟩

/-- A queue whose nodes keep their links represents the same list. -/
theorem IsQueue.frame (hq : IsQueue h q xs) (hf : ∀ y ∈ xs, h'.flink y = h.flink y)
    (hb : ∀ y ∈ xs, h'.blink y = h.blink y) : IsQueue h' q xs :=
  ⟨hq.head, hq.tail, hq.segment.congr hf hb, hq.nodup⟩

theorem IsQueue.flink (hq : IsQueue h q (l ++ x :: r)) : h.flink x = r.head? := by
  have hx := (segment_append.mp hq.segment).2
  rw [hx.2.1, Option.or_none]

theorem IsQueue.blink (hq : IsQueue h q (l ++ x :: r)) : h.blink x = l.getLast? := by
  have hx := (segment_append.mp hq.segment).2
  rw [hx.1, Option.or_none]

end Queue

/-! ## Putting a node in, and taking one out -/

section Splice

variable [DecidableEq ν] {h : Links ν} {q : Ends ν} {l r : List ν} {x y : ν} {prev next : Option ν}

/-- The node `x` put between the neighbours `prev` and `next`. -/
def Links.splice (h : Links ν) (prev : Option ν) (x : ν) (next : Option ν) : Links ν where
  flink y := if y = x then next else if some y = prev then some x else h.flink y
  blink y := if y = x then prev else if some y = next then some x else h.blink y

/-- The node `x` taken out from between the neighbours `prev` and `next`. -/
def Links.cut (h : Links ν) (prev : Option ν) (x : ν) (next : Option ν) : Links ν where
  flink y := if y = x then none else if some y = prev then next else h.flink y
  blink y := if y = x then none else if some y = next then prev else h.blink y

omit [DecidableEq ν] in
/-- The ends of a queue with the node `x` put in. -/
def Ends.splice (q : Ends ν) (prev : Option ν) (x : ν) (next : Option ν) : Ends ν where
  head := if prev.isNone then some x else q.head
  tail := if next.isNone then some x else q.tail

omit [DecidableEq ν] in
/-- The ends of a queue with a node taken out. -/
def Ends.cut (q : Ends ν) (prev next : Option ν) : Ends ν where
  head := if prev.isNone then next else q.head
  tail := if next.isNone then prev else q.tail

/-- Nodes other than the one put in and its neighbours keep their links. -/
theorem Links.splice_frame (hx : y ≠ x) (hprev : some y ≠ prev) (hnext : some y ≠ next) :
    (h.splice prev x next).flink y = h.flink y ∧ (h.splice prev x next).blink y = h.blink y := by
  simp [splice, hx, hprev, hnext]

/-- Nodes other than the one taken out and its neighbours keep their links. -/
theorem Links.cut_frame (hx : y ≠ x) (hprev : some y ≠ prev) (hnext : some y ≠ next) :
    (h.cut prev x next).flink y = h.flink y ∧ (h.cut prev x next).blink y = h.blink y := by
  simp [cut, hx, hprev, hnext]

omit [DecidableEq ν] in
theorem some_ne_head? (hnodup : (l ++ r).Nodup) (hy : y ∈ l) : some y ≠ r.head? := fun he =>
  List.disjoint_of_nodup_append hnodup hy (List.mem_of_head? he.symm)

omit [DecidableEq ν] in
theorem some_ne_getLast? (hnodup : (l ++ r).Nodup) (hy : y ∈ r) : some y ≠ l.getLast? := fun he =>
  List.disjoint_of_nodup_append hnodup (List.mem_of_getLast? he.symm) hy

/-- **A node put in.** -/
theorem IsQueue.splice (hq : IsQueue h q (l ++ r)) (hx : x ∉ l ++ r) :
    IsQueue (h.splice l.getLast? x r.head?) (q.splice l.getLast? x r.head?) (l ++ x :: r) := by
  obtain ⟨hl, hr⟩ := segment_append.mp hq.segment
  have hxl : ∀ y ∈ l, y ≠ x := fun y hy he => hx (List.mem_append_left r (he ▸ hy))
  have hxr : ∀ y ∈ r, y ≠ x := fun y hy he => hx (List.mem_append_right l (he ▸ hy))
  refine ⟨?_, ?_, segment_append.mpr ⟨?_, ?_, ?_, ?_⟩, ?_⟩
  · rw [Ends.splice, hq.head]
    cases l <;> simp
  · rw [Ends.splice, hq.tail, List.getLast?_append, List.getLast?_append, List.getLast?_cons]
    cases r with
    | nil => simp
    | cons y r => simp [List.getLast?_cons]
  · refine hl.set_next hq.nodup.of_append_left (fun y hy => ?_) fun y hy => ?_
    · simp [Links.splice, hxl y hy]
    · simp [Links.splice, hxl y hy, some_ne_head? hq.nodup hy]
  · simp [Links.splice]
  · simp [Links.splice]
  · refine hr.set_prev hq.nodup.of_append_right (fun y hy => ?_) fun y hy => ?_
    · simp [Links.splice, hxr y hy, some_ne_getLast? hq.nodup hy]
    · simp [Links.splice, hxr y hy]
  · exact List.nodup_middle.mpr (List.nodup_cons.mpr ⟨hx, hq.nodup⟩)

/-- **A node taken out.** -/
theorem IsQueue.cut (hq : IsQueue h q (l ++ x :: r)) :
    IsQueue (h.cut l.getLast? x r.head?) (q.cut l.getLast? r.head?) (l ++ r) := by
  obtain ⟨hl, -, -, hr⟩ := segment_append.mp hq.segment
  obtain ⟨hx, hnodup⟩ := List.nodup_cons.mp (List.nodup_middle.mp hq.nodup)
  have hxl : ∀ y ∈ l, y ≠ x := fun y hy he => hx (List.mem_append_left r (he ▸ hy))
  have hxr : ∀ y ∈ r, y ≠ x := fun y hy he => hx (List.mem_append_right l (he ▸ hy))
  refine ⟨?_, ?_, segment_append.mpr ⟨?_, ?_⟩, hnodup⟩
  · rw [Ends.cut, hq.head]
    cases l <;> simp
  · rw [Ends.cut, hq.tail, List.getLast?_append, List.getLast?_append, List.getLast?_cons]
    cases r with
    | nil => simp
    | cons y r => simp [List.getLast?_cons]
  · refine hl.set_next hnodup.of_append_left (fun y hy => ?_) fun y hy => ?_
    · simp [Links.cut, hxl y hy]
    · simp [Links.cut, hxl y hy, some_ne_head? hnodup hy]
  · refine hr.set_prev hnodup.of_append_right (fun y hy => ?_) fun y hy => ?_
    · simp [Links.cut, hxr y hy, some_ne_getLast? hnodup hy]
    · simp [Links.cut, hxr y hy]

end Splice

/-! ## Queues over the same nodes -/

section Family

variable {ι : Type*} {h h' : Links ν} {q q' : ι → Ends ν} {L : ι → List ν} {l r : List ν} {x : ν}
  {i j : ι}

/-- Queues over the same nodes: a node is in one of them at most, and has links only in it. -/
structure Queues (h : Links ν) (q : ι → Ends ν) (L : ι → List ν) : Prop where
  queue : ∀ i, IsQueue h (q i) (L i)
  disjoint : ∀ {i j x}, x ∈ L i → x ∈ L j → i = j
  cleared : ∀ x, (∀ i, x ∉ L i) → h.flink x = none ∧ h.blink x = none

theorem Segment.eq_links (hs : ∃ prev next, Segment h prev l next ∧ Segment h' prev l next)
    (hx : x ∈ l) : h.flink x = h'.flink x ∧ h.blink x = h'.blink x := by
  obtain ⟨prev, next, hs, hs'⟩ := hs
  induction l generalizing prev with
  | nil => cases hx
  | cons y l ih =>
    obtain ⟨h₁, h₂, h₃⟩ := hs
    obtain ⟨h₁', h₂', h₃'⟩ := hs'
    rcases List.mem_cons.mp hx with rfl | hx
    · exact ⟨h₂.trans h₂'.symm, h₁.trans h₁'.symm⟩
    · exact ih hx _ h₃ h₃'

/-- **The lists determine the links and the ends.** -/
theorem Queues.unique (hq : Queues h q L) (hq' : Queues h' q' L) : h = h' ∧ q = q' := by
  have hlinks : ∀ y, h.flink y = h'.flink y ∧ h.blink y = h'.blink y := by
    intro y
    by_cases hy : ∃ i, y ∈ L i
    · obtain ⟨i, hi⟩ := hy
      exact Segment.eq_links ⟨none, none, (hq.queue i).segment, (hq'.queue i).segment⟩ hi
    · rw [not_exists] at hy
      obtain ⟨h₁, h₂⟩ := hq.cleared y hy
      obtain ⟨h₁', h₂'⟩ := hq'.cleared y hy
      exact ⟨h₁.trans h₁'.symm, h₂.trans h₂'.symm⟩
  refine ⟨Links.ext (funext fun y => (hlinks y).1) (funext fun y => (hlinks y).2), ?_⟩
  exact funext fun i => Ends.ext ((hq.queue i).head.trans (hq'.queue i).head.symm)
    ((hq.queue i).tail.trans (hq'.queue i).tail.symm)

variable [DecidableEq ι]

/-- One queue of the family changes, and the nodes of the others keep their links. -/
theorem Queues.update {e : Ends ν} {xs : List ν} (hq : Queues h q L) (hi : IsQueue h' e xs)
    (hframe : ∀ y, y ∉ L i → y ∉ xs → h'.flink y = h.flink y ∧ h'.blink y = h.blink y)
    (hnew : ∀ y ∈ xs, ∀ j, j ≠ i → y ∉ L j)
    (hgone : ∀ y ∈ L i, y ∉ xs → h'.flink y = none ∧ h'.blink y = none) :
    Queues h' (Function.update q i e) (Function.update L i xs) := by
  have hmem : ∀ {j y}, y ∈ Function.update L i xs j → j = i ∧ y ∈ xs ∨ j ≠ i ∧ y ∈ L j := by
    intro j y hy
    by_cases hj : j = i
    · subst hj
      rw [Function.update_self] at hy
      exact .inl ⟨rfl, hy⟩
    · rw [Function.update_of_ne hj] at hy
      exact .inr ⟨hj, hy⟩
  refine ⟨fun j => ?_, fun {j k y} hj hk => ?_, fun y hy => ?_⟩
  · by_cases hj : j = i
    · subst hj
      rw [Function.update_self, Function.update_self]
      exact hi
    · rw [Function.update_of_ne hj, Function.update_of_ne hj]
      have hkeep : ∀ y ∈ L j, h'.flink y = h.flink y ∧ h'.blink y = h.blink y := fun y hy =>
        hframe y (fun hyi => hj (hq.disjoint hy hyi)) fun hyx => hnew y hyx j hj hy
      exact (hq.queue j).frame (fun y hy => (hkeep y hy).1) fun y hy => (hkeep y hy).2
  · rcases hmem hj with ⟨rfl, hyj⟩ | ⟨hji, hyj⟩ <;> rcases hmem hk with ⟨rfl, hyk⟩ | ⟨hki, hyk⟩
    · rfl
    · exact absurd hyk (hnew y hyj k hki)
    · exact absurd hyj (hnew y hyk j hji)
    · exact hq.disjoint hyj hyk
  · have hyx : y ∉ xs := by simpa using hy i
    have hother : ∀ j, j ≠ i → y ∉ L j := fun j hj => by simpa [hj] using hy j
    by_cases hyi : y ∈ L i
    · exact hgone y hyi hyx
    · have hout : ∀ j, y ∉ L j := fun j => if hj : j = i then hj ▸ hyi else hother j hj
      obtain ⟨h₁, h₂⟩ := hframe y hyi hyx
      rw [h₁, h₂]
      exact hq.cleared y hout

variable [DecidableEq ν]

/-- **A node put into one queue of many.** -/
theorem Queues.splice (hq : Queues h q L) (hi : L i = l ++ r) (hx : ∀ j, x ∉ L j) :
    Queues (h.splice l.getLast? x r.head?)
      (Function.update q i ((q i).splice l.getLast? x r.head?))
      (Function.update L i (l ++ x :: r)) := by
  have hqi : IsQueue h (q i) (l ++ r) := hi ▸ hq.queue i
  refine hq.update (hqi.splice (hi ▸ hx i)) (fun y _ hyx => ?_) (fun y hy j hj => ?_) ?_
  · simp only [List.mem_append, List.mem_cons, not_or] at hyx
    refine Links.splice_frame hyx.2.1 (fun he => ?_) fun he => ?_
    · exact hyx.1 (List.mem_of_getLast? he.symm)
    · exact hyx.2.2 (List.mem_of_head? he.symm)
  · rcases List.mem_cons.mp (List.perm_middle.mem_iff.mp hy) with rfl | hy
    · exact hx j
    · exact fun hyj => hj (hq.disjoint hyj (hi ▸ hy))
  · intro y hy hyx
    rw [hi] at hy
    exact absurd (List.perm_middle.mem_iff.mpr (List.mem_cons_of_mem x hy)) hyx

/-- **A node taken out of one queue of many.** -/
theorem Queues.cut (hq : Queues h q L) (hi : L i = l ++ x :: r) :
    Queues (h.cut l.getLast? x r.head?) (Function.update q i ((q i).cut l.getLast? r.head?))
      (Function.update L i (l ++ r)) := by
  have hqi : IsQueue h (q i) (l ++ x :: r) := hi ▸ hq.queue i
  have hsub : ∀ y, y ∈ L i ↔ y = x ∨ y ∈ l ++ r := fun y => by
    rw [hi, List.perm_middle.mem_iff, List.mem_cons]
  refine hq.update hqi.cut (fun y hyi _ => ?_) (fun y hy j hj => ?_) fun y hy hyx => ?_
  · rw [hsub, not_or, List.mem_append, not_or] at hyi
    refine Links.cut_frame hyi.1 (fun he => ?_) fun he => ?_
    · exact hyi.2.1 (List.mem_of_getLast? he.symm)
    · exact hyi.2.2 (List.mem_of_head? he.symm)
  · exact fun hyj => hj (hq.disjoint hyj ((hsub y).mpr (.inr hy)))
  · obtain rfl : y = x := ((hsub y).mp hy).resolve_right hyx
    simp [Links.cut]

end Family

end Data
