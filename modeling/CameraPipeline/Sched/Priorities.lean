import CameraPipeline.Sched.Steps

/-!
# Changed priorities

`nxsched_set_priority` for a task in any list. The running task may have to give way to the next
one; under disabled preemption it cannot, and the tasks that would run instead of it become pending.
The first of them does so also when its priority is only the same: the loop tests at its end.

## Main results

* `Rep.reprioritizeRtr`: a task leaves the ready-to-run list and comes back with another priority
* `moveHigher_spec`: the loop under disabled preemption
* `Rep.setPriority`: another priority, for a task in any list
-/

namespace CameraPipeline

open Data

section Lists

variable {ν κ : Type} [DecidableEq ν] {A : Sched ν κ} {idle x : ν} {p : UInt8}

/-- A task has another priority. -/
def Sched.setPrio (A : Sched ν κ) (x : ν) (p : UInt8) : Sched ν κ :=
  { A with prio := Function.update A.prio x p }

theorem Sched.keeps_setPrio : A.Keeps (A.setPrio x p) :=
  ⟨fun _ => rfl, rfl⟩

/-- Another priority keeps the order where the list of the task stays in order. -/
theorem Sched.Ordered.setPrio (h : A.Ordered idle) (hx : x ≠ idle) (hp : 0 < p)
    (hsorted : ∀ {i}, i.isPrioritized → x ∈ A.lists i →
      Descending (Function.update A.prio x p) (A.lists i)) : (A.setPrio x p).Ordered idle := by
  refine ⟨h.idle_last, ?_, fun {i t} ht hidle => ?_, fun {i} hi => ?_⟩
  · exact (Function.update_of_ne (Ne.symm hx) p A.prio).trans h.idle_prio
  · by_cases htx : t = x
    · simpa [Sched.setPrio, htx] using hp
    · simpa [Sched.setPrio, htx] using h.prio_pos ht hidle
  · by_cases hxi : x ∈ A.lists i
    · exact hsorted hi hxi
    · refine (h.sorted hi).congr fun t ht => ?_
      have htx : t ≠ x := fun he => hxi (he ▸ ht)
      exact Function.update_of_ne htx p A.prio

/-- The running task gets a priority that is at least the next one's. -/
theorem descending_cons_update {prio : ν → UInt8} {rest : List ν} (h : Descending prio (x :: rest))
    (hx : x ∉ rest) (hp : ∀ y ∈ rest, prio y ≤ p) :
    Descending (Function.update prio x p) (x :: rest) := by
  have hne : ∀ y ∈ rest, y ≠ x := fun y hy he => hx (he ▸ hy)
  obtain ⟨-, h⟩ := List.pairwise_cons.mp h
  refine List.pairwise_cons.mpr ⟨fun y hy => ?_, ?_⟩
  · rw [Function.update_self, Function.update_of_ne (hne y hy)]
    exact hp y hy
  · exact Descending.congr h fun y hy => Function.update_of_ne (hne y hy) _ _

end Lists

section Functions

variable {ν κ : Type} [DecidableEq ν] [DecidableEq κ] {s s' : Kernel ν κ} {A : Sched ν κ}
  {out : Option ν} {idle x y : ν} {l r rest : List ν} {i : TaskList κ} {p : UInt8}

omit [DecidableEq κ] in
theorem Rep.withPriority (h : Rep s A out) : Rep (s.setPriority x p) (A.setPrio x p) out :=
  ⟨h.queues, h.place, h.running, h.waiting, h.absent,
    by simp only [Kernel.setPriority, Sched.setPrio, h.prio], h.lockcount, h.semval⟩

omit [DecidableEq κ] in
/-- The running task may keep its place if no other one is above the new priority. -/
theorem Rep.ordered_setPrio (h : Rep s A none) (ho : A.Ordered idle) (hready : A.ready = x :: rest)
    (hle : ∀ y ∈ rest, A.prio y ≤ p) (hidle : x ≠ idle) (hp : 0 < p) :
    (A.setPrio x p).Ordered idle := by
  have hx : x ∈ A.ready := by rw [hready]; exact List.mem_cons_self
  have hnodup := (h.queues.queue .readytorun).nodup
  have hsorted : Descending A.prio A.ready := ho.sorted rfl
  rw [← Sched.ready, hready] at hnodup
  rw [hready] at hsorted
  refine ho.setPrio hidle hp fun {i} _ hxi => ?_
  obtain rfl := h.queues.disjoint hxi hx
  rw [← Sched.ready, hready]
  exact descending_cons_update hsorted (List.nodup_cons.mp hnodup).1 hle

variable [Fintype ν]

/-- **A task leaves the ready-to-run list and comes back with another priority**, and with a merge
if another task runs now. -/
theorem Rep.reprioritizeRtr (h : Rep s A none) (hinv : A.Inv idle) (hready : A.ready = l ++ x :: r)
    (hidle : x ≠ idle) (hp : 0 < p) (hhead : l = [] → A.pending = []) :
    ∃ s' A', (nxschedReprioritizeRtr s x p).map Prod.fst = some s' ∧ Rep s' A' none ∧
      A'.Inv idle ∧ A.Keeps A' ∧ (A' = ((A.put .readytorun (l ++ r)).setPrio x p).add x ∨
        A' = (((A.put .readytorun (l ++ r)).setPrio x p).add x).merge) := by
  have ho₁ : (A.put .readytorun (l ++ r)).Ordered idle := hinv.toOrdered.leave hready hidle
  have hne : l ++ r ≠ [] := by
    have := ho₁.ready_ne_nil
    rwa [A.put_ready_self] at this
  obtain ⟨s₁, hrem, h₁, -⟩ := h.removeReadytorun hready hne
  have h₂ := h₁.withPriority (x := x) (p := p)
  have hinv₂ : ((A.put .readytorun (l ++ r)).setPrio x p).Inv idle := by
    refine ⟨ho₁.setPrio hidle hp fun _ hmem => absurd hmem (h₁.absent x rfl _), fun hl => ?_⟩
    show (A.put .readytorun (l ++ r)).pending = []
    rw [A.put_pending (i := .readytorun) (by simp)]
    cases l with
    | nil => exact hhead rfl
    | cons y l =>
      refine hinv.unlocked ?_
      rintro ⟨t, ht, hlock⟩
      refine hl ⟨t, ?_, hlock⟩
      show (A.put .readytorun (y :: l ++ r)).ready.head? = some t
      rw [hready] at ht
      rw [A.put_ready_self]
      exact ht
  have hprio₂ : ((A.put .readytorun (l ++ r)).setPrio x p).prio x = p := Function.update_self ..
  obtain ⟨s₃, hadd, h₃, -⟩ := h₂.addReadytorun hinv₂.ready_ne_nil
  have hinv₃ := hinv₂.add (x := x) (by rwa [hprio₂])
  have hkeeps : A.Keeps (((A.put .readytorun (l ++ r)).setPrio x p).add x) :=
    ((Sched.keeps_put (i := .readytorun) fun k => by simp).trans Sched.keeps_setPrio).trans
      Sched.keeps_add
  rw [nxschedReprioritizeRtr, hrem, Option.bind_some, hadd, Option.bind_some]
  dsimp only
  split
  · obtain ⟨s₄, b, hmerge, h₄, hinv₄, -⟩ := h₃.mergeIfPending hinv₃.toOrdered
    exact ⟨s₄, _, by rw [hmerge]; rfl, h₄, hinv₄, hkeeps.trans Sched.keeps_merge, .inr rfl⟩
  · exact ⟨s₃, _, rfl, h₃, hinv₃, hkeeps, .inl rfl⟩

/-- **The loop under disabled preemption.** The running task `x` stays the first, with tasks of the
priority `p` at most behind it. -/
theorem moveHigher_spec {n : ℕ} (h : Rep s A none) (ho : A.Ordered idle)
    (hready : A.ready = x :: y :: rest) (hp : 0 < p) (hpy : p ≤ A.prio y) (hn : rest.length < n) :
    ∃ s' A' rest', moveHigher s x p n y = some s' ∧ Rep s' A' none ∧ A'.Ordered idle ∧
      A'.ready = x :: rest' ∧ (∀ z ∈ rest', A.prio z ≤ p) ∧ A'.prio = A.prio ∧
      A'.lockcount = A.lockcount ∧ A.Keeps A' := by
  induction rest generalizing s A y n with
  | nil =>
    have hlast := ho.idle_last
    rw [hready] at hlast
    obtain rfl : y = idle := by simpa using hlast
    rw [ho.idle_prio] at hpy
    exact absurd hp (UInt8.not_lt.mpr hpy)
  | cons z rest ih =>
    obtain ⟨n, rfl⟩ := Nat.exists_eq_succ_of_ne_zero (Nat.ne_of_gt (Nat.zero_lt_of_lt hn))
    have hy : 0 < A.prio y := UInt8.lt_of_lt_of_le hp hpy
    obtain ⟨s₁, hrem, h₁, -⟩ := h.removeReadytorun (l := [x]) hready (by simp)
    obtain ⟨s₂, b, hadd, h₂, -⟩ := h₁.enter_other (i := .pendingtasks) .pending (by simp) rfl
      (by simp) (by simp)
    generalize hA₂ : (A.put .readytorun ([x] ++ z :: rest)).join .pendingtasks y = A₂ at h₂
    have ho₂ : A₂.Ordered idle := by
      rw [← hA₂]
      exact (ho.leave (l := [x]) hready (ho.ne_idle hy)).join hy rfl
    have hready₂ : A₂.ready = x :: z :: rest := by
      rw [← hA₂, Sched.join, Sched.put_ready _ (i := .pendingtasks) (by simp), A.put_ready_self]
      rfl
    have hprio₂ : A₂.prio = A.prio := by rw [← hA₂]; rfl
    have hlock₂ : A₂.lockcount = A.lockcount := by rw [← hA₂]; rfl
    have hkeeps₂ : A.Keeps A₂ := by
      rw [← hA₂]
      exact (Sched.keeps_put (i := .readytorun) fun k => by simp).trans
        (Sched.keeps_put (i := .pendingtasks) fun k => by simp)
    have hflink : (s₂.setState y .pending).links.flink x = some z := by
      have hq := h₂.queues.queue .readytorun
      rw [← Sched.ready, hready₂] at hq
      exact IsQueue.flink (l := []) hq
    rw [moveHigher, hrem, Option.bind_some, hadd, Option.bind_some]
    simp only [hflink, Option.bind_some, h₂.prio]
    split
    · rename_i hpz
      obtain ⟨s', A', rest', hloop, h', ho', hready', htail, hprio', hlock', hkeeps'⟩ :=
        ih h₂ ho₂ hready₂ (UInt8.le_of_lt hpz) (Nat.lt_of_succ_lt_succ hn)
      rw [hprio₂] at htail hprio'
      exact ⟨s', A', rest', hloop, h', ho', hready', htail, hprio', hlock'.trans hlock₂,
        hkeeps₂.trans hkeeps'⟩
    · rename_i hpz
      refine ⟨_, A₂, z :: rest, rfl, h₂, ho₂, hready₂, fun w hw => ?_, hprio₂, hlock₂, hkeeps₂⟩
      have hz : A.prio z ≤ p := by
        rw [← hprio₂]
        exact UInt8.not_lt.mp hpz
      have hsorted : Descending A₂.prio A₂.ready := ho₂.sorted rfl
      rw [hready₂, hprio₂] at hsorted
      have hzs := (List.pairwise_cons.mp (List.pairwise_cons.mp hsorted).2).1
      rcases List.mem_cons.mp hw with rfl | hw
      · exact hz
      · exact UInt8.le_trans (hzs w hw) hz

/-- **The running task gets another priority.** -/
theorem Rep.runningSetpriority (h : Rep s A none) (hinv : A.Inv idle)
    (hhead : A.ready.head? = some x) (hidle : x ≠ idle) (hp : 0 < p) :
    ∃ s' A', nxschedRunningSetpriority s x p = some s' ∧ Rep s' A' none ∧ A'.Inv idle ∧
      A.Keeps A' := by
  obtain ⟨rest, hready⟩ := List.head?_eq_some_iff.mp hhead
  have hq := h.queues.queue .readytorun
  rw [← Sched.ready, hready] at hq
  have hflink : s.links.flink x = rest.head? := IsQueue.flink (l := []) hq
  simp only [nxschedRunningSetpriority, hflink, h.thisTask, hhead, h.prio, h.lockcount,
    Option.bind_some]
  cases rest with
  | nil =>
    have hlast := hinv.idle_last
    rw [hready] at hlast
    exact absurd (by simpa using hlast) hidle
  | cons y rest =>
    have hsorted : Descending A.prio (x :: y :: rest) := hready ▸ hinv.sorted rfl
    dsimp only [List.head?_cons]
    split
    · rename_i hpy
      split
      · -- preemption is disabled: the tasks that would run become pending
        rename_i hlock
        have hn : rest.length < Fintype.card ν + 1 := by
          have := length_le_card hq
          rw [List.length_cons, List.length_cons] at this
          omega
        obtain ⟨s', A', rest', hloop, h', ho', hready', htail, hprio', hlock', hkeeps⟩ :=
          moveHigher_spec h hinv.toOrdered hready hp hpy hn
        rw [← hprio'] at htail
        refine ⟨_, A'.setPrio x p, by rw [hloop]; rfl, h'.withPriority, ⟨?_, fun hl => ?_⟩,
          hkeeps.trans Sched.keeps_setPrio⟩
        · exact h'.ordered_setPrio ho' hready' htail hidle hp
        · rw [← hlock'] at hlock
          exact absurd ⟨x, congrArg List.head? hready', hlock⟩ hl
      · rename_i hlock
        obtain ⟨s', A', heq, h', hinv', hk, -⟩ := h.reprioritizeRtr (l := []) hinv hready hidle hp
          fun _ => hinv.unlocked (Sched.not_locked hhead hlock)
        exact ⟨s', A', heq, h', hinv', hk⟩
    · rename_i hpy
      have hy : A.prio y ≤ p := UInt8.le_of_lt (UInt8.not_le.mp hpy)
      have hys := (List.pairwise_cons.mp (List.pairwise_cons.mp hsorted).2).1
      have htail : ∀ z ∈ y :: rest, A.prio z ≤ p := fun z hz => by
        rcases List.mem_cons.mp hz with rfl | hz
        · exact hy
        · exact UInt8.le_trans (hys z hz) hy
      have ho := h.ordered_setPrio hinv.toOrdered hready htail hidle hp
      exact ⟨_, _, rfl, h.withPriority, hinv.congr ho rfl rfl id, Sched.keeps_setPrio⟩

omit [DecidableEq ν] [DecidableEq κ] [Fintype ν] in
theorem isPrioritized_of_tlistHead {st : TaskState} {w : Option κ} (h : tlistHead st w = some i) :
    st.isPrioritized = i.isPrioritized := by
  cases st <;> cases w <;> simp_all [tlistHead, TaskState.isPrioritized] <;> subst h <;> rfl

/-- **A task that is not ready to run gets another priority.** -/
theorem Rep.blockedSetpriority (h : Rep s A none) (hinv : A.Inv idle) (hx : x ∈ A.lists i)
    (hi : i ≠ .readytorun) (hp : 0 < p) :
    ∃ s' A', nxschedBlockedSetpriority s x p = some s' ∧ Rep s' A' none ∧ A'.Inv idle ∧
      (A.Counted → A'.Counted) := by
  have hidle := h.ne_idle hinv.toOrdered hx hi
  have htlist := h.tlistHead_eq hx
  rw [nxschedBlockedSetpriority, isPrioritized_of_tlistHead htlist, htlist]
  split
  · rename_i hprio
    obtain ⟨l, r, hlist⟩ := List.append_of_mem hx
    have h₁ := (h.leave_other hlist hi).withPriority (x := x) (p := p)
    have ho₁ := (hinv.toOrdered.leave hlist hidle).setPrio hidle hp fun _ hmem =>
      absurd hmem ((h.leave_other hlist hi).absent x rfl _)
    have hpos : 0 < ((A.put i (l ++ r)).setPrio x p).prio x := by simpa [Sched.setPrio] using hp
    have hrun : s.taskState x ≠ .running := fun he => by
      rw [he] at htlist
      exact hi (Option.some.inj htlist).symm
    obtain ⟨s₂, b, hadd, h₂, hstate, -⟩ :=
      h₁.enter_other (s.taskState x) hi htlist hrun (h.isSome_waitobj x)
    have hsame : s₂.setState x (s.taskState x) = s₂ := by
      have hx₂ : s₂.taskState x = s.taskState x := congrFun hstate x
      rw [Kernel.setState, ← hx₂, Function.update_eq_self]
    rw [hsame] at h₂
    refine ⟨s₂, _, by rw [Option.bind_some, hadd]; rfl, h₂, hinv.congr (ho₁.join hpos hprio) ?_ rfl
      fun hnil => ?_, fun hc k => ?_⟩
    · rw [Sched.join, Sched.put_ready _ hi]
      exact congrArg List.head? (A.put_ready hi _)
    · have hip : i ≠ .pendingtasks := by
        rintro rfl
        rw [← Sched.pending, hnil] at hx
        cases hx
      rw [Sched.join, Sched.put_pending _ hip]
      exact (A.put_pending hip _).trans hnil
    · refine Eq.trans ?_ (hc k)
      by_cases hk : .waitlist k = i
      · subst hk
        simp [Sched.sem, Sched.join, Sched.setPrio, hlist, insertTask, List.orderedInsert_length]
        omega
      · rw [Sched.sem, Sched.join, Sched.put_lists_of_ne _ hk]
        exact congrArg (fun xs => ((List.length xs : ℕ) : ℤ)) (A.put_lists_of_ne hk _)
  · rename_i hprio
    have ho : (A.setPrio x p).Ordered idle := hinv.setPrio hidle hp fun hj hxj =>
      absurd (h.queues.disjoint hxj hx ▸ hj) hprio
    exact ⟨_, _, rfl, h.withPriority, hinv.congr ho rfl rfl id, fun hc => hc⟩

theorem pos_of_range {p : ℤ} (hp : ¬ (p < 1 ∨ 255 < p)) : 0 < UInt8.ofNat p.toNat := by
  rw [UInt8.lt_iff_toNat_lt, UInt8.toNat_ofNat']
  have hmod : p.toNat % 2 ^ 8 = p.toNat := Nat.mod_eq_of_lt (by omega)
  rw [hmod]
  simp
  omega

/-- **A task in any list gets another priority.** -/
theorem Good.setPriority (h : Good idle s A) (hidle : x ≠ idle) (hlive : s.taskState x ≠ .invalid)
    (p : ℤ) :
    ∃ s' A', nxschedSetPriority s x p = some s' ∧ Good idle s' A' ∧ (A.Counted → A'.Counted) := by
  rw [nxschedSetPriority]
  split
  · exact ⟨s, A, rfl, h, id⟩
  · rename_i hrange
    have hp := pos_of_range hrange
    have hblocked : ∀ i, tlistHead (s.taskState x) (s.waitobj x) = some i → i ≠ .readytorun →
        ∃ s' A', nxschedBlockedSetpriority s x (UInt8.ofNat p.toNat) = some s' ∧
          Good idle s' A' ∧ (A.Counted → A'.Counted) := by
      intro i hi hr
      obtain ⟨s', A', heq, hrep, hinv, hc⟩ :=
        h.rep.blockedSetpriority h.inv (h.rep.mem_iff.mpr hi) hr hp
      exact ⟨s', A', heq, ⟨hrep, hinv⟩, hc⟩
    dsimp only
    split
    · rename_i hrun
      have hhead := (h.rep.running_iff x).mp hrun
      obtain ⟨s', A', heq, hrep, hinv, hk⟩ := h.rep.runningSetpriority h.inv hhead hidle hp
      exact ⟨s', A', heq, ⟨hrep, hinv⟩, (·.of_keeps hk)⟩
    · rename_i hst
      have hx : x ∈ A.ready := h.rep.mem_iff.mpr (by rw [hst]; rfl)
      obtain ⟨l, r, hready⟩ := List.append_of_mem hx
      have hnot : l ≠ [] := by
        rintro rfl
        rw [(h.rep.running_iff x).mpr (by rw [hready]; rfl)] at hst
        cases hst
      obtain ⟨s', A', heq, hrep, hinv, hk, -⟩ :=
        h.rep.reprioritizeRtr h.inv hready hidle hp fun he => absurd he hnot
      exact ⟨s', A', heq, ⟨hrep, hinv⟩, (·.of_keeps hk)⟩
    · rename_i hrun hready
      cases hst : s.taskState x with
      | invalid => exact absurd hst hlive
      | pending => exact hblocked .pendingtasks (by rw [hst]; rfl) (by simp)
      | readytorun => exact absurd hst hready
      | running => exact absurd hst hrun
      | inactive => exact hblocked .inactivetasks (by rw [hst]; rfl) (by simp)
      | waitSem =>
        obtain ⟨k, hk⟩ := Option.isSome_iff_exists.mp (h.rep.isSome_waitobj x hst)
        exact hblocked (.waitlist k) (by rw [hst, hk]; rfl) (by simp)
      | waitSig => exact hblocked .waitingforsignal (by rw [hst]; rfl) (by simp)

/-- **The running task yields.** The idle task has no priority to set again. -/
theorem Good.schedYield (h : Good idle s A) :
    ∃ s' A', schedYield s = some s' ∧ Good idle s' A' ∧ (A.Counted → A'.Counted) := by
  obtain ⟨x, rest, hready, hthis⟩ := h.exists_head
  rw [CameraPipeline.schedYield, hthis, Option.bind_some]
  by_cases hx : x = idle
  · rw [hx, h.rep.prio, h.inv.idle_prio]
    exact ⟨s, A, rfl, h, id⟩
  · have hrun : s.taskState x = .running := (h.rep.running_iff x).mpr (by rw [hready]; rfl)
    exact h.setPriority hx (by rw [hrun]; simp) _

/-- **The time slice of the running task expires**: it goes behind the tasks of its priority. -/
theorem Good.slice (h : Good idle s A) {rest : List ν} (hready : A.ready = x :: y :: rest)
    (hlock : A.lockcount x = 0) (hxy : A.prio x ≤ A.prio y) :
    ∃ s', nxschedProcessRoundrobin s = some s' ∧
      Good idle s' (A.put .readytorun (insertTask A.prio x (y :: rest))) ∧
      A.Keeps (A.put .readytorun (insertTask A.prio x (y :: rest))) := by
  have hhead : A.ready.head? = some x := by rw [hready]; rfl
  have hthis : s.thisTask = some x := by rw [h.rep.thisTask, hhead]
  have hq := h.rep.queues.queue .readytorun
  rw [← Sched.ready, hready] at hq
  have hflink : s.links.flink x = some y := IsQueue.flink (l := []) hq
  have hx : x ≠ idle := by
    rintro rfl
    have hlast := h.inv.idle_last
    rw [hready, List.getLast?_cons_cons] at hlast
    exact (List.nodup_cons.mp hq.nodup).1 (List.mem_of_getLast? hlast)
  have hpos : 0 < A.prio x := h.inv.prio_pos (List.mem_of_head? hhead) hx
  have hpend : A.pending = [] := h.inv.unlocked (Sched.not_locked hhead (by simp [hlock]))
  obtain ⟨s', A', heq, hrep, hinv, hk, hA'⟩ :=
    h.rep.reprioritizeRtr (l := []) h.inv hready hx hpos fun _ => hpend
  have hprio : (A.put .readytorun (y :: rest)).setPrio x (A.prio x) =
      A.put .readytorun (y :: rest) :=
    congrArg (fun f => Sched.mk _ f _ _) (Function.update_eq_self x A.prio)
  have hadd : (A.put .readytorun (y :: rest)).add x =
      A.put .readytorun (insertTask A.prio x (y :: rest)) := by
    rw [Sched.add, A.put_ready_self]
    refine (if_neg fun hl => absurd hl.2 (UInt8.not_lt.mpr hxy)).trans ?_
    rw [Sched.join, Sched.put_lists_self]
    exact congrArg (fun f => Sched.mk f _ _ _) (Function.update_idem _ _ _)
  have hmerge : (A.put .readytorun (insertTask A.prio x (y :: rest))).merge =
      A.put .readytorun (insertTask A.prio x (y :: rest)) := by
    refine Sched.merge_of_pending_nil ?_
    rw [A.put_pending (i := .readytorun) (by simp), hpend]
  rw [List.nil_append, hprio, hadd, hmerge, or_self] at hA'
  rw [hA'] at hrep hinv hk
  refine ⟨s', ?_, ⟨hrep, hinv⟩, hk⟩
  simp only [nxschedProcessRoundrobin, hthis, Option.bind_some, hflink, h.rep.prio, h.rep.lockcount,
    hlock, lt_irrefl, if_false, if_pos hxy]
  exact heq

/-- **The time slice of the running task expires.** -/
theorem Good.processRoundrobin (h : Good idle s A) :
    ∃ s' A', nxschedProcessRoundrobin s = some s' ∧ Good idle s' A' ∧ A.Keeps A' := by
  obtain ⟨x, rest, hready, hthis⟩ := h.exists_head
  have hq := h.rep.queues.queue .readytorun
  rw [← Sched.ready, hready] at hq
  have hflink : s.links.flink x = rest.head? := IsQueue.flink (l := []) hq
  by_cases hlock : A.lockcount x = 0
  · cases rest with
    | nil =>
      refine ⟨s, A, ?_, h, .refl A⟩
      simp [nxschedProcessRoundrobin, hthis, hflink]
    | cons y rest =>
      by_cases hxy : A.prio x ≤ A.prio y
      · obtain ⟨s', heq, h'⟩ := h.slice hready hlock hxy
        exact ⟨s', _, heq, h'⟩
      · refine ⟨s, A, ?_, h, .refl A⟩
        simp [nxschedProcessRoundrobin, hthis, hflink, h.rep.prio, hxy]
  · refine ⟨s, A, ?_, h, .refl A⟩
    simp [nxschedProcessRoundrobin, hthis, h.rep.lockcount, Nat.pos_of_ne_zero hlock]

end Functions

end CameraPipeline
