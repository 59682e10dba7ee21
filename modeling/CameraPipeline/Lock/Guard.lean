import CameraPipeline.Lock.Mutex
import CameraPipeline.Systems.Automaton

/-!
# Tasks around a mutex

Any number of tasks that call `nxmutex_lock` and `nxmutex_unlock` on one mutex, from the return of
`nxmutex_init` on, each preempted between any two actions. The priorities of the tasks are fixed,
the holder of the mutex does not exit, and nobody has a signal pending when it calls `nxmutex_lock`.
What the tasks do outside the two calls is the business of the code that the mutex guards; this
module keeps the mutex and where every task is with its call, and says what the guarded code may
rely on: at most one task is inside, and whoever is inside lets the first waiter in when it unlocks.

## Main definitions

* `Pids`, `Tasks`: the ids and priorities of the tasks, and that the kernel finds them all
* `Guard`, `Guard.lock`, `Guard.unlock`, `Guard.step`: the mutex and the calls under way
* `Guarded ids g m`: the mutex is the lock `m`, and every task has in it the role of its call

## Main results

* `Guarded.lock`, `Guarded.unlock`, `Guarded.step`: every action keeps the correspondence
* `Guarded.holding_unique`: mutual exclusion
* `Guarded.step_holding`: the holder's actions lead to the first waiter's wake-up
* `phase_step_self`, `phase_step_of_ne`: how far an action brings its task, and that it brings no
  other task anywhere
-/

namespace CameraPipeline

open Systems

/-- The ids and the priorities of the tasks. -/
structure Pids (τ : Type) where
  pid : τ → UInt32
  lt : ∀ t, pid t < nxsemNoMholder
  prio : τ → UInt8

/-- Tasks none of which exits: `nxsched_get_tcb` finds them all. -/
structure Tasks (τ : Type) extends Pids τ where
  getTcb : UInt32 → Bool
  live : ∀ t, getTcb (pid t) = true

/-- Where a task is with its calls of `nxmutex_lock` and `nxmutex_unlock`. -/
inductive GuardPc
  | out
  | locking (w : WaitPc)
  | inside
  | unlocking (p : PostPc)
  deriving DecidableEq

namespace GuardPc

/-- A blocked task is made ready. -/
def resume : GuardPc → GuardPc
  | .locking (.blocked mutex) => .locking (.resumed mutex)
  | pc => pc

/-- The role in the lock that the program counter stands for. -/
def role : GuardPc → Role
  | .out => .out
  | .locking w => w.role
  | .inside | .unlocking _ => .holding

/-- The local variables of the call are those of a mutex. -/
def Sound : GuardPc → Prop
  | .out | .inside => True
  | .locking w => w.Sound
  | .unlocking p => p.Sound

/-- Which of the two calls a task is in, or where between them. -/
inductive Phase
  | out
  | locking
  | inside
  | unlocking
  deriving DecidableEq

def phase : GuardPc → Phase
  | .out => .out
  | .locking _ => .locking
  | .inside => .inside
  | .unlocking _ => .unlocking

theorem phase_resume (pc : GuardPc) : pc.resume.phase = pc.phase := by
  cases pc with
  | locking w => cases w <;> rfl
  | _ => rfl

theorem eq_blocked {pc : GuardPc} (h : pc.role = .waiting) (hs : pc.Sound) :
    pc = .locking (.blocked true) := by
  cases pc with
  | locking w =>
    cases w with
    | blocked mutex => rw [show mutex = true from hs]
    | _ => cases h
  | _ => cases h

theorem eq_inside {pc : GuardPc} (h : pc.phase = .inside) : pc = .inside := by
  cases pc <;> first | rfl | cases h

theorem eq_out {pc : GuardPc} (h : pc.phase = .out) : pc = .out := by
  cases pc <;> first | rfl | cases h

/-- The actions from where the holder is to the end of its `nxmutex_unlock`, with the call of it as
one of them, when somebody is queued. -/
def stepsToUnlock : GuardPc → ℕ
  | .out => 0
  | .locking _ => 6
  | .inside => 5
  | .unlocking p => p.steps

theorem role_of_inside {pc : GuardPc} (h : pc.phase = .inside) : pc.role = .holding := by
  rw [eq_inside h]
  rfl

end GuardPc

/-- What `nxmutex_init` leaves. -/
def Sem.mutex {τ : Type} : Sem τ := ⟨nxsemNoMholder, semTypeMutex, []⟩

/-- The four stores, whatever the semaphore was before. -/
example {τ : Type} (sem : Sem τ) :
    (nxmutexInit (nxmutexInit (nxmutexInit (nxmutexInit sem .semcount).1 .waitlist).1 .flags).1
      .protocol).1 = Sem.mutex := rfl

/-- The mutex, and where every task is with its calls. -/
structure Guard (τ : Type) where
  sem : Sem τ
  pc : τ → GuardPc

namespace Guard

variable {τ : Type} [DecidableEq τ]

omit [DecidableEq τ] in
/-- The mutex after `nxmutex_init`, and no task in a call. -/
def init : Guard τ := ⟨Sem.mutex, fun _ => .out⟩

/-- Task `t` goes on at `pc`. -/
def goto (g : Guard τ) (t : τ) (pc : GuardPc) : Guard τ :=
  { g with pc := Function.update g.pc t pc }

/-- The task made ready by a post, if there is one, goes on. -/
def wake (g : Guard τ) : Option τ → Guard τ
  | none => g
  | some t => g.goto t (g.pc t).resume

/-- Task `t` calls `nxmutex_lock`. -/
def lock (g : Guard τ) (t : τ) : Guard τ := g.goto t (.locking .start)

/-- Task `t` calls `nxmutex_unlock`. -/
def unlock (g : Guard τ) (t : τ) : Guard τ := g.goto t (.unlocking .start)

/-- One action of the call that task `t` is in. `getTcb` says which ids have a live task. -/
def step (ids : Pids τ) (getTcb : UInt32 → Bool) (g : Guard τ) (t : τ) : Option (Guard τ) :=
  match g.pc t with
  | .out | .inside => none
  | .locking w =>
    (nxsemWait getTcb (ids.pid t) ids.prio t g.sem w).map fun r =>
      { g.goto t (r.2.elim .inside .locking) with sem := r.1 }
  | .unlocking p =>
    let r := nxsemPost ids.pid g.sem p
    some (Guard.wake { g.goto t (r.2.2.elim .out .unlocking) with sem := r.1 } r.2.1)

variable {g g' : Guard τ} {t u : τ}

@[simp] theorem pc_goto_self (pc : GuardPc) : (g.goto t pc).pc t = pc := by
  simp [goto]

theorem pc_goto_of_ne (pc : GuardPc) (h : u ≠ t) : (g.goto t pc).pc u = g.pc u := by
  simp [goto, h]

theorem phase_wake (woken : Option τ) : ((g.wake woken).pc u).phase = (g.pc u).phase := by
  cases woken with
  | none => rfl
  | some v =>
    by_cases hu : u = v
    · rw [hu, wake, pc_goto_self, GuardPc.phase_resume]
    · rw [wake, pc_goto_of_ne _ hu]

variable {ids : Pids τ} {getTcb : UInt32 → Bool}

/-- An action of one task leaves every other task in the call it is in. -/
theorem phase_step_of_ne (h : g.step ids getTcb t = some g') (hu : u ≠ t) :
    (g'.pc u).phase = (g.pc u).phase := by
  rw [step] at h
  cases hpc : g.pc t with
  | out | inside => rw [hpc] at h; cases h
  | locking w =>
    rw [hpc] at h
    obtain ⟨r, -, rfl⟩ := Option.map_eq_some_iff.mp h
    exact congrArg GuardPc.phase (pc_goto_of_ne (g := g) _ hu)
  | unlocking p =>
    rw [hpc] at h
    obtain rfl := Option.some.inj h
    rw [phase_wake]
    exact congrArg GuardPc.phase (pc_goto_of_ne (g := g) _ hu)

/-- An action leaves its task in the call it is in, or ends the call. -/
theorem phase_step_self (h : g.step ids getTcb t = some g') :
    ((g.pc t).phase = .locking ∧ ((g'.pc t).phase = .locking ∨ (g'.pc t).phase = .inside)) ∨
      (g.pc t).phase = .unlocking ∧ ((g'.pc t).phase = .unlocking ∨ (g'.pc t).phase = .out) := by
  rw [step] at h
  cases hpc : g.pc t with
  | out | inside => rw [hpc] at h; cases h
  | locking w =>
    rw [hpc] at h
    obtain ⟨⟨sem, next⟩, -, rfl⟩ := Option.map_eq_some_iff.mp h
    refine Or.inl ⟨rfl, ?_⟩
    cases next <;> simp [goto, GuardPc.phase]
  | unlocking p =>
    rw [hpc] at h
    obtain rfl := Option.some.inj h
    refine Or.inr ⟨rfl, ?_⟩
    rw [phase_wake]
    cases (nxsemPost ids.pid g.sem p).2.2 <;> simp [goto, GuardPc.phase]

end Guard

/-! ## The correspondence -/

section Guarded

variable {τ : Type} [DecidableEq τ] (ids : Pids τ)

/-- **The mutex is the lock `m`**, handed over, and every task has in it the role of its program
counter. -/
structure Guarded (g : Guard τ) (m : Handoff τ) : Prop where
  sem : Encodes ids.pid g.sem m
  sound : ∀ t, (g.pc t).Sound
  role : ∀ t, (g.pc t).role = m.role t

variable {ids} {getTcb : UInt32 → Bool} {g g' : Guard τ} {m m' : Handoff τ} {t u : τ}

/-- Nobody is in a call, and the lock is free. -/
theorem guarded_free (hsem : Encodes ids.pid g.sem Handoff.free) (hout : ∀ t, g.pc t = .out) :
    Guarded ids g Handoff.free := by
  refine ⟨hsem, fun t => ?_, fun t => ?_⟩
  · rw [hout t]
    trivial
  · rw [hout t]
    exact (Handoff.role_free t).symm

theorem guarded_init : Guarded ids Guard.init Handoff.free :=
  guarded_free (encodes_free rfl rfl rfl) fun _ => rfl

/-- **Mutual exclusion.** -/
theorem Guarded.holding_unique (h : Guarded ids g m) (ht : (g.pc t).role = .holding)
    (hu : (g.pc u).role = .holding) : t = u :=
  m.holding_unique ((h.role t).symm.trans ht) ((h.role u).symm.trans hu)

/-- At most one task is inside. -/
theorem Guarded.inside_unique (h : Guarded ids g m) (ht : (g.pc t).phase = .inside)
    (hu : (g.pc u).phase = .inside) : t = u :=
  h.holding_unique (GuardPc.role_of_inside ht) (GuardPc.role_of_inside hu)

/-- A task goes on, and the lock changes its role with it. -/
theorem Guarded.goto (h : Guarded ids g m) {pc : GuardPc} (hpc : g'.pc = (g.goto t pc).pc)
    (hsem : Encodes ids.pid g'.sem m') (hsound : pc.Sound) (hrole : pc.role = m'.role t)
    (hothers : ∀ u, u ≠ t → m'.role u = m.role u) : Guarded ids g' m' := by
  refine ⟨hsem, fun u => ?_, fun u => ?_⟩
  · rw [hpc]
    by_cases hu : u = t
    · rw [hu, Guard.pc_goto_self]; exact hsound
    · rw [Guard.pc_goto_of_ne pc hu]; exact h.sound u
  · rw [hpc]
    by_cases hu : u = t
    · rw [hu, Guard.pc_goto_self]; exact hrole
    · rw [Guard.pc_goto_of_ne pc hu, hothers u hu]; exact h.role u

theorem Guarded.lock (h : Guarded ids g m) (ht : (g.pc t).phase = .out) :
    Guarded ids (g.lock t) m := by
  refine h.goto rfl h.sem trivial ?_ fun _ _ => rfl
  rw [← h.role t, GuardPc.eq_out ht]
  rfl

theorem Guarded.unlock (h : Guarded ids g m) (ht : (g.pc t).phase = .inside) :
    Guarded ids (g.unlock t) m := by
  refine h.goto rfl h.sem trivial ?_ fun _ _ => rfl
  rw [← h.role t, GuardPc.eq_inside ht]
  rfl

/-- A call of `nxmutex_lock` returns with an error before it waits. -/
theorem Guarded.refuse (h : Guarded ids g m) {mutex : Bool}
    (ht : g.pc t = .locking (.enter mutex)) : Guarded ids (g.goto t .out) m := by
  refine h.goto rfl h.sem trivial ?_ fun _ _ => rfl
  rw [← h.role t, ht]
  rfl

/-- The post releases the lock: its caller is out, and the task made ready is the holder. -/
theorem Guarded.release (h : Guarded ids g m) (ht : m.role t = .holding) {sem : Sem τ}
    (hsem : Encodes ids.pid sem m.release) :
    Guarded ids (Guard.wake { g.goto t .out with sem := sem } m.queue.head?) m.release := by
  have hout : GuardPc.out.role = m.release.role t := (Handoff.role_release_self ht).symm
  cases hq : m.queue.head? with
  | none =>
    refine h.goto rfl hsem trivial hout fun u hu => ?_
    exact Handoff.role_release_of_ne ht hu (by rw [hq]; exact nofun)
  | some u =>
    have hwait : m.role u = .waiting := Handoff.role_eq_waiting.mpr (List.mem_of_head? hq)
    have hut : u ≠ t := fun he => by rw [he, ht] at hwait; cases hwait
    have hpc := GuardPc.eq_blocked ((h.role u).trans hwait) (h.sound u)
    have hpcs : ∀ v, (Guard.wake { g.goto t .out with sem := sem } (some u)).pc v =
        if v = u then .locking (.resumed true) else if v = t then .out else g.pc v := by
      intro v
      by_cases hvu : v = u
      · rw [hvu, if_pos rfl, Guard.wake, Guard.pc_goto_self]
        show ((g.goto t .out).pc u).resume = _
        rw [Guard.pc_goto_of_ne _ hut, hpc]
        rfl
      · rw [if_neg hvu, Guard.wake, Guard.pc_goto_of_ne _ hvu]
        by_cases hvt : v = t
        · rw [if_pos hvt, hvt]
          exact Guard.pc_goto_self _
        · rw [if_neg hvt]
          exact Guard.pc_goto_of_ne (g := g) _ hvt
    refine ⟨hsem, fun v => ?_, fun v => ?_⟩
    · rw [hpcs v]
      split_ifs
      · rfl
      · trivial
      · exact h.sound v
    · rw [hpcs v]
      split_ifs with hvu hvt
      · rw [hvu]
        exact (Handoff.role_release_head hq).symm
      · rw [hvt]
        exact hout
      · rw [Handoff.role_release_of_ne ht hvt
          (by rw [hq]; exact fun he => hvu (Option.some.inj he).symm)]
        exact h.role v

/-- The actions of `nxmutex_unlock`: the lock is kept, or the call ends and the lock is released. -/
theorem Guarded.step_unlocking (h : Guarded ids g m) {p : PostPc} (hpc : g.pc t = .unlocking p) :
    ∃ g', g.step ids getTcb t = some g' ∧
      ((∃ p', g'.pc t = .unlocking p' ∧ Guarded ids g' m ∧ nxsemPost ids.pid g.sem p =
          (g'.sem, none, some p')) ∨
        (g'.pc t).phase = .out ∧ Guarded ids g' m.release ∧
          ∀ u, m.queue.head? = some u → g'.pc u = .locking (.resumed true)) := by
  have hsound := h.sound t
  have hrole := h.role t
  rw [hpc] at hsound hrole
  have hme : m.role t = .holding := hrole.symm
  have hstep : g.step ids getTcb t = some (Guard.wake { g.goto t
      ((nxsemPost ids.pid g.sem p).2.2.elim .out .unlocking) with
        sem := (nxsemPost ids.pid g.sem p).1 } (nxsemPost ids.pid g.sem p).2.1) := by
    rw [Guard.step, hpc]
  refine ⟨_, hstep, ?_⟩
  rcases nxsemPost_encodes ids.lt h.sem hsound hme with ⟨p', hp', hs', hrep⟩ | ⟨hp', hrep⟩
  · rw [hp']
    refine Or.inl ⟨p', Guard.pc_goto_self _, h.goto rfl hrep hs' hrole fun _ _ => rfl, ?_⟩
    exact Prod.ext rfl hp'
  · rw [hp']
    have hreleased := h.release hme hrep
    refine Or.inr ⟨?_, hreleased, fun u hu => ?_⟩
    · rw [Guard.phase_wake]
      exact congrArg GuardPc.phase (Guard.pc_goto_self (g := g) _)
    · have hwait : m.role u = .waiting := Handoff.role_eq_waiting.mpr (List.mem_of_head? hu)
      have hut : u ≠ t := fun he => by rw [he, hme] at hwait; cases hwait
      rw [hu, Guard.wake, Guard.pc_goto_self]
      show ((g.goto t .out).pc u).resume = _
      rw [Guard.pc_goto_of_ne _ hut, GuardPc.eq_blocked ((h.role u).trans hwait) (h.sound u)]
      rfl

/-- **An action of the holder** keeps the lock and, when somebody waits, brings the holder nearer to
the end of its unlock; or it ends the unlock, and releases the lock. -/
theorem Guarded.step_holding (h : Guarded ids g m) (ht : m.role t = .holding)
    (hin : g.pc t ≠ .inside) :
    ∃ g', g.step ids getTcb t = some g' ∧
      ((Guarded ids g' m ∧
          (m.queue ≠ [] → (g'.pc t).stepsToUnlock < (g.pc t).stepsToUnlock)) ∨
        (Guarded ids g' m.release ∧
          ∀ u, m.queue.head? = some u → g'.pc u = .locking (.resumed true))) := by
  have hsound := h.sound t
  have hrole := (h.role t).trans ht
  cases hpc : g.pc t with
  | out => rw [hpc] at hrole; cases hrole
  | inside => exact absurd hpc hin
  | locking w =>
    rw [hpc] at hsound hrole
    cases w with
    | resumed mutex =>
      obtain rfl : mutex = true := hsound
      have hstep : g.step ids getTcb t =
          some { g.goto t .inside with sem := g.sem.setHolder (ids.pid t) } := by
        rw [Guard.step, hpc]
        rfl
      refine ⟨_, hstep, Or.inl ⟨?_, fun _ => ?_⟩⟩
      · exact h.goto rfl (h.sem.setHolder ht) trivial ht.symm fun _ _ => rfl
      · rw [show ({ g.goto t .inside with sem := g.sem.setHolder (ids.pid t) } : Guard τ).pc t =
          .inside from Guard.pc_goto_self _]
        exact Nat.lt_succ_self 5
    | start | read | cas | slow | enter | blocked => cases hrole
  | unlocking p =>
    rw [hpc] at hsound
    obtain ⟨g', hg', ⟨p', hp', hkept, hpost⟩ | ⟨-, hreleased, hwoken⟩⟩ := h.step_unlocking hpc
    · refine ⟨g', hg', Or.inl ⟨hkept, fun hq => ?_⟩⟩
      have hb : nxsemMblocking g.sem.val = true := by
        rw [h.sem.mblocking ids.lt ht, List.isEmpty_eq_false_iff.mpr hq]
        rfl
      rw [hp']
      exact nxsemPost_steps_lt hsound hb (congrArg (fun r => r.2.2) hpost)
    · exact ⟨g', hg', Or.inr ⟨hreleased, hwoken⟩⟩

/-- **Every action keeps the correspondence**, while the kernel finds the owner of the lock. -/
theorem Guarded.step (h : Guarded ids g m)
    (hlive : ∀ u, m.owner = some u → getTcb (ids.pid u) = true)
    (hs : g.step ids getTcb t = some g') : ∃ m', Guarded ids g' m' := by
  cases hpc : g.pc t with
  | out | inside => rw [Guard.step, hpc] at hs; cases hs
  | locking w =>
    have hsound := h.sound t
    have hrole := h.role t
    rw [hpc] at hsound hrole
    rw [Guard.step, hpc] at hs
    obtain ⟨r, hr, rfl⟩ := Option.map_eq_some_iff.mp hs
    obtain ⟨hw, m', hrep, hme, hothers⟩ :=
      nxsemWait_encodes ids.lt h.sem hsound hrole hlive hr
    obtain ⟨sem, _ | w'⟩ := r
    · exact ⟨m', h.goto rfl hrep trivial hme hothers⟩
    · exact ⟨m', h.goto rfl hrep (hw w' rfl) hme hothers⟩
  | unlocking p =>
    obtain ⟨g₁, hg₁, hcases⟩ := h.step_unlocking hpc
    obtain rfl := Option.some.inj (hg₁.symm.trans hs)
    rcases hcases with ⟨p', -, hkept, -⟩ | ⟨-, hreleased, -⟩
    · exact ⟨m, hkept⟩
    · exact ⟨_, hreleased⟩

end Guarded

/-! ## Calls that nobody disturbs -/

/-- The actions that `nxmutex_lock` still takes at most when it finds the lock free, or its own. -/
def WaitPc.actions : WaitPc → ℕ
  | .start => 3
  | .read _ | .slow => 2
  | .cas _ _ | .enter _ | .resumed _ => 1
  | .blocked _ => 0

/-- The actions that `nxmutex_unlock` still takes at most when the holder word stays `val`. -/
def PostPc.actions (val : UInt32) : PostPc → ℕ
  | .start => 4
  | .read _ => 3
  | .cas _ old => if val = old then 1 else 4
  | .slow => 2
  | .enter _ => 1

section Alone

variable {τ : Type} {sem : Sem τ}

/-- On a free mutex, or one handed to the caller, an action of `nxmutex_lock` ends the call or
brings it nearer to its end. -/
theorem nxsemWait_free (getTcb : UInt32 → Bool) (tid : UInt32) (prio : τ → UInt8) (me : τ)
    {w : WaitPc} (hw : w.Sound) (hwait : w.role ≠ .waiting)
    (hfree : w.role = .out → sem.val = nxsemNoMholder) :
    ∃ r, nxsemWait getTcb tid prio me sem w = some r ∧ r.1.waitlist = sem.waitlist ∧
      ∀ w', r.2 = some w' → w'.actions < w.actions := by
  cases w with
  | start => exact ⟨_, rfl, rfl, fun w' h => Option.some.inj h ▸ Nat.lt_succ_self 2⟩
  | slow => exact ⟨_, rfl, rfl, fun w' h => Option.some.inj h ▸ Nat.lt_succ_self 1⟩
  | read mutex =>
    obtain rfl : mutex = true := hw
    refine ⟨_, rfl, rfl, fun w' h => ?_⟩
    simp only [hfree rfl, if_true, bne_self_eq_false, Bool.false_eq_true, if_false] at h
    exact Option.some.inj h ▸ Nat.lt_succ_self 1
  | cas mutex old =>
    obtain ⟨rfl, rfl⟩ := hw
    refine ⟨({ sem with val := tid }, none), ?_, rfl, fun w' h => ?_⟩
    · rw [nxsemWait, if_pos (hfree rfl)]
      rfl
    · cases h
  | enter mutex =>
    obtain rfl : mutex = true := hw
    have hacq : nxsemMacquired nxsemNoMholder = false := by decide
    refine ⟨_, rfl, ?_, fun w' h => ?_⟩
    · simp [nxsemWaitSlow, Sem.setHolder, hfree rfl, hacq]
    · simp [nxsemWaitSlow, hfree rfl, hacq] at h
  | blocked mutex => exact absurd rfl hwait
  | resumed mutex =>
    refine ⟨_, rfl, by cases mutex <;> rfl, fun w' h => ?_⟩
    cases h

/-- An action of `nxmutex_unlock` ends the call, or leaves the mutex alone and brings the call
nearer to its end. -/
theorem nxsemPost_alone (pid : τ → UInt32) {p p' : PostPc}
    (h : (nxsemPost pid sem p).2.2 = some p') :
    (nxsemPost pid sem p).1 = sem ∧ p'.actions sem.val < p.actions sem.val := by
  cases p with
  | start => exact ⟨rfl, Option.some.inj h ▸ Nat.lt_succ_self 3⟩
  | slow => exact ⟨rfl, Option.some.inj h ▸ Nat.lt_succ_self 1⟩
  | read mutex =>
    refine ⟨rfl, ?_⟩
    obtain rfl := Option.some.inj h
    generalize (if mutex = true then nxsemMblocking sem.val
      else decide (semcount sem.val < 0)) = blocking
    cases blocking <;> simp [PostPc.actions]
  | cas mutex old =>
    rw [nxsemPost] at h ⊢
    split at h
    · cases h
    · rename_i hne
      obtain rfl := Option.some.inj h
      simp [PostPc.actions, hne]
  | enter mutex => cases h

variable [DecidableEq τ] {ids : Pids τ} {getTcb : UInt32 → Bool} {g g' : Guard τ} {m : Handoff τ}
  {t u : τ}

/-- An action of `nxmutex_lock` moves its caller, and nobody else. -/
theorem Guard.pc_step_of_locking (h : g.step ids getTcb t = some g')
    (ht : (g.pc t).phase = .locking) (hu : u ≠ t) : g'.pc u = g.pc u := by
  rw [Guard.step] at h
  cases hpc : g.pc t with
  | locking w =>
    rw [hpc] at h
    obtain ⟨r, -, rfl⟩ := Option.map_eq_some_iff.mp h
    exact Guard.pc_goto_of_ne (g := g) _ hu
  | _ => rw [hpc] at ht; cases ht

/-- **A task that finds the lock free, or was handed it**, comes nearer to being inside, and the
lock is still free or its own, with the queue it had. -/
theorem Guarded.step_locking (h : Guarded ids g m) {w : WaitPc} (hpc : g.pc t = .locking w)
    (howner : ∀ u, m.owner = some u → u = t) (hlive : getTcb (ids.pid t) = true) :
    ∃ g' m', g.step ids getTcb t = some g' ∧ Guarded ids g' m' ∧ m'.queue = m.queue ∧
      (∀ u, m'.owner = some u → u = t) ∧
      (g'.pc t = .inside ∨ ∃ w', g'.pc t = .locking w' ∧ w'.actions < w.actions) := by
  have hsound := h.sound t
  have hrole := h.role t
  rw [hpc] at hsound hrole
  have hwait : w.role ≠ .waiting := by
    intro hw
    obtain ⟨u, hut, hu⟩ := Handoff.exists_holding_of_waiting (hrole.symm.trans hw)
    exact hut (howner u (Handoff.role_eq_holding.mp hu))
  have hfree : w.role = .out → g.sem.val = nxsemNoMholder := by
    intro hw
    have hnone : m.owner = none := by
      cases hu : m.owner with
      | none => rfl
      | some u =>
        have hout := hrole.symm.trans hw
        rw [← howner u hu, Handoff.role_eq_holding.mpr hu] at hout
        cases hout
    rw [h.sem.val, hnone]
    rfl
  obtain ⟨r, hr, hlist, hless⟩ :=
    nxsemWait_free getTcb (ids.pid t) ids.prio t hsound hwait hfree
  have hstep : g.step ids getTcb t =
      some { g.goto t (r.2.elim .inside .locking) with sem := r.1 } := by
    rw [Guard.step, hpc]
    simp only [hr, Option.map_some]
  obtain ⟨m', hm'⟩ := h.step (fun u hu => howner u hu ▸ hlive) hstep
  refine ⟨_, m', hstep, hm', ?_, fun u hu => ?_, ?_⟩
  · rw [← hm'.sem.waitlist, ← h.sem.waitlist]
    exact hlist
  · by_contra hut
    have hpcu := Guard.pc_step_of_locking hstep (by rw [hpc]; rfl) hut
    have hold : m.role u = .holding := by
      rw [← h.role u, ← hpcu, hm'.role u]
      exact Handoff.role_eq_holding.mpr hu
    exact hut (howner u (Handoff.role_eq_holding.mp hold))
  · cases hnext : r.2 with
    | none => exact Or.inl (Guard.pc_goto_self _)
    | some w' => exact Or.inr ⟨w', Guard.pc_goto_self _, hless w' hnext⟩

end Alone

end CameraPipeline
