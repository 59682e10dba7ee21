import CameraPipeline.RingBuffer.Basic
import CameraPipeline.Lock.Guard

/-!
# The lock of the ring buffer from boot on

The two tasks that `launcher_main` creates and the lock they share, from boot, where `g_rb` and
`g_rb_lock` are all zero bits. The camera prints its banner and runs `rb_init`, and then calls
`rb_write`; the hello task calls `rb_read` from the start. Either may run at any time, and between
any two accesses of the lock.

When the hello task calls `rb_read` only after `rb_init` has returned, the lock is a mutex that is
handed over, and a blocked task is always attended to: it is on the wait list, another task holds
the lock, and the holder's `nxmutex_unlock` wakes it. Nothing in the program orders the two calls,
though. On the zeroed lock, a counting semaphore without a count, `rb_read` blocks; the `rb_init`
that follows empties the wait list, and the hello task is never woken.

## Main definitions

* `Pc`, `Board`, `boot`: where a task is, the two tasks with the lock and the ring, and the state at
  boot
* `board ids`: the system, as a labelled automaton
* `NoLostWaiter`: a blocked task is attended to
* `ReadAfterInit`: the hello task calls `rb_read` only after `rb_init` has returned

## Main results

* `tracked_stepTask`: the steps of the tasks keep the correspondence to a lock that is handed over
* `holder_wakes`: the holder's steps alone lead to the first waiter's wake-up
* `holder_unique`: at most one task is between the lock and the unlock
* `no_lost_waiter`: no waiter is lost in any run in which the hello task waits for `rb_init`
* `blocked_forever`: a blocked task that is not on the wait list stays blocked in every run
-/

namespace CameraPipeline

open Data Systems

/-! ## The tasks -/

/-- Where a task is. -/
inductive Pc
  /-- not created yet -/
  | absent
  /-- `task_create` failed -/
  | failed
  /-- at the banner of `camera_MSN2_main` -/
  | starting
  /-- in `rb_init`, at the stores to `g_rb` -/
  | initRing
  /-- in `rb_init`, inside `nxmutex_init` -/
  | init (i : InitPc)
  /-- between two calls of `rb_write` or `rb_read` -/
  | idle
  /-- inside `nxmutex_lock` -/
  | locking (w : WaitPc)
  /-- between `nxmutex_lock` and `nxmutex_unlock` -/
  | inside
  /-- inside `nxmutex_unlock` -/
  | unlocking (p : PostPc)
  /-- returned from its main function -/
  | exited
  deriving DecidableEq

/-- `nxsched_get_tcb` finds the task. -/
def Pc.live : Pc → Bool
  | .absent | .failed | .exited => false
  | _ => true

/-- `rb_init` is still to come, or under way. -/
def Pc.beforeInit : Pc → Bool
  | .starting | .initRing | .init _ => true
  | _ => false

/-- The task was created, and has no `rb_init` before it. -/
def Pc.ready : Pc → Bool
  | .absent | .failed => false
  | pc => !pc.beforeInit

/-- The task is not inside a call. -/
def Pc.resting : Pc → Bool
  | .absent | .failed | .idle | .exited => true
  | _ => false

/-- A blocked task is made ready. -/
def Pc.resume : Pc → Pc
  | .locking (.blocked mutex) => .locking (.resumed mutex)
  | pc => pc

/-- The first program counter of a task: only the camera runs `rb_init`. -/
def Task.entry : Task → Pc
  | .camera => .starting
  | .hello => .idle

/-- The two tasks, `g_rb_lock`, `g_rb`, and the local chunk of each task. -/
structure Board where
  lock : Sem Task
  ring : ImageRing
  chunk : Task → ImageChunk chunkSize
  pc : Task → Pc

/-- The board at boot, the static data all zero bits. -/
def boot : Board where
  lock := ⟨0, 0, []⟩
  ring := rbInit
  chunk _ := 0
  pc _ := .absent

namespace Board

/-- `nxsched_get_tcb(pid) != NULL`. -/
def getTcb (s : Board) (ids : Pids Task) (p : UInt32) : Bool :=
  [Task.camera, Task.hello].any fun t => (s.pc t).live && ids.pid t == p

/-- Task `t` goes on at `pc`. -/
def goto (s : Board) (t : Task) (pc : Pc) : Board :=
  { s with pc := Function.update s.pc t pc }

/-- The lock after one of its functions did an action. -/
def setLock (s : Board) (lock : Sem Task) : Board := { s with lock := lock }

/-- What `rb_write` and `rb_read` do between the lock and the unlock. -/
def ringCall (s : Board) : Task → Board
  | .camera => { s with ring := (rbWrite s.ring (some (s.chunk .camera))).1 }
  | .hello =>
    let r := rbRead s.ring (some (s.chunk .hello))
    { s with
      ring := r.1
      chunk := Function.update s.chunk .hello (r.2.2.getD (s.chunk .hello)) }

/-- The task made ready by a post, if there is one, goes on. -/
def wake (s : Board) : Option Task → Board
  | none => s
  | some t => s.goto t (s.pc t).resume

end Board

/-! ## The system -/

/-- The steps of the system. -/
inductive Label
  /-- the launcher's `task_create`, and whether it succeeds -/
  | create (t : Task) (ok : Bool)
  /-- the camera prepares its next chunk -/
  | fill (c : ImageChunk chunkSize)
  /-- a step of a task -/
  | step (t : Task)
  /-- a task returns from its main function -/
  | exit (t : Task)

section Step

variable (ids : Pids Task)

/-- One step of a task. -/
def stepTask (s : Board) (t : Task) : Option Board :=
  match s.pc t with
  | .absent | .failed | .exited => none
  | .starting => some (s.goto t .initRing)
  | .initRing => some { s.goto t (.init .semcount) with ring := rbInit }
  | .init i =>
    let r := nxmutexInit s.lock i
    some ((s.goto t (r.2.elim .idle .init)).setLock r.1)
  | .idle => some (s.goto t (.locking .start))
  | .locking w =>
    (nxsemWait (s.getTcb ids) (ids.pid t) ids.prio t s.lock w).map fun r =>
      (s.goto t (r.2.elim .inside .locking)).setLock r.1
  | .inside => some ((s.ringCall t).goto t (.unlocking .start))
  | .unlocking p =>
    let r := nxsemPost ids.pid s.lock p
    some (((s.goto t (r.2.2.elim .idle .unlocking)).setLock r.1).wake r.2.1)

/-- **The system**: the launcher creates the camera and then the hello task, and the tasks take
their steps in any order. -/
def board (s : Board) : Label → Option Board
  | .create t ok =>
    if s.pc t = .absent ∧ (t = .hello → s.pc .camera ≠ .absent) then
      some (s.goto t (if ok then t.entry else .failed))
    else none
  | .fill c =>
    if s.pc .camera = .idle then some { s with chunk := Function.update s.chunk .camera c }
    else none
  | .step t => stepTask ids s t
  | .exit t => if s.pc t = .idle then some (s.goto t .exited) else none

end Step

/-! ## The lock as a lock that is handed over -/

/-- Where a task is with its calls of `nxmutex_lock` and `nxmutex_unlock`. -/
def Pc.guardPc : Pc → GuardPc
  | .locking w => .locking w
  | .inside => .inside
  | .unlocking p => .unlocking p
  | _ => .out

/-- The role that the program counter of a task stands for. -/
def Pc.role (pc : Pc) : Role := pc.guardPc.role

theorem Pc.live_of_holding {pc : Pc} (h : pc.role = .holding) : pc.live = true := by
  cases pc <;> first | rfl | cases h

theorem Pc.guardPc_resume (pc : Pc) : pc.resume.guardPc = pc.guardPc.resume := by
  cases pc with
  | locking w => cases w <;> rfl
  | _ => rfl

theorem Pc.eq_locking {pc : Pc} {w : WaitPc} (h : pc.guardPc = .locking w) : pc = .locking w := by
  cases pc <;> first | exact congrArg Pc.locking (GuardPc.locking.inj h) | cases h

namespace Board

theorem pc_goto_self (s : Board) (t : Task) (pc : Pc) : (s.goto t pc).pc t = pc := by
  simp [goto]

theorem pc_goto_of_ne (s : Board) {t u : Task} (pc : Pc) (h : u ≠ t) :
    (s.goto t pc).pc u = s.pc u := by
  simp [goto, h]

theorem pc_ringCall (s : Board) (t : Task) : (s.ringCall t).pc = s.pc := by
  cases t <;> rfl

theorem lock_ringCall (s : Board) (t : Task) : (s.ringCall t).lock = s.lock := by
  cases t <;> rfl

@[simp] theorem pc_setLock (s : Board) (lock : Sem Task) : (s.setLock lock).pc = s.pc := rfl

theorem getTcb_of_live {s : Board} {ids : Pids Task} {t : Task} (h : (s.pc t).live = true) :
    s.getTcb ids (ids.pid t) = true := by
  refine List.any_eq_true.mpr ⟨t, by cases t <;> simp, ?_⟩
  rw [h, Bool.true_and, beq_self_eq_true]

/-- The lock, and where both tasks are with their calls. -/
def guard (s : Board) : Guard Task := ⟨s.lock, fun t => (s.pc t).guardPc⟩

theorem guard_pc (s : Board) (t : Task) : s.guard.pc t = (s.pc t).guardPc := rfl

theorem guard_goto (s : Board) (t : Task) (pc : Pc) :
    (s.goto t pc).guard = s.guard.goto t pc.guardPc :=
  congrArg (Guard.mk s.lock) (Function.comp_update Pc.guardPc s.pc t pc)

theorem guard_wake (s : Board) (woken : Option Task) :
    (s.wake woken).guard = s.guard.wake woken := by
  cases woken with
  | none => rfl
  | some t =>
    rw [wake, guard_goto, Pc.guardPc_resume]
    rfl

theorem guard_ringCall (s : Board) (t : Task) : (s.ringCall t).guard = s.guard := by
  rw [guard, pc_ringCall, lock_ringCall]
  rfl

end Board

section Invariant

variable {ids : Pids Task} {s s' : Board} {m : Handoff Task} {t u : Task}

/-- **Inside the two calls a step of a task is one of the mutex.** -/
theorem guard_stepTask (hin : s.guard.pc t ≠ .inside) (hout : s.guard.pc t ≠ .out) :
    (stepTask ids s t).map Board.guard = s.guard.step ids (s.getTcb ids) t := by
  rw [Guard.step, stepTask]
  cases hpc : s.pc t with
  | locking w =>
    rw [show s.guard.pc t = .locking w from congrArg Pc.guardPc hpc]
    show ((nxsemWait _ _ _ t s.lock w).map _).map Board.guard = (nxsemWait _ _ _ t s.lock w).map _
    rw [Option.map_map]
    refine congrArg (Option.map · _) (funext fun r => ?_)
    have hnext : (r.2.elim .inside .locking : Pc).guardPc = r.2.elim .inside .locking := by
      cases r.2 <;> rfl
    show { (s.goto t (r.2.elim .inside .locking)).guard with sem := r.1 } = _
    rw [s.guard_goto, hnext]
  | unlocking p =>
    rw [show s.guard.pc t = .unlocking p from congrArg Pc.guardPc hpc]
    set r := nxsemPost ids.pid s.lock p
    have hnext : (r.2.2.elim .idle .unlocking : Pc).guardPc = r.2.2.elim .out .unlocking := by
      cases r.2.2 <;> rfl
    show some (Board.guard (Board.wake ((s.goto t (r.2.2.elim .idle .unlocking)).setLock r.1) _)) =
      some (Guard.wake { s.guard.goto t (r.2.2.elim .out .unlocking) with sem := r.1 } _)
    rw [Board.guard_wake]
    show some (Guard.wake { (s.goto t (r.2.2.elim .idle .unlocking)).guard with sem := r.1 } _) = _
    rw [s.guard_goto, hnext]
    rfl
  | inside => exact absurd (congrArg Pc.guardPc hpc) hin
  | _ => exact absurd (congrArg Pc.guardPc hpc) hout

/-- Nobody is inside `rb_init`, and the camera is past it. -/
def Started (t : Task) (pc : Pc) : Prop :=
  pc.beforeInit = false ∧ (t = .camera → pc.ready = true)

theorem started_of_ready {pc : Pc} (h : pc.ready = true) : Started t pc := by
  refine ⟨?_, fun _ => h⟩
  cases pc <;> first | rfl | cases h

theorem Started.resume {pc : Pc} (h : Started t pc) : Started t pc.resume := by
  cases pc with
  | locking w => cases w <;> exact started_of_ready rfl
  | _ => exact h

theorem Started.goto (h : ∀ u, Started u (s.pc u)) {pc : Pc} (hpc : Started t pc) (u : Task) :
    Started u ((s.goto t pc).pc u) := by
  by_cases hu : u = t
  · rw [hu, s.pc_goto_self]
    exact hpc
  · rw [s.pc_goto_of_ne pc hu]
    exact h u

theorem started_stepTask (h : ∀ u, Started u (s.pc u)) (hs : stepTask ids s t = some s')
    (u : Task) : Started u (s'.pc u) := by
  rw [stepTask] at hs
  have hinit := (h t).1
  cases hpc : s.pc t with
  | absent | failed | exited => rw [hpc] at hs; cases hs
  | starting | initRing | init => rw [hpc] at hinit; cases hinit
  | idle =>
    rw [hpc] at hs
    exact Option.some.inj hs ▸ Started.goto h (started_of_ready rfl) u
  | locking w =>
    rw [hpc] at hs
    obtain ⟨r, -, rfl⟩ := Option.map_eq_some_iff.mp hs
    exact Started.goto h (started_of_ready (by cases r.2 <;> rfl)) u
  | inside =>
    rw [hpc] at hs
    refine Option.some.inj hs ▸ Started.goto (fun v => ?_) (started_of_ready rfl) u
    rw [s.pc_ringCall]
    exact h v
  | unlocking p =>
    rw [hpc] at hs
    obtain rfl := Option.some.inj hs
    generalize nxsemPost ids.pid s.lock p = r
    have hready : Started t (r.2.2.elim .idle .unlocking) :=
      started_of_ready (by cases r.2.2 <;> rfl)
    have hgone := Started.goto h hready
    cases r.2.1 with
    | none => exact hgone u
    | some v => exact Started.goto hgone (hgone v).resume u

variable (ids) in
/-- **The lock is the mutex `m`**, handed over, and every task has in it the role of its program
counter. -/
structure Tracked (s : Board) (m : Handoff Task) : Prop where
  guarded : Guarded ids s.guard m
  started : ∀ t, Started t (s.pc t)

theorem Tracked.role (h : Tracked ids s m) (t : Task) : (s.pc t).role = m.role t :=
  h.guarded.role t

theorem Tracked.getTcb (h : Tracked ids s m) (u : Task) (hu : m.owner = some u) :
    s.getTcb ids (ids.pid u) = true :=
  Board.getTcb_of_live (Pc.live_of_holding ((h.role u).trans (Handoff.role_eq_holding.mpr hu)))

/-- A task outside of the two calls stays outside of them. -/
theorem Tracked.goto (h : Tracked ids s m) {pc : Pc} (ht : (s.pc t).role = .out)
    (hpc : pc.guardPc = .out) (hstarted : Started t pc) : Tracked ids (s.goto t pc) m := by
  refine ⟨?_, Started.goto h.started hstarted⟩
  rw [s.guard_goto, hpc]
  exact h.guarded.goto rfl h.guarded.sem trivial (ht.symm.trans (h.role t)) fun _ _ => rfl

/-- **A step of any task** keeps the lock a mutex that is handed over. -/
theorem tracked_stepTask (h : Tracked ids s m) (hs : stepTask ids s t = some s') :
    ∃ m', Tracked ids s' m' := by
  suffices hguard : ∃ m', Guarded ids s'.guard m' from
    hguard.imp fun m' hm' => ⟨hm', started_stepTask h.started hs⟩
  have hinit := (h.started t).1
  cases hpc : s.pc t with
  | absent | failed | exited => rw [stepTask, hpc] at hs; cases hs
  | starting | initRing | init => rw [hpc] at hinit; cases hinit
  | idle =>
    have hout : (s.guard.pc t).phase = .out := by rw [s.guard_pc, hpc]; rfl
    rw [stepTask, hpc] at hs
    obtain rfl := Option.some.inj hs
    rw [s.guard_goto]
    exact ⟨m, h.guarded.lock hout⟩
  | inside =>
    have hin : (s.guard.pc t).phase = .inside := by rw [s.guard_pc, hpc]; rfl
    rw [stepTask, hpc] at hs
    obtain rfl := Option.some.inj hs
    rw [Board.guard_goto, s.guard_ringCall]
    exact ⟨m, h.guarded.unlock hin⟩
  | locking | unlocking =>
    refine h.guarded.step h.getTcb (t := t) ((guard_stepTask ?_ ?_).symm.trans ?_)
    · rw [s.guard_pc, hpc]; exact nofun
    · rw [s.guard_pc, hpc]; exact nofun
    · rw [hs]; rfl

/-- **A step of the holder** keeps the lock and, when somebody waits, brings the holder nearer to
the end of its unlock; or it ends the unlock, and releases the lock. -/
theorem stepTask_holding (h : Tracked ids s m) (ht : m.role t = .holding) :
    ∃ s', stepTask ids s t = some s' ∧
      ((Tracked ids s' m ∧ (m.queue ≠ [] →
          (s'.guard.pc t).stepsToUnlock < (s.guard.pc t).stepsToUnlock)) ∨
        ∀ u, m.queue.head? = some u → s'.pc u = .locking (.resumed true)) := by
  have hrole := (h.guarded.role t).trans ht
  by_cases hin : s.guard.pc t = .inside
  · have hpc : s.pc t = .inside := by
      have : (s.pc t).guardPc = .inside := hin
      cases hpc : s.pc t <;> rw [hpc] at this <;> first | rfl | cases this
    have hstep : stepTask ids s t = some ((s.ringCall t).goto t (.unlocking .start)) := by
      rw [stepTask, hpc]
    refine ⟨_, hstep, Or.inl ⟨⟨?_, started_stepTask h.started hstep⟩, fun _ => ?_⟩⟩
    · rw [Board.guard_goto, s.guard_ringCall]
      exact h.guarded.unlock (by rw [hin]; rfl)
    · rw [Board.guard_goto, s.guard_ringCall, hin]
      show ((s.guard.goto t (.unlocking .start)).pc t).stepsToUnlock < 5
      rw [Guard.pc_goto_self]
      exact Nat.lt_succ_self 4
  · have hout : s.guard.pc t ≠ .out := fun he => by rw [he] at hrole; cases hrole
    obtain ⟨g', hg', hcases⟩ := h.guarded.step_holding ht hin
    obtain ⟨s', hs', rfl⟩ := Option.map_eq_some_iff.mp ((guard_stepTask hin hout).trans hg')
    refine ⟨s', hs', hcases.imp (fun hk => ⟨⟨hk.1, started_stepTask h.started hs'⟩, hk.2⟩) ?_⟩
    exact fun hreleased u hu => Pc.eq_locking (hreleased.2 u hu)

/-- **The holder's steps alone wake the first waiter.** -/
theorem holder_wakes (h : Tracked ids s m) (ht : m.role t = .holding)
    (hu : m.queue.head? = some u) :
    ∃ k s', run (board ids) s (List.replicate k (.step t)) = some s' ∧
      s'.pc u = .locking (.resumed true) := by
  -- on the steps the holder has left; nobody else moves, so the wait list stays what it is
  induction hn : (s.guard.pc t).stepsToUnlock using Nat.strong_induction_on generalizing s with
  | _ n ih =>
    obtain ⟨s₁, hs₁, ⟨htr, hlt⟩ | hwoken⟩ := stepTask_holding h ht
    · have hq : m.queue ≠ [] := fun he => by rw [he] at hu; cases hu
      obtain ⟨k, s', hrun, hs'⟩ := ih _ (hn ▸ hlt hq) htr rfl
      exact ⟨k + 1, s', (run_cons_eq_some _).mpr ⟨s₁, hs₁, hrun⟩, hs'⟩
    · exact ⟨1, s₁, (run_cons_eq_some _).mpr ⟨s₁, hs₁, rfl⟩, hwoken u hu⟩

/-! ## From boot -/

/-- What the stores of `nxmutex_init` have done so far. -/
def InitStores (lock : Sem Task) : Pc → Prop
  | .init .waitlist => lock.val = nxsemNoMholder
  | .init .flags | .init .protocol => lock.val = nxsemNoMholder ∧ lock.waitlist = []
  | _ => True

/-- The camera's `rb_init` has not returned, and the hello task is in no call. -/
structure Booting (s : Board) : Prop where
  camera : (s.pc .camera).ready = false
  hello : (s.pc .hello).resting = true
  stores : InitStores s.lock (s.pc .camera)

/-- The hello task calls `rb_read` only after `rb_init` has returned. -/
def ReadAfterInit (s : Board) : Label → Prop
  | .step .hello => s.pc .hello = .idle → (s.pc .camera).ready = true
  | _ => True

instance (s : Board) : (l : Label) → Decidable (ReadAfterInit s l)
  | .step .hello => inferInstanceAs (Decidable (_ → _))
  | .step .camera | .create _ _ | .fill _ | .exit _ => isTrue trivial

theorem booting_boot : Booting boot := ⟨rfl, rfl, trivial⟩

/-- The camera goes on inside `rb_init`. -/
theorem Booting.goto_camera (h : Booting s) {pc : Pc} (hpc : s'.pc = (s.goto .camera pc).pc)
    (hready : pc.ready = false) (hstores : InitStores s'.lock pc) : Booting s' := by
  refine ⟨?_, ?_, ?_⟩
  · rw [hpc, s.pc_goto_self]; exact hready
  · rw [hpc, s.pc_goto_of_ne pc (by decide)]; exact h.hello
  · rw [hpc, s.pc_goto_self]; exact hstores

/-- The hello task is created, or returns. -/
theorem Booting.goto_hello (h : Booting s) {pc : Pc} (hpc : pc.resting = true) :
    Booting (s.goto .hello pc) := by
  have hcamera : (s.goto .hello pc).pc .camera = s.pc .camera := s.pc_goto_of_ne pc (by decide)
  refine ⟨?_, ?_, ?_⟩
  · rw [hcamera]; exact h.camera
  · rw [s.pc_goto_self]; exact hpc
  · rw [hcamera]; exact h.stores

/-- **A step of the camera inside `rb_init`**; the last store makes the lock a free mutex. -/
theorem booting_stepTask_camera (h : Booting s) (hs : stepTask ids s .camera = some s') :
    Booting s' ∨ Tracked ids s' Handoff.free := by
  have hready := h.camera
  have hstores := h.stores
  cases hpc : s.pc .camera with
  | absent | failed => rw [stepTask, hpc] at hs; cases hs
  | idle | locking | inside | unlocking | exited => rw [hpc] at hready; cases hready
  | starting | initRing =>
    rw [stepTask, hpc] at hs
    obtain rfl := Option.some.inj hs
    exact Or.inl (h.goto_camera rfl rfl trivial)
  | init i =>
    rw [hpc] at hstores
    rw [stepTask, hpc] at hs
    obtain rfl := Option.some.inj hs
    cases i with
    | semcount => exact Or.inl (h.goto_camera rfl rfl rfl)
    | waitlist => exact Or.inl (h.goto_camera rfl rfl ⟨hstores, rfl⟩)
    | flags => exact Or.inl (h.goto_camera rfl rfl hstores)
    | protocol =>
      have hpcs : ∀ t, ((s.goto .camera .idle).pc t).guardPc = .out ∧
          Started t ((s.goto .camera .idle).pc t) := by
        intro t
        cases t with
        | camera =>
          rw [s.pc_goto_self]
          exact ⟨rfl, started_of_ready rfl⟩
        | hello =>
          rw [s.pc_goto_of_ne _ (by decide)]
          have hrest := h.hello
          cases hh : s.pc .hello with
          | absent | failed | idle | exited => exact ⟨rfl, rfl, nofun⟩
          | _ => rw [hh] at hrest; cases hrest
      exact Or.inr ⟨guarded_free (encodes_free rfl hstores.1 hstores.2) fun t => (hpcs t).1,
        fun t => (hpcs t).2⟩

theorem booting_step (h : Booting s) {l : Label} (hg : ReadAfterInit s l)
    (hs : board ids s l = some s') : Booting s' ∨ Tracked ids s' Handoff.free := by
  have hready := h.camera
  cases l with
  | create t ok =>
    rw [board] at hs
    split at hs
    · obtain rfl := Option.some.inj hs
      cases t with
      | camera => exact Or.inl (h.goto_camera rfl (by cases ok <;> rfl) (by cases ok <;> trivial))
      | hello => exact Or.inl (h.goto_hello (by cases ok <;> rfl))
    · cases hs
  | fill c =>
    rw [board] at hs
    split at hs
    · rename_i hpc
      rw [hpc] at hready
      cases hready
    · cases hs
  | step t =>
    cases t with
    | camera => exact booting_stepTask_camera h hs
    | hello =>
      have hrest := h.hello
      cases hpc : s.pc .hello with
      | absent | failed | exited => rw [board, stepTask, hpc] at hs; cases hs
      | idle => exact absurd (hg hpc) (by rw [hready]; exact Bool.false_ne_true)
      | _ => rw [hpc] at hrest; cases hrest
  | exit t =>
    rw [board] at hs
    split at hs
    · rename_i hpc
      obtain rfl := Option.some.inj hs
      cases t with
      | camera => rw [hpc] at hready; cases hready
      | hello => exact Or.inl (h.goto_hello rfl)
    · cases hs

theorem tracked_step (h : Tracked ids s m) {l : Label} (hs : board ids s l = some s') :
    ∃ m', Tracked ids s' m' := by
  cases l with
  | create t ok =>
    rw [board] at hs
    split at hs
    · rename_i hpc
      obtain rfl := Option.some.inj hs
      have hready := (h.started t).2
      rw [hpc.1] at hready
      cases t with
      | camera => cases hready rfl
      | hello =>
        refine ⟨m, h.goto (by rw [hpc.1]; rfl) ?_ ?_⟩
        · cases ok <;> rfl
        · cases ok <;> exact ⟨rfl, nofun⟩
    · cases hs
  | fill c =>
    rw [board] at hs
    split at hs
    · obtain rfl := Option.some.inj hs
      exact ⟨m, h.guarded, h.started⟩
    · cases hs
  | step t => exact tracked_stepTask h hs
  | exit t =>
    rw [board] at hs
    split at hs
    · rename_i hpc
      obtain rfl := Option.some.inj hs
      exact ⟨m, h.goto (by rw [hpc]; rfl) rfl (started_of_ready rfl)⟩
    · cases hs

/-- A blocked task is on the wait list, another task holds the lock, and the holder's steps wake the
blocked task. -/
def NoLostWaiter (ids : Pids Task) (s : Board) : Prop :=
  ∀ t mutex, s.pc t = .locking (.blocked mutex) →
    t ∈ s.lock.waitlist ∧ ∃ u, u ≠ t ∧ (s.pc u).role = .holding ∧
      ∃ k s', run (board ids) s (List.replicate k (.step u)) = some s' ∧
        s'.pc t = .locking (.resumed mutex)

theorem Tracked.noLostWaiter (h : Tracked ids s m) : NoLostWaiter ids s := by
  intro t mutex hpc
  have hsound := h.guarded.sound t
  have hrole := h.role t
  rw [s.guard_pc, hpc] at hsound
  rw [hpc] at hrole
  obtain rfl : mutex = true := hsound
  have hmem : t ∈ m.queue := Handoff.role_eq_waiting.mp hrole.symm
  obtain ⟨u, hut, hu⟩ := Handoff.exists_holding_of_waiting hrole.symm
  have hhead : m.queue.head? = some t := by
    obtain ⟨v, hv⟩ := Option.isSome_iff_exists.mp (List.isSome_head?.mpr (List.ne_nil_of_mem hmem))
    have hvu : v ≠ u := fun he => by
      have hwait := Handoff.role_eq_waiting.mpr (List.mem_of_head? hv)
      rw [he, hu] at hwait
      cases hwait
    have hvt : v = t := by cases t <;> cases u <;> cases v <;> first | rfl | contradiction
    rw [hv, hvt]
  exact ⟨h.guarded.sem.waitlist ▸ hmem, u, hut, (h.role u).trans hu, holder_wakes h hu hhead⟩

/-- Nobody is inside the lock before `rb_init` has returned. -/
theorem Booting.role (h : Booting s) (t : Task) : (s.pc t).role = .out := by
  cases t with
  | camera =>
    have hready := h.camera
    cases hpc : s.pc .camera with
    | absent | failed | starting | initRing | init => rfl
    | idle | locking | inside | unlocking | exited => rw [hpc] at hready; cases hready
  | hello =>
    have hrest := h.hello
    cases hpc : s.pc .hello with
    | absent | failed | idle | exited => rfl
    | starting | initRing | init | locking | inside | unlocking => rw [hpc] at hrest; cases hrest

theorem Booting.noLostWaiter (h : Booting s) : NoLostWaiter ids s := by
  intro t mutex hpc
  have hrole := h.role t
  rw [hpc] at hrole
  cases hrole

/-- In every run in which the hello task waits for `rb_init`, the lock is being initialised, or is a
mutex that is handed over. -/
theorem booting_or_tracked {ls : List Label} (hcond : Along (board ids) ReadAfterInit boot ls)
    (h : run (board ids) boot ls = some s) : Booting s ∨ ∃ m, Tracked ids s m := by
  refine run_invariant_along (I := fun s => Booting s ∨ ∃ m, Tracked ids s m) ?_
    (Or.inl booting_boot) hcond h
  rintro s l s' (hb | ⟨m, ht⟩) hg hs
  · exact (booting_step hb hg hs).imp_right fun h => ⟨_, h⟩
  · exact Or.inr (tracked_step ht hs)

/-- **Mutual exclusion**: no two tasks are between `nxmutex_lock` and `nxmutex_unlock`, so that a
call of `rb_write` or `rb_read` acts on the ring as one step. -/
theorem holder_unique {ls : List Label} (hcond : Along (board ids) ReadAfterInit boot ls)
    (h : run (board ids) boot ls = some s) (ht : (s.pc t).role = .holding)
    (hu : (s.pc u).role = .holding) : t = u := by
  rcases booting_or_tracked hcond h with hb | ⟨m, htr⟩
  · rw [hb.role t] at ht
    cases ht
  · apply m.holding_unique
    · exact (htr.role t).symm.trans ht
    · exact (htr.role u).symm.trans hu

end Invariant

/-- **No waiter is lost** in any run in which the hello task calls `rb_read` only after `rb_init`
has returned: a task blocked in `nxmutex_lock` is on the wait list, another task holds the lock, and
the holder's `nxmutex_unlock` wakes it. -/
theorem no_lost_waiter (ids : Pids Task) {ls : List Label} {s : Board}
    (hcond : Along (board ids) ReadAfterInit boot ls) (h : run (board ids) boot ls = some s) :
    NoLostWaiter ids s := by
  rcases booting_or_tracked hcond h with hb | ⟨m, ht⟩
  · exact hb.noLostWaiter
  · exact ht.noLostWaiter

/-- Ids as `task_create` may return them, with the priority that `launcher_main` gives both
tasks. -/
def launchIds : Pids Task where
  pid
    | .camera => 3
    | .hello => 4
  lt t := by cases t <;> decide
  prio _ := 100

/-- The camera is inside `rb_write` when the hello task calls `rb_read`. -/
def blockedSchedule : List Label :=
  .create .camera true :: .create .hello true :: List.replicate 10 (.step .camera) ++
    List.replicate 5 (.step .hello)

/-- The hello task blocked behind the camera. -/
theorem no_lost_waiter_behind_camera :
    ∃ s, run (board launchIds) boot blockedSchedule = some s ∧
      s.pc .hello = .locking (.blocked true) ∧ NoLostWaiter launchIds s := by
  have hcond : Along (board launchIds) ReadAfterInit boot blockedSchedule := by decide
  exact ⟨_, rfl, rfl, no_lost_waiter launchIds hcond rfl⟩

/-! ## The lost waiter -/

/-- A task that is blocked, but not on the wait list. -/
def Lost (t : Task) (mutex : Bool) (s : Board) : Prop :=
  s.pc t = .locking (.blocked mutex) ∧ t ∉ s.lock.waitlist

section Lost

variable {ids : Pids Task} {s s' : Board} {t : Task} {mutex : Bool}

/-- Another task goes on, and does not put the lost one on the wait list. -/
theorem Lost.goto {u : Task} {pc : Pc} {lock : Sem Task} (h : Lost t mutex s) (hu : u ≠ t)
    (hlock : t ∈ lock.waitlist → t ∈ s.lock.waitlist) :
    Lost t mutex ((s.goto u pc).setLock lock) :=
  ⟨by rw [Board.pc_setLock, s.pc_goto_of_ne pc hu.symm]; exact h.1, fun hmem => h.2 (hlock hmem)⟩

theorem lost_stepTask {u : Task} (h : Lost t mutex s) (hs : stepTask ids s u = some s') :
    Lost t mutex s' := by
  by_cases hu : u = t
  · rw [hu, stepTask, h.1] at hs
    cases hs
  rw [stepTask] at hs
  cases hpc : s.pc u with
  | absent | failed | exited => rw [hpc] at hs; cases hs
  | starting | initRing | idle =>
    rw [hpc] at hs
    obtain rfl := Option.some.inj hs
    exact h.goto hu id
  | init i =>
    rw [hpc] at hs
    obtain rfl := Option.some.inj hs
    refine h.goto hu fun hmem => ?_
    cases i with
    | waitlist => cases hmem
    | semcount | flags | protocol => exact hmem
  | locking w =>
    rw [hpc] at hs
    obtain ⟨r, hr, rfl⟩ := Option.map_eq_some_iff.mp hs
    refine h.goto hu fun hmem => ?_
    rcases waitlist_nxsemWait hr with hlist | hlist
    · exact hlist ▸ hmem
    · rw [hlist] at hmem
      exact (mem_insertTask.mp hmem).resolve_left (Ne.symm hu)
  | inside =>
    rw [hpc] at hs
    obtain rfl := Option.some.inj hs
    refine ⟨?_, ?_⟩
    · rw [Board.pc_goto_of_ne _ _ (Ne.symm hu), s.pc_ringCall]
      exact h.1
    · exact s.lock_ringCall u ▸ h.2
  | unlocking p =>
    rw [hpc] at hs
    obtain rfl := Option.some.inj hs
    have hlist := waitlist_nxsemPost ids.pid s.lock p
    generalize nxsemPost ids.pid s.lock p = r at hlist ⊢
    obtain ⟨lock, woken, next⟩ := r
    have hlost : Lost t mutex ((s.goto u (next.elim .idle .unlocking)).setLock lock) :=
      h.goto hu fun hmem => hlist ▸ List.mem_append_right _ hmem
    cases woken with
    | none => exact hlost
    | some v =>
      have hvt : t ≠ v := fun he => h.2 (hlist ▸ he ▸ List.mem_cons_self)
      exact ⟨by rw [Board.wake, Board.pc_goto_of_ne _ _ hvt]; exact hlost.1, hlost.2⟩

/-- **A lost waiter is never woken.** -/
theorem blocked_forever (h : Lost t mutex s) {ls : List Label}
    (hr : run (board ids) s ls = some s') : Lost t mutex s' := by
  refine run_invariant (I := Lost t mutex) (fun s l s' h hs => ?_) h hr
  have hgoto : ∀ u pc, s.pc u ≠ .locking (.blocked mutex) → Lost t mutex (s.goto u pc) :=
    fun u pc hu => h.goto (fun he => hu (he ▸ h.1)) id
  cases l with
  | create u ok =>
    rw [board] at hs
    split at hs
    · rename_i hpc
      exact Option.some.inj hs ▸ hgoto u _ (by rw [hpc.1]; exact nofun)
    · cases hs
  | fill c =>
    rw [board] at hs
    split at hs
    · exact Option.some.inj hs ▸ h
    · cases hs
  | step u => exact lost_stepTask h hs
  | exit u =>
    rw [board] at hs
    split at hs
    · rename_i hpc
      exact Option.some.inj hs ▸ hgoto u _ (by rw [hpc]; exact nofun)
    · cases hs

end Lost

/-- The hello task calls `rb_read` before the camera's `rb_init`, and blocks on the zeroed lock. -/
def lostSchedule : List Label :=
  .create .camera true :: .create .hello true :: List.replicate 5 (.step .hello) ++
    List.replicate 6 (.step .camera)

/-- **A waiter is lost**: after `rb_init` the hello task is blocked, but not on the wait list, and
nobody holds the lock. It stays blocked whatever the tasks do. -/
theorem hello_lost_at_launch :
    ∃ s, run (board launchIds) boot lostSchedule = some s ∧ ¬ NoLostWaiter launchIds s ∧
      (∀ u, (s.pc u).role ≠ .holding) ∧
      ∀ ls s', run (board launchIds) s ls = some s' → s'.pc .hello = .locking (.blocked false) := by
  refine ⟨_, rfl, fun h => ?_, fun u => ?_, fun ls s' hr => ?_⟩
  · exact List.not_mem_nil (h .hello false rfl).1
  · cases u <;> exact nofun
  · exact (blocked_forever ⟨rfl, List.not_mem_nil⟩ hr).1

end CameraPipeline
