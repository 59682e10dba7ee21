import CameraPipeline.Sched.TaskLists
import CameraPipeline.Lock.Semaphore
import CameraPipeline.Systems.Automaton

/-!
# The scheduler

The scheduler of the kernel for one CPU: the functions that move a task from list to list, and what
calls them. A task is created and activated, waits for a counting semaphore and is released from it,
sleeps and is woken, disables and enables preemption, yields, gives up its time slice, gets another
priority, and exits. Each of these runs with interrupts off, so that it is one step here.

The running task is the head of the ready-to-run list. A task that should run instead of it while it
has disabled preemption goes to the list of pending tasks, which is merged into the ready-to-run
list later.

## Main definitions

* `Kernel ν κ`: the lists, the fields of the tasks `ν` and the words of the semaphores `κ`
* `nxschedAddReadytorun`, `nxschedRemoveReadytorun`, `nxschedMergePending`: into the ready-to-run
  list, out of it, and the merge
* `nxschedSetPriority`: another priority, for a task in any list
* `SchedLabel`, `kernel idle`: what may happen, and the step it takes
* `PostBelowMax`: no post finds a count at `SEM_VALUE_MAX`

A function's result is `none` where the source would dereference a NULL pointer or not come to the
end of a list.
-/

namespace CameraPipeline

open Data Systems

/-! ## Tasks and lists -/

/-- `tstate_t`, as far as the functions modelled here give it. -/
inductive TaskState
  | invalid
  | pending
  | readytorun
  | running
  | inactive
  | waitSem
  | waitSig
  deriving DecidableEq

/-- The lists of tasks. -/
inductive TaskList (κ : Type)
  /-- `g_readytorun`, the running task at its head. -/
  | readytorun
  /-- `g_pendingtasks`, the tasks that would run but for disabled preemption. -/
  | pendingtasks
  /-- `g_inactivetasks`, the tasks not yet activated. -/
  | inactivetasks
  /-- `g_waitingforsignal`. -/
  | waitingforsignal
  /-- The wait list of a semaphore. -/
  | waitlist (sem : κ)
  deriving DecidableEq

/-- The lists, the fields of every `tcb_s` and the `semcount` words of the semaphores. -/
structure Kernel (ν κ : Type) where
  links : Links ν
  tasklist : TaskList κ → Ends ν
  taskState : ν → TaskState
  schedPriority : ν → UInt8
  lockcount : ν → ℕ
  waitobj : ν → Option κ
  semval : κ → UInt32

/-- The count of a semaphore. -/
def Kernel.semcount {ν κ : Type} (s : Kernel ν κ) (sem : κ) : ℤ :=
  CameraPipeline.semcount (s.semval sem)

/-- `TLIST_ISRUNNABLE`, of the table `tasklist_initialize` sets up. -/
def TaskState.isRunnable : TaskState → Bool
  | readytorun | running => true
  | _ => false

/-- `TLIST_ISPRIORITIZED`. -/
def TaskState.isPrioritized : TaskState → Bool
  | pending | readytorun | running | waitSem => true
  | _ => false

section Functions

variable {ν κ : Type}

/-- `TLIST_HEAD` and `TLIST_BLOCKED`: the list that a task of this state is in. -/
def tlistHead : TaskState → Option κ → Option (TaskList κ)
  | .invalid, _ => none
  | .pending, _ => some .pendingtasks
  | .readytorun, _ | .running, _ => some .readytorun
  | .inactive, _ => some .inactivetasks
  | .waitSig, _ => some .waitingforsignal
  | .waitSem, waitobj => waitobj.map .waitlist

variable [DecidableEq ν] [DecidableEq κ] (s : Kernel ν κ)

/-- `this_task`. -/
def Kernel.thisTask : Option ν :=
  (s.tasklist .readytorun).head

/-- `tcb->task_state = state`. -/
def Kernel.setState (tcb : ν) (state : TaskState) : Kernel ν κ :=
  { s with taskState := Function.update s.taskState tcb state }

/-- `tcb->sched_priority = priority`. -/
def Kernel.setPriority (tcb : ν) (priority : UInt8) : Kernel ν κ :=
  { s with schedPriority := Function.update s.schedPriority tcb priority }

/-- The links and one list after an operation on it. -/
def Kernel.setList (list : TaskList κ) (r : Links ν × Ends ν) : Kernel ν κ :=
  { s with links := r.1, tasklist := Function.update s.tasklist list r.2 }

/-- `dq_rem(tcb, list)`. -/
def Kernel.rem (tcb : ν) (list : TaskList κ) : Kernel ν κ :=
  s.setList list (dqRem s.links (s.tasklist list) tcb)

variable [Fintype ν]

/-- `nxsched_add_prioritized(tcb, list)`. -/
def Kernel.addPrioritized (tcb : ν) (list : TaskList κ) : Option (Kernel ν κ × Bool) :=
  (nxschedAddPrioritized s.schedPriority s.links (s.tasklist list) tcb).map fun r =>
    (s.setList list (r.1, r.2.1), r.2.2)

/-! ## Into the ready-to-run list and out of it -/

/-- **`nxsched_add_readytorun`**: whether the running task is another one. -/
def nxschedAddReadytorun (btcb : ν) : Option (Kernel ν κ × Bool) :=
  s.thisTask.bind fun rtcb =>
    if 0 < s.lockcount rtcb ∧ s.schedPriority rtcb < s.schedPriority btcb then
      (s.addPrioritized btcb .pendingtasks).map fun r => (r.1.setState btcb .pending, false)
    else
      (s.addPrioritized btcb .readytorun).bind fun r =>
        if r.2 then
          (r.1.links.flink btcb).map fun next =>
            ((r.1.setState btcb .running).setState next .readytorun, true)
        else some (r.1.setState btcb .readytorun, false)

/-- **`nxsched_remove_readytorun`**: whether the running task is another one. -/
def nxschedRemoveReadytorun (rtcb : ν) : Option (Kernel ν κ × Bool) :=
  (tlistHead (s.taskState rtcb) (s.waitobj rtcb)).bind fun tasklist =>
    if s.links.blink rtcb = none ∧ (s.taskState rtcb).isRunnable then
      (s.links.flink rtcb).map fun nxttcb =>
        (((s.setState nxttcb .running).rem rtcb tasklist).setState rtcb .invalid, true)
    else some ((s.rem rtcb tasklist).setState rtcb .invalid, false)

/-! ## The merge -/

/-- The inner loop of `nxsched_merge_pending`: the first task from `rtcb` on of a lower priority
than `p`. The loop has no test for the end of the list. -/
def findLower (prio : ν → UInt8) (h : Links ν) (p : UInt8) : ℕ → Option ν → Option ν
  | 0, _ => none
  | _ + 1, none => none
  | n + 1, some rtcb => if p ≤ prio rtcb then findLower prio h p n (h.flink rtcb) else some rtcb

/-- `ptcb` goes just before `rtcb`; whether it is the new head. -/
def mergeInsert (ptcb rtcb : ν) : Kernel ν κ × Bool :=
  match s.links.blink rtcb with
  | none =>
    (((s.setList .readytorun
      (setBlink (setBlink (setFlink s.links ptcb (some rtcb)) ptcb none) rtcb (some ptcb),
        { s.tasklist .readytorun with head := some ptcb })).setState rtcb .readytorun).setState
      ptcb .running, true)
  | some rprev =>
    (({ s with
      links := setBlink (setFlink (setBlink (setFlink s.links ptcb (some rtcb)) ptcb (some rprev))
        rprev (some ptcb)) rtcb (some ptcb) }).setState ptcb .readytorun, false)

/-- The outer loop: the pending tasks from `ptcb` on go into the ready-to-run list, each searched
for from where the last one went in. -/
def mergeLoop (s : Kernel ν κ) : ℕ → Option ν → ν → Bool → Option (Kernel ν κ × Bool)
  | 0, _, _, _ => none
  | _ + 1, none, _, ret => some (s, ret)
  | n + 1, some ptcb, rtcb, ret =>
    let pnext := s.links.flink ptcb
    (findLower s.schedPriority s.links (s.schedPriority ptcb) (Fintype.card ν + 1) (some rtcb)).bind
      fun rtcb =>
        let r := mergeInsert s ptcb rtcb
        mergeLoop r.1 n pnext ptcb (ret || r.2)

/-- **`nxsched_merge_pending`**: whether the running task is another one. -/
def nxschedMergePending : Option (Kernel ν κ × Bool) :=
  s.thisTask.bind fun rtcb =>
    if 0 < s.lockcount rtcb then some (s, false)
    else
      (mergeLoop s (Fintype.card ν + 1) (s.tasklist .pendingtasks).head rtcb false).map fun r =>
        (r.1.setList .pendingtasks (r.1.links, ⟨none, none⟩), r.2)

/-- The test before a merge: `if (list_pendingtasks()->head)`. -/
def Kernel.mergeIfPending : Option (Kernel ν κ × Bool) :=
  if (s.tasklist .pendingtasks).head.isSome then nxschedMergePending s else some (s, false)

/-- `nxsched_remove_self`. -/
def nxschedRemoveSelf (tcb : ν) : Option (Kernel ν κ) :=
  (nxschedRemoveReadytorun s tcb).bind fun r => r.1.mergeIfPending.map Prod.fst

/-! ## Priorities -/

/-- `nxsched_reprioritize_rtr`: whether the running task is another one. -/
def nxschedReprioritizeRtr (tcb : ν) (priority : UInt8) : Option (Kernel ν κ × Bool) :=
  (nxschedRemoveReadytorun s tcb).bind fun r =>
    (nxschedAddReadytorun (r.1.setPriority tcb priority) tcb).bind fun r' =>
      let switchNeeded := r.2 ^^ r'.2
      if switchNeeded then r'.1.mergeIfPending.map fun r'' => (r''.1, switchNeeded)
      else some (r'.1, switchNeeded)

/-- The loop of `nxsched_running_setpriority` under disabled preemption: `nxttcb` becomes pending,
and so do the tasks behind it that have a higher priority than the new one. -/
def moveHigher (s : Kernel ν κ) (tcb : ν) (priority : UInt8) : ℕ → ν → Option (Kernel ν κ)
  | 0, _ => none
  | n + 1, nxttcb =>
    (nxschedRemoveReadytorun s nxttcb).bind fun r =>
      (r.1.addPrioritized nxttcb .pendingtasks).bind fun r =>
        let s := r.1.setState nxttcb .pending
        (s.links.flink tcb).bind fun nxttcb =>
          if priority < s.schedPriority nxttcb then moveHigher s tcb priority n nxttcb else some s

/-- `nxsched_running_setpriority`. -/
def nxschedRunningSetpriority (tcb : ν) (priority : UInt8) : Option (Kernel ν κ) :=
  match s.links.flink tcb with
  | none => some (s.setPriority tcb priority)
  | some nxttcb =>
    if priority ≤ s.schedPriority nxttcb then
      s.thisTask.bind fun rtcb =>
        if 0 < s.lockcount rtcb then
          (moveHigher s tcb priority (Fintype.card ν + 1) nxttcb).map (·.setPriority tcb priority)
        else (nxschedReprioritizeRtr s tcb priority).map Prod.fst
    else some (s.setPriority tcb priority)

/-- `nxsched_blocked_setpriority`. -/
def nxschedBlockedSetpriority (tcb : ν) (priority : UInt8) : Option (Kernel ν κ) :=
  if (s.taskState tcb).isPrioritized then
    (tlistHead (s.taskState tcb) (s.waitobj tcb)).bind fun tasklist =>
      (((s.rem tcb tasklist).setPriority tcb priority).addPrioritized tcb tasklist).map Prod.fst
  else some (s.setPriority tcb priority)

/-- **`nxsched_set_priority`**: a priority outside of `SCHED_PRIORITY_MIN` to `SCHED_PRIORITY_MAX`
is `-EINVAL` and changes nothing. -/
def nxschedSetPriority (tcb : ν) (priority : ℤ) : Option (Kernel ν κ) :=
  if priority < 1 ∨ 255 < priority then some s
  else
    let priority := UInt8.ofNat priority.toNat
    match s.taskState tcb with
    | .running => nxschedRunningSetpriority s tcb priority
    | .readytorun => (nxschedReprioritizeRtr s tcb priority).map Prod.fst
    | _ => nxschedBlockedSetpriority s tcb priority

/-- `sched_yield`. -/
def schedYield : Option (Kernel ν κ) :=
  s.thisTask.bind fun rtcb => nxschedSetPriority s rtcb (s.schedPriority rtcb).toNat

/-- `nxsched_process_roundrobin`, when the time slice of the running task has expired. -/
def nxschedProcessRoundrobin : Option (Kernel ν κ) :=
  s.thisTask.bind fun tcb =>
    if 0 < s.lockcount tcb then some s
    else
      match s.links.flink tcb with
      | none => some s
      | some next =>
        if s.schedPriority tcb ≤ s.schedPriority next then
          (nxschedReprioritizeRtr s tcb (s.schedPriority tcb)).map Prod.fst
        else some s

/-! ## Preemption -/

/-- `sched_lock`. -/
def schedLock : Option (Kernel ν κ) :=
  s.thisTask.map fun rtcb =>
    { s with lockcount := Function.update s.lockcount rtcb (s.lockcount rtcb + 1) }

/-- `sched_unlock`. -/
def schedUnlock : Option (Kernel ν κ) :=
  s.thisTask.bind fun rtcb =>
    let s' : Kernel ν κ :=
      { s with lockcount := Function.update s.lockcount rtcb (s.lockcount rtcb - 1) }
    if s.lockcount rtcb = 1 then s'.mergeIfPending.map Prod.fst else some s'

/-! ## Semaphores and sleep -/

/-- `nxsem_wait` of the running task on a counting semaphore. -/
def Kernel.semWait (sem : κ) : Option (Kernel ν κ) :=
  let s' : Kernel ν κ := { s with semval := Function.update s.semval sem (s.semval sem - 1) }
  if 0 < s.semcount sem then some s'
  else
    s'.thisTask.bind fun rtcb =>
      let s' : Kernel ν κ := { s' with waitobj := Function.update s'.waitobj rtcb (some sem) }
      (nxschedRemoveSelf s' rtcb).bind fun s =>
        ((s.setState rtcb .waitSem).addPrioritized rtcb (.waitlist sem)).map Prod.fst

/-- `nxsem_post` on a counting semaphore. The fast path adds to a count that is not negative without
a test, so that `SEM_VALUE_MAX` wraps. -/
def Kernel.semPost (sem : κ) : Option (Kernel ν κ) :=
  let s' : Kernel ν κ := { s with semval := Function.update s.semval sem (s.semval sem + 1) }
  if s.semcount sem < 0 then
    let r := dqRemfirst s'.links (s'.tasklist (.waitlist sem))
    let s' := s'.setList (.waitlist sem) (r.1, r.2.1)
    match r.2.2 with
    | none => some s'
    | some stcb =>
      (nxschedAddReadytorun
        { s' with waitobj := Function.update s'.waitobj stcb none } stcb).map Prod.fst
  else some s'

/-- `nxsem_timeout` and the `nxsem_wait_irq` it calls: the wait of a task for a counting semaphore
ends, if it is still waiting. -/
def Kernel.semTimeout (wtcb : ν) : Option (Kernel ν κ) :=
  if s.taskState wtcb = .waitSem then
    (s.waitobj wtcb).bind fun sem =>
      let s' := s.rem wtcb (.waitlist sem)
      (nxschedAddReadytorun { s' with
        semval := Function.update s'.semval sem (s'.semval sem + 1)
        waitobj := Function.update s'.waitobj wtcb none } wtcb).map Prod.fst
  else some s

/-- `nxsig_clockwait`, from the start of the timer to the switch to another task. -/
def nxsigClockwait : Option (Kernel ν κ) :=
  s.thisTask.bind fun rtcb =>
    (nxschedRemoveSelf s rtcb).bind fun s =>
      let s := s.setState rtcb .waitSig
      (dqAddlast s.links (s.tasklist .waitingforsignal) rtcb).map (s.setList .waitingforsignal)

/-- `nxsig_timeout` and the `nxsig_wait_irq` it calls. -/
def nxsigTimeout (wtcb : ν) : Option (Kernel ν κ) :=
  if s.taskState wtcb = .waitSig then
    (nxschedAddReadytorun (s.rem wtcb .waitingforsignal) wtcb).map Prod.fst
  else some s

/-! ## From creation to exit -/

/-- `nxthread_setup_scheduler`, on a zeroed `tcb_s`. -/
def nxthreadSetupScheduler (tcb : ν) (priority : UInt8) : Kernel ν κ :=
  let s := s.setPriority tcb priority
  let s : Kernel ν κ := { s with lockcount := Function.update s.lockcount tcb 0 }
  let s := s.setList .inactivetasks (dqAddfirst s.links (s.tasklist .inactivetasks) tcb)
  s.setState tcb .inactive

/-- `nxtask_activate`, with the `nxsched_remove_blocked` it calls. -/
def nxtaskActivate (tcb : ν) : Option (Kernel ν κ) :=
  (tlistHead (s.taskState tcb) (s.waitobj tcb)).bind fun tasklist =>
    let s' := s.rem tcb tasklist
    let s' : Kernel ν κ := { s' with waitobj := Function.update s'.waitobj tcb none }
    (nxschedAddReadytorun (s'.setState tcb .invalid) tcb).map Prod.fst

/-- `nxtask_exit` of the running task, whose `tcb_s` is then free. -/
def nxtaskExit : Option (Kernel ν κ) :=
  s.thisTask.bind fun dtcb =>
    (nxschedRemoveSelf s dtcb).bind fun s =>
      s.thisTask.map fun rtcb => (s.setState rtcb .running).setState dtcb .invalid

end Functions

/-! ## The system -/

/-- What the running task, an interrupt or the timer does. -/
inductive SchedLabel (ν κ : Type)
  /-- A task is created, with its priority. -/
  | create (tcb : ν) (priority : UInt8)
  | activate (tcb : ν)
  | wait (sem : κ)
  | post (sem : κ)
  | semTimeout (tcb : ν)
  | sleep
  | sigTimeout (tcb : ν)
  | lock
  | unlock
  | setPriority (tcb : ν) (priority : ℤ)
  | yield
  /-- The time slice of the running task expires. -/
  | slice
  | exit

section Step

variable {ν κ : Type} [DecidableEq ν] [DecidableEq κ] [Fintype ν]

/-- `MAX_LOCK_COUNT`. -/
def maxLockCount : ℕ := 127

/-- The step that a label takes. -/
def SchedLabel.exec (s : Kernel ν κ) : SchedLabel ν κ → Option (Kernel ν κ)
  | create tcb priority => some (nxthreadSetupScheduler s tcb priority)
  | activate tcb => nxtaskActivate s tcb
  | wait sem => s.semWait sem
  | post sem => s.semPost sem
  | semTimeout tcb => s.semTimeout tcb
  | sleep => nxsigClockwait s
  | sigTimeout tcb => nxsigTimeout s tcb
  | lock => schedLock s
  | unlock => schedUnlock s
  | setPriority tcb priority => nxschedSetPriority s tcb priority
  | yield => schedYield s
  | slice => nxschedProcessRoundrobin s
  | exit => nxtaskExit s

/-- What the callers see to, and the assertions of the source state: a new task has a `tcb_s` of its
own and a priority from `SCHED_PRIORITY_MIN` on, the idle task does not block and keeps its
priority, and preemption is disabled `MAX_LOCK_COUNT` times at most and enabled as often as it was
disabled. -/
def SchedLabel.Enabled (idle : ν) (s : Kernel ν κ) : SchedLabel ν κ → Prop
  | create tcb priority => s.taskState tcb = .invalid ∧ 1 ≤ priority
  | activate tcb => s.taskState tcb = .inactive
  | wait sem => 0 < s.semcount sem ∨ s.thisTask ≠ some idle
  | sleep | exit => s.thisTask ≠ some idle
  | lock => ∀ rtcb, s.thisTask = some rtcb → s.lockcount rtcb < maxLockCount
  | unlock => ∀ rtcb, s.thisTask = some rtcb → 0 < s.lockcount rtcb
  | setPriority tcb _ => tcb ≠ idle ∧ s.taskState tcb ≠ .invalid
  | post _ | semTimeout _ | sigTimeout _ | yield | slice => True

instance (idle : ν) (s : Kernel ν κ) (l : SchedLabel ν κ) : Decidable (l.Enabled idle s) := by
  cases l <;> unfold SchedLabel.Enabled <;> infer_instance

/-- A post does not find the count at `SEM_VALUE_MAX`. -/
def PostBelowMax (s : Kernel ν κ) : SchedLabel ν κ → Prop
  | .post sem => s.semcount sem ≠ semValueMax
  | _ => True

instance (s : Kernel ν κ) (l : SchedLabel ν κ) : Decidable (PostBelowMax s l) := by
  cases l <;> unfold PostBelowMax <;> infer_instance

/-- **The kernel**, one step a label. -/
def kernel (idle : ν) (s : Kernel ν κ) (l : SchedLabel ν κ) : Option (Kernel ν κ) :=
  if l.Enabled idle s then l.exec s else none

/-- The kernel as `nx_start` sets it up: the idle task runs, with preemption disabled, and the
semaphores have their first counts. -/
def Kernel.init (idle : ν) (count : κ → UInt32) : Kernel ν κ where
  links := ⟨fun _ => none, fun _ => none⟩
  tasklist
    | .readytorun => ⟨some idle, some idle⟩
    | _ => ⟨none, none⟩
  taskState := Function.update (fun _ => .invalid) idle .running
  schedPriority _ := 0
  lockcount := Function.update (fun _ => 0) idle 1
  waitobj _ := none
  semval := count

end Step

end CameraPipeline
