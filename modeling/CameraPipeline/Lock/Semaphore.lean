import CameraPipeline.Sched.TaskLists
import Mathlib.Data.Nat.ModEq

/-!
# The kernel's semaphores

`nxsem_wait`, `nxsem_post`, `nxsem_init` and the mutex functions over them, for the board's
configuration: one CPU, no priority inheritance and no priority protection. A task may be preempted
between any two accesses of the semaphore, so the functions are given as one atomic action after
another; the program counter of a call holds its local variables. What a function does with
interrupts disabled is one action. A task that calls `nxsem_wait` has no signal pending: the exit
with `-EINTR` at the entry of `nxsem_wait_slow` is left to the callers that are modelled with it.

The count is a signed 32-bit number in the union with the holder word, and wraps: the fast path of
`nxsem_post` has no test against `SEM_VALUE_MAX`.

## Main definitions

* `Sem`: `sem_t`
* `WaitPc`, `nxsemWait`: the actions of `nxsem_wait`, with `nxsemWaitSlow` for the critical section
* `PostPc`, `nxsemPost`: the actions of `nxsem_post`, with `nxsemPostSlow` for the critical section
* `nxsemPostAlone`, `nxsemWaitIrq`: a whole post of a counting semaphore, and the end of a wait
* `Sem.Counted`: the count says how many tasks wait
* `InitPc`, `nxmutexInit`: the stores of `nxmutex_init`

## Main results

* `postFrom_start`: the actions of a post, with nothing in between, are `nxsemPostAlone`
* `Sem.Counted.post`, `Sem.Counted.wait`, `Sem.Counted.leave`: what keeps the count true
-/

namespace CameraPipeline

/-- `NXSEM_MBLOCKING_BIT`. -/
def nxsemMblockingBit : UInt32 := 0x80000000

/-- `NXSEM_NO_MHOLDER`. -/
def nxsemNoMholder : UInt32 := 0x7ffffffe

/-- `NXSEM_MRESET`. -/
def nxsemMreset : UInt32 := 0x7fffffff

/-- `NXSEM_MACQUIRED`. -/
def nxsemMacquired (h : UInt32) : Bool := h &&& nxsemNoMholder != nxsemNoMholder

/-- `NXSEM_MBLOCKING`. -/
def nxsemMblocking (h : UInt32) : Bool := h &&& nxsemMblockingBit != 0

/-- `SEM_TYPE_MUTEX`. -/
def semTypeMutex : UInt8 := 4

/-- `SEM_VALUE_MAX`. -/
def semValueMax : Int := 0x7fffffff

/-- `struct sem_s`: the union of `semcount` and `mholder`, the flags, and the wait list. -/
structure Sem (τ : Type) where
  val : UInt32
  flags : UInt8
  waitlist : List τ

/-- `semcount`, the union read as a signed number. -/
def semcount (val : UInt32) : Int := val.toInt32.toInt

variable {τ : Type}

/-- `NXSEM_IS_MUTEX`. -/
def Sem.isMutex (sem : Sem τ) : Bool := sem.flags &&& semTypeMutex != 0

/-- The blocking bit that goes with a wait list. -/
def blockingBit (waitlist : List τ) : UInt32 :=
  if waitlist.isEmpty then 0 else nxsemMblockingBit

@[simp] theorem blockingBit_nil : blockingBit ([] : List τ) = 0 := rfl

@[simp] theorem blockingBit_cons (t : τ) (q : List τ) :
    blockingBit (t :: q) = nxsemMblockingBit := rfl

/-- `atomic_set(NXSEM_MHOLDER(sem), tid | blocking_bit)`. -/
def Sem.setHolder (sem : Sem τ) (tid : UInt32) : Sem τ :=
  { sem with val := tid ||| blockingBit sem.waitlist }

/-! ## Waiting -/

/-- Where a call of `nxsem_wait` is. -/
inductive WaitPc
  /-- before the flags are read -/
  | start
  /-- at the `atomic_read` of the fast path -/
  | read (mutex : Bool)
  /-- at the compare-and-exchange of the fast path -/
  | cas (mutex : Bool) (old : UInt32)
  /-- at the entry of `nxsem_wait_slow`, before the flags are read again -/
  | slow
  /-- before the critical section -/
  | enter (mutex : Bool)
  /-- in `TSTATE_WAIT_SEM` -/
  | blocked (mutex : Bool)
  /-- made ready by a post, and about to return -/
  | resumed (mutex : Bool)
  deriving DecidableEq

section Wait

variable (getTcb : UInt32 → Bool) (tid : UInt32) (prio : τ → UInt8) (me : τ)

/-- The critical section of `nxsem_wait_slow`. The result is `none` when the call returns, and
otherwise where it waits. `getTcb` says which ids have a live task. On a mutex the caller sets the
blocking bit, by `atomic_fetch_or`; on a counting semaphore it lowers the count, which when negative
is the number of waiters. -/
def nxsemWaitSlow (sem : Sem τ) (mutex : Bool) : Sem τ × Option WaitPc :=
  if mutex then
    let mholder := sem.val
    let sem := { sem with val := mholder ||| nxsemMblockingBit }
    let held := nxsemMacquired mholder && getTcb (mholder &&& ~~~nxsemMblockingBit)
    if held then
      ({ sem with waitlist := insertTask prio me sem.waitlist }, some (.blocked mutex))
    else (sem.setHolder tid, none)
  else
    let count := sem.val
    let sem := { sem with val := count - 1 }
    if 0 < semcount count then (sem, none)
    else ({ sem with waitlist := insertTask prio me sem.waitlist }, some (.blocked mutex))

/-- One action of `nxsem_wait`, and of `nxmutex_lock`, which only calls it. There is none while the
task is blocked. -/
def nxsemWait (sem : Sem τ) : WaitPc → Option (Sem τ × Option WaitPc)
  | .start => some (sem, some (.read sem.isMutex))
  | .read mutex =>
    let old := sem.val
    let unavailable := if mutex then old != nxsemNoMholder else decide (semcount old < 1)
    some (sem, some (if unavailable then .slow else .cas mutex old))
  | .cas mutex old =>
    if sem.val = old then some ({ sem with val := if mutex then tid else old - 1 }, none)
    else some (sem, some (.read mutex))
  | .slow => some (sem, some (.enter sem.isMutex))
  | .enter mutex => some (nxsemWaitSlow getTcb tid prio me sem mutex)
  | .blocked _ => none
  | .resumed mutex => some (if mutex then sem.setHolder tid else sem, none)

variable {getTcb tid prio me} {sem : Sem τ}

theorem waitlist_nxsemWaitSlow (mutex : Bool) :
    (nxsemWaitSlow getTcb tid prio me sem mutex).1.waitlist = sem.waitlist ∨
      (nxsemWaitSlow getTcb tid prio me sem mutex).1.waitlist =
        insertTask prio me sem.waitlist := by
  cases mutex with
  | true =>
    simp only [nxsemWaitSlow, if_true]
    split
    · exact Or.inr rfl
    · exact Or.inl rfl
  | false =>
    simp only [nxsemWaitSlow, Bool.false_eq_true, if_false]
    split
    · exact Or.inl rfl
    · exact Or.inr rfl

/-- A wait puts nobody on the wait list but its caller. -/
theorem waitlist_nxsemWait {w : WaitPc} {r : Sem τ × Option WaitPc}
    (h : nxsemWait getTcb tid prio me sem w = some r) :
    r.1.waitlist = sem.waitlist ∨ r.1.waitlist = insertTask prio me sem.waitlist := by
  cases w with
  | start | slow | read => exact Or.inl (Option.some.inj h ▸ rfl)
  | cas mutex old =>
    rw [nxsemWait] at h
    split at h <;> exact Or.inl (Option.some.inj h ▸ rfl)
  | enter mutex => exact Option.some.inj h ▸ waitlist_nxsemWaitSlow mutex
  | blocked mutex => cases h
  | resumed mutex => cases mutex <;> exact Or.inl (Option.some.inj h ▸ rfl)

end Wait

/-! ## Posting -/

/-- Where a call of `nxsem_post` is. -/
inductive PostPc
  /-- before the flags are read -/
  | start
  /-- at the `atomic_read` of the fast path -/
  | read (mutex : Bool)
  /-- at the compare-and-exchange of the fast path -/
  | cas (mutex : Bool) (old : UInt32)
  /-- at the entry of `nxsem_post_slow`, before the flags are read again -/
  | slow
  /-- before the critical section -/
  | enter (mutex : Bool)
  deriving DecidableEq

section Post

variable (pid : τ → UInt32)

/-- `dq_remfirst` of the wait list, with the mutex handed to the task removed. -/
def wakeFirst (sem : Sem τ) (mutex : Bool) : Sem τ × Option τ :=
  match sem.waitlist with
  | [] => (sem, none)
  | stcb :: rest =>
    let sem := { sem with waitlist := rest }
    (if mutex then sem.setHolder (pid stcb) else sem, some stcb)

/-- The critical section of `nxsem_post_slow`, and the task it makes ready. On a mutex the blocking
bit is set, by `atomic_fetch_or`, and tells whether somebody waits; a counting semaphore at
`SEM_VALUE_MAX` is left alone, and the call returns `-EOVERFLOW`. -/
def nxsemPostSlow (sem : Sem τ) (mutex : Bool) : Sem τ × Option τ :=
  if mutex then
    let mholder := sem.val
    let sem := { sem with val := mholder ||| nxsemMblockingBit }
    if nxsemMblocking mholder then wakeFirst pid sem mutex
    else ({ sem with val := if mholder ≠ nxsemMreset then nxsemNoMholder else mholder }, none)
  else if semValueMax ≤ semcount sem.val then
    (sem, none)
  else
    let semCount := semcount sem.val
    let sem := { sem with val := sem.val + 1 }
    if semCount < 0 then wakeFirst pid sem mutex else (sem, none)

/-- One action of `nxsem_post`, and of `nxmutex_unlock`, which only calls it: the semaphore, the
task made ready, and where the call is, `none` when it returns. -/
def nxsemPost (sem : Sem τ) : PostPc → Sem τ × Option τ × Option PostPc
  | .start => (sem, none, some (.read sem.isMutex))
  | .read mutex =>
    let old := sem.val
    let blocking := if mutex then nxsemMblocking old else decide (semcount old < 0)
    (sem, none, some (if blocking then .slow else .cas mutex old))
  | .cas mutex old =>
    if sem.val = old then
      ({ sem with val := if mutex then nxsemNoMholder else old + 1 }, none, none)
    else (sem, none, some (.read mutex))
  | .slow => (sem, none, some (.enter sem.isMutex))
  | .enter mutex =>
    let r := nxsemPostSlow pid sem mutex
    (r.1, r.2, none)

/-- `nxsem_post` on a counting semaphore that nobody else accesses during the call: the semaphore,
and the task made ready. -/
def nxsemPostAlone (sem : Sem τ) : Sem τ × Option τ :=
  let sem' := { sem with val := sem.val + 1 }
  if semcount sem.val < 0 then wakeFirst pid sem' false else (sem', none)

/-- The actions of a call of `nxsem_post` from here on, with nothing in between. -/
def postFrom : ℕ → Sem τ → PostPc → Option (Sem τ × Option τ)
  | 0, _, _ => none
  | n + 1, sem, p =>
    let r := nxsemPost pid sem p
    match r.2.2 with
    | none => some (r.1, r.2.1)
    | some p => postFrom n r.1 p

/-- **The actions of a post**, with nothing in between: the slow path is taken with a negative count
only, so that its test against `SEM_VALUE_MAX` never fails. -/
theorem postFrom_start {sem : Sem τ} (h : sem.isMutex = false) :
    postFrom pid 4 sem .start = some (nxsemPostAlone pid sem) := by
  by_cases hneg : semcount sem.val < 0
  · have hmax : ¬ semValueMax ≤ semcount sem.val := by
      rw [semValueMax]
      omega
    simp [postFrom, nxsemPost, nxsemPostSlow, nxsemPostAlone, h, hneg, hmax]
  · simp [postFrom, nxsemPost, nxsemPostAlone, h, hneg]

theorem waitlist_wakeFirst (sem : Sem τ) (mutex : Bool) :
    sem.waitlist = (wakeFirst pid sem mutex).2.toList ++ (wakeFirst pid sem mutex).1.waitlist := by
  unfold wakeFirst
  split
  · rename_i h
    rw [h]
    rfl
  · rename_i stcb rest h
    cases mutex <;> exact h

/-- A post takes from the wait list the task it makes ready, and leaves the others there. -/
theorem waitlist_nxsemPost (sem : Sem τ) (p : PostPc) :
    sem.waitlist = (nxsemPost pid sem p).2.1.toList ++ (nxsemPost pid sem p).1.waitlist := by
  cases p with
  | start | slow | read => rfl
  | cas mutex old =>
    rw [nxsemPost]
    split <;> rfl
  | enter mutex =>
    show sem.waitlist =
      (nxsemPostSlow pid sem mutex).2.toList ++ (nxsemPostSlow pid sem mutex).1.waitlist
    unfold nxsemPostSlow
    dsimp only
    split_ifs
    · exact waitlist_wakeFirst pid { sem with val := sem.val ||| nxsemMblockingBit } mutex
    · rfl
    · rfl
    · rfl
    · exact waitlist_wakeFirst pid { sem with val := sem.val + 1 } mutex
    · rfl

end Post

/-! ## The end of a wait -/

/-- `nxsem_wait_irq`: task `t` is taken off the wait list of a semaphore. -/
def nxsemWaitIrq [DecidableEq τ] (sem : Sem τ) (t : τ) : Sem τ :=
  { sem with val := sem.val + 1, waitlist := sem.waitlist.erase t }

/-! ## The count of the waiters -/

theorem semcount_add_one {val : UInt32} (h : semcount val ≠ semValueMax) :
    semcount (val + 1) = semcount val + 1 := by
  have hlt := val.toInt32.toInt_lt
  have hge := val.toInt32.le_toInt
  have hone : (1 : UInt32).toInt32.toInt = 1 := by decide
  simp only [semcount, semValueMax] at h ⊢
  rw [UInt32.toInt32_add, Int32.toInt_add, hone]
  exact Int.bmod_eq_of_le (by omega) (by omega)

theorem semcount_sub_one {val : UInt32} (h : -0x80000000 < semcount val) :
    semcount (val - 1) = semcount val - 1 := by
  have hlt := val.toInt32.toInt_lt
  have hone : (1 : UInt32).toInt32.toInt = 1 := by decide
  simp only [semcount] at h ⊢
  rw [UInt32.toInt32_sub, Int32.toInt_sub, hone]
  exact Int.bmod_eq_of_le (by omega) (by omega)

/-- **The count says how many tasks wait**: none while it is not negative, and as many as it is
below zero. -/
def Sem.Counted (sem : Sem τ) : Prop :=
  (sem.waitlist.length : ℤ) = max 0 (-semcount sem.val)

section Counted

variable {sem : Sem τ}

theorem Sem.Counted.post (h : sem.Counted) (pid : τ → UInt32)
    (hmax : semcount sem.val ≠ semValueMax) : (nxsemPostAlone pid sem).1.Counted := by
  have hadd := semcount_add_one hmax
  rw [Sem.Counted] at h
  by_cases hneg : semcount sem.val < 0
  · rw [nxsemPostAlone, if_pos hneg, wakeFirst]
    cases hw : sem.waitlist with
    | nil =>
      rw [hw, List.length_nil] at h
      omega
    | cons stcb rest =>
      rw [hw, List.length_cons] at h
      simp only [Sem.Counted, Bool.false_eq_true, if_false, hadd]
      omega
  · rw [nxsemPostAlone, if_neg hneg]
    simp only [Sem.Counted, hadd]
    omega

theorem Sem.Counted.wait (h : sem.Counted) {getTcb : UInt32 → Bool} {tid : UInt32}
    {prio : τ → UInt8} {me : τ} (hlen : sem.waitlist.length < 0x80000000) :
    (nxsemWaitSlow getTcb tid prio me sem false).1.Counted := by
  rw [Sem.Counted] at h
  have hlow : -0x80000000 < semcount sem.val := by omega
  have hsub := semcount_sub_one hlow
  simp only [nxsemWaitSlow, Bool.false_eq_true, if_false]
  split
  · simp only [Sem.Counted, hsub]
    omega
  · simp only [Sem.Counted, hsub, insertTask, List.orderedInsert_length]
    omega

/-- A task that stops waiting gives back what it took from the count. -/
theorem Sem.Counted.leave (h : sem.Counted) [DecidableEq τ] {t : τ} (ht : t ∈ sem.waitlist) :
    (nxsemWaitIrq sem t).Counted := by
  have hpos := List.length_pos_of_mem ht
  rw [Sem.Counted] at h
  have hmax : semcount sem.val ≠ semValueMax := by
    rw [semValueMax]
    omega
  have hadd := semcount_add_one hmax
  simp only [Sem.Counted, nxsemWaitIrq, hadd, List.length_erase_of_mem ht]
  omega

end Counted

/-! ## Initialisation -/

/-- The store of `nxmutex_init` that comes next. -/
inductive InitPc
  | semcount
  | waitlist
  | flags
  | protocol
  deriving DecidableEq

/-- One store of `nxmutex_init`: the three of `nxsem_init(&mutex->sem, 0, NXSEM_NO_MHOLDER)`, and
the one of `nxsem_set_protocol(&mutex->sem, SEM_TYPE_MUTEX)`. -/
def nxmutexInit (sem : Sem τ) : InitPc → Sem τ × Option InitPc
  | .semcount => ({ sem with val := nxsemNoMholder }, some .waitlist)
  | .waitlist => ({ sem with waitlist := [] }, some .flags)
  | .flags => ({ sem with flags := 0 }, some .protocol)
  | .protocol => ({ sem with flags := semTypeMutex }, none)

end CameraPipeline
