import CameraPipeline.Lock.Semaphore
import CameraPipeline.Systems.Handoff

/-!
# The kernel's mutex is handed over

An initialised mutex encodes a lock that is handed over: the holder word encodes the owner and
whether somebody is queued, and the wait list is the queue. Every action of `nxmutex_lock` and
`nxmutex_unlock` on such a mutex gives one again, in which the caller has the role that its program
counter says, whatever was done to the mutex between its actions.

## Main definitions

* `Encodes pid sem m`: the semaphore encodes the lock `m`
* `WaitPc.role`, `WaitPc.Sound`, `PostPc.Sound`: what the program counters stand for
* `WaitKeeps`: what an action of `nxmutex_lock` leaves

## Main results

* `nxsemWait_encodes`: the actions of `nxmutex_lock`
* `nxsemPost_encodes`: the actions of `nxmutex_unlock`
* `nxsemPostSlow_eq_release`: the critical section of a post releases the lock
-/

namespace CameraPipeline

open Systems

/-! ## The holder word -/

theorem or_and_eq (a b c : UInt32) : (a ||| b) &&& c = (a &&& c) ||| (b &&& c) := by
  rw [← UInt32.toNat_inj]
  simp only [UInt32.toNat_and, UInt32.toNat_or]
  exact Nat.and_or_distrib_right _ _ _

section Word

variable {τ : Type} {p : UInt32} (hp : p < nxsemNoMholder) (q : List τ)

include hp

theorem and_not_bit_eq : p &&& ~~~nxsemMblockingBit = p := by
  have hlt : p.toNat < 0x7ffffffe := UInt32.lt_iff_toNat_lt.mp hp
  rw [← UInt32.toNat_inj, UInt32.toNat_and]
  show p.toNat &&& (2 ^ 31 - 1) = p.toNat
  rw [Nat.and_two_pow_sub_one_eq_mod, Nat.mod_eq_of_lt (by omega)]

theorem and_bit_eq : p &&& nxsemMblockingBit = 0 := by
  rw [← and_not_bit_eq hp, UInt32.and_assoc]
  exact UInt32.and_zero

/-- The word with its blocking bit cleared is the id of the owner. -/
theorem word_and_not_bit : (p ||| blockingBit q) &&& ~~~nxsemMblockingBit = p := by
  have hbit : blockingBit q &&& ~~~nxsemMblockingBit = 0 := by
    cases q with
    | nil => rw [blockingBit_nil]; decide
    | cons t q => rw [blockingBit_cons]; decide
  rw [or_and_eq, and_not_bit_eq hp, hbit, UInt32.or_zero]

/-- The blocking bit says whether somebody is queued. -/
theorem mblocking_word : nxsemMblocking (p ||| blockingBit q) = !q.isEmpty := by
  rw [nxsemMblocking, or_and_eq, and_bit_eq hp]
  cases q with
  | nil => rw [blockingBit_nil, List.isEmpty_nil]; decide
  | cons t q => rw [blockingBit_cons, List.isEmpty_cons]; decide

theorem macquired_word : nxsemMacquired (p ||| blockingBit q) = true := by
  have hlt : p.toNat < 0x7ffffffe := UInt32.lt_iff_toNat_lt.mp hp
  have hbit : blockingBit q &&& nxsemNoMholder = 0 := by
    cases q with
    | nil => rw [blockingBit_nil]; decide
    | cons t q => rw [blockingBit_cons]; decide
  have hne : p &&& nxsemNoMholder ≠ nxsemNoMholder := by
    intro he
    have hnat := congrArg UInt32.toNat he
    rw [UInt32.toNat_and] at hnat
    have hle : p.toNat &&& nxsemNoMholder.toNat ≤ p.toNat := Nat.and_le_left
    have hno : nxsemNoMholder.toNat = 0x7ffffffe := rfl
    omega
  rw [nxsemMacquired, or_and_eq, hbit, UInt32.or_zero]
  exact bne_iff_ne.mpr hne

theorem word_ne_noMholder : p ||| blockingBit q ≠ nxsemNoMholder := by
  intro h
  have hacq := macquired_word hp q
  rw [h] at hacq
  cases hacq

theorem word_ne_mreset : p ||| blockingBit q ≠ nxsemMreset := by
  intro h
  have hacq := macquired_word hp q
  rw [h] at hacq
  cases hacq

omit hp in
theorem word_or_bit : p ||| blockingBit q ||| nxsemMblockingBit = p ||| nxsemMblockingBit := by
  rw [UInt32.or_assoc]
  cases q with
  | nil => rw [blockingBit_nil, UInt32.zero_or]
  | cons t q => rw [blockingBit_cons, UInt32.or_self]

end Word

/-! ## The lock a mutex encodes -/

/-- The role of a task inside a call of `nxmutex_lock`. A task made ready already holds the lock. -/
def WaitPc.role : WaitPc → Role
  | .blocked _ => .waiting
  | .resumed _ => .holding
  | _ => .out

/-- The local variables of a call of `nxmutex_lock` are those of a mutex. -/
def WaitPc.Sound : WaitPc → Prop
  | .start | .slow => True
  | .read mutex | .enter mutex | .blocked mutex | .resumed mutex => mutex = true
  | .cas mutex old => mutex = true ∧ old = nxsemNoMholder

/-- The local variables of a call of `nxmutex_unlock` are those of a mutex. -/
def PostPc.Sound : PostPc → Prop
  | .start | .slow => True
  | .read mutex | .enter mutex => mutex = true
  | .cas mutex old => mutex = true ∧ nxsemMblocking old = false

/-- The actions from here to the end of `nxmutex_unlock`, when somebody is queued. -/
def PostPc.steps : PostPc → ℕ
  | .start | .cas _ _ => 4
  | .read _ => 3
  | .slow => 2
  | .enter _ => 1

section Encodes

variable {τ : Type} (pid : τ → UInt32)

/-- The holder word of a lock with this owner and queue. -/
def holderWord (queue : List τ) : Option τ → UInt32
  | none => nxsemNoMholder
  | some u => pid u ||| blockingBit queue

/-- **The semaphore encodes the lock `m`**. -/
structure Encodes (sem : Sem τ) (m : Handoff τ) : Prop where
  flags : sem.flags = semTypeMutex
  waitlist : sem.waitlist = m.queue
  val : sem.val = holderWord pid m.queue m.owner

variable {pid} {sem : Sem τ} {m : Handoff τ} {me : τ}

theorem Encodes.isMutex (h : Encodes pid sem m) : sem.isMutex = true := by
  rw [Sem.isMutex, h.flags]
  decide

theorem Encodes.val_of_owner (h : Encodes pid sem m) {u : τ} (hu : m.owner = some u) :
    sem.val = pid u ||| blockingBit m.queue := by
  rw [h.val, hu]
  rfl

theorem encodes_free {sem : Sem τ} (hf : sem.flags = semTypeMutex)
    (hv : sem.val = nxsemNoMholder) (hq : sem.waitlist = []) :
    Encodes pid sem Handoff.free :=
  ⟨hf, hq, hv⟩

variable (hpid : ∀ t, pid t < nxsemNoMholder)

include hpid

theorem Encodes.owner_eq_none (h : Encodes pid sem m) (hv : sem.val = nxsemNoMholder) :
    m.owner = none := by
  cases hu : m.owner with
  | none => rfl
  | some u => exact absurd ((h.val_of_owner hu).symm.trans hv) (word_ne_noMholder (hpid u) _)

/-- Taking the mutex that has no owner. -/
theorem Encodes.takenBy (h : Encodes pid sem m) (hv : sem.val = nxsemNoMholder) :
    Encodes pid { sem with val := pid me } (Handoff.takenBy me) := by
  have hm := Handoff.eq_free (h.owner_eq_none hpid hv)
  refine ⟨h.flags, ?_, UInt32.or_zero.symm⟩
  rw [show (Handoff.takenBy me).queue = [] from rfl, h.waitlist, hm]
  rfl

variable [DecidableEq τ]

omit hpid in
/-- The owner stores the word that the mutex already has. -/
theorem Encodes.setHolder (h : Encodes pid sem m) (hme : m.role me = .holding) :
    Encodes pid (sem.setHolder (pid me)) m := by
  refine ⟨h.flags, h.waitlist, ?_⟩
  rw [Handoff.role_eq_holding.mp hme, ← h.waitlist]
  rfl

/-- The critical section of a wait: the caller takes the mutex, or is queued behind its owner. -/
theorem nxsemWaitSlow_encodes {getTcb : UInt32 → Bool} {prio : τ → UInt8} (h : Encodes pid sem m)
    (hout : m.role me = .out) (hlive : ∀ u, m.owner = some u → getTcb (pid u) = true) :
    (m.owner = none ∧ (nxsemWaitSlow getTcb (pid me) prio me sem true).2 = none ∧
      Encodes pid (nxsemWaitSlow getTcb (pid me) prio me sem true).1 (Handoff.takenBy me)) ∨
    ∃ howned : m.owner ≠ none,
      (nxsemWaitSlow getTcb (pid me) prio me sem true).2 = some (.blocked true) ∧
      Encodes pid (nxsemWaitSlow getTcb (pid me) prio me sem true).1
        (m.enqueue me (insertTask prio me m.queue) (perm_insertTask me m.queue) howned hout) := by
  by_cases ho : m.owner = none
  · have hm := Handoff.eq_free ho
    have hv : sem.val = nxsemNoMholder := by rw [h.val, hm]; rfl
    have hq : sem.waitlist = [] := by rw [h.waitlist, hm]; rfl
    have hacq : nxsemMacquired nxsemNoMholder = false := by decide
    refine Or.inl ⟨ho, ?_⟩
    simp only [nxsemWaitSlow, if_true, hv, hacq, Bool.false_and, Bool.false_eq_true, if_false]
    refine ⟨trivial, h.flags, hq, ?_⟩
    simp only [Sem.setHolder, hq]
    rfl
  · obtain ⟨u, hu⟩ := Option.ne_none_iff_exists'.mp ho
    have hv := h.val_of_owner hu
    have hheld : (nxsemMacquired sem.val && getTcb (sem.val &&& ~~~nxsemMblockingBit)) = true := by
      rw [hv, macquired_word (hpid u), word_and_not_bit (hpid u), hlive u hu]
      rfl
    refine Or.inr ⟨ho, ?_⟩
    simp only [nxsemWaitSlow, if_true, hheld]
    refine ⟨trivial, h.flags, congrArg (insertTask prio me) h.waitlist, ?_⟩
    have hbit : blockingBit (insertTask prio me m.queue) = nxsemMblockingBit := by
      have hme : me ∈ insertTask prio me m.queue := mem_insertTask.mpr (.inl rfl)
      obtain ⟨v, q, hq⟩ := List.exists_cons_of_ne_nil (List.ne_nil_of_mem hme)
      rw [hq, blockingBit_cons]
    rw [Handoff.owner_enqueue, Handoff.queue_enqueue, hu, holderWord, hbit, hv, word_or_bit]

omit hpid in
/-- An action of `nxmutex_lock` leaves a mutex in which the caller has the role of its program
counter, that of a holder when the call returns, and nobody else's role has changed. -/
def WaitKeeps (pid : τ → UInt32) (m : Handoff τ) (me : τ) (r : Sem τ × Option WaitPc) : Prop :=
  (∀ w, r.2 = some w → w.Sound) ∧
    ∃ m', Encodes pid r.1 m' ∧ r.2.elim .holding WaitPc.role = m'.role me ∧
      ∀ u, u ≠ me → m'.role u = m.role u

omit hpid in
theorem waitKeeps_silent (h : Encodes pid sem m) {w : WaitPc} (hw : w.Sound)
    (hrole : w.role = m.role me) : WaitKeeps pid m me (sem, some w) :=
  ⟨fun _ h₁ => Option.some.inj h₁ ▸ hw, m, h, hrole, fun _ _ => rfl⟩

omit hpid in
theorem waitKeeps_returned (h : Encodes pid sem m) (hme : m.role me = .holding) :
    WaitKeeps pid m me (sem, none) :=
  ⟨nofun, m, h, hme.symm, fun _ _ => rfl⟩

omit hpid in
theorem waitKeeps_takenBy {r : Sem τ × Option WaitPc} (ho : m.owner = none) (hr : r.2 = none)
    (h : Encodes pid r.1 (Handoff.takenBy me)) : WaitKeeps pid m me r := by
  rw [WaitKeeps, hr]
  refine ⟨nofun, _, h, (Handoff.role_takenBy_self me).symm, fun u hu => ?_⟩
  rw [Handoff.role_takenBy_of_ne hu, Handoff.eq_free ho, Handoff.role_free]

/-- **Every action of `nxmutex_lock`** on a mutex gives a mutex in which the caller has the role of
its program counter, and nobody else's role has changed. -/
theorem nxsemWait_encodes {getTcb : UInt32 → Bool} {prio : τ → UInt8} {w : WaitPc}
    {r : Sem τ × Option WaitPc} (h : Encodes pid sem m) (hw : w.Sound) (hrole : w.role = m.role me)
    (hlive : ∀ u, m.owner = some u → getTcb (pid u) = true)
    (hr : nxsemWait getTcb (pid me) prio me sem w = some r) : WaitKeeps pid m me r := by
  cases w with
  | start => exact Option.some.inj hr ▸ waitKeeps_silent h h.isMutex hrole
  | slow => exact Option.some.inj hr ▸ waitKeeps_silent h h.isMutex hrole
  | read mutex =>
    obtain rfl : mutex = true := hw
    obtain rfl := Option.some.inj hr
    by_cases hv : sem.val = nxsemNoMholder
    · simp only [if_true, hv, bne_self_eq_false, Bool.false_eq_true, if_false]
      exact waitKeeps_silent h ⟨rfl, rfl⟩ hrole
    · simp only [if_true, bne_iff_ne.mpr hv]
      exact waitKeeps_silent h trivial hrole
  | cas mutex old =>
    obtain ⟨rfl, rfl⟩ := hw
    rw [nxsemWait] at hr
    split at hr
    · rename_i hv
      exact Option.some.inj hr ▸
        waitKeeps_takenBy (h.owner_eq_none hpid hv) rfl (h.takenBy hpid hv)
    · exact Option.some.inj hr ▸ waitKeeps_silent h (w := .read true) rfl hrole
  | enter mutex =>
    obtain rfl : mutex = true := hw
    obtain rfl := Option.some.inj hr
    rcases nxsemWaitSlow_encodes hpid h hrole.symm hlive with ⟨ho, hnone, hrep⟩ |
      ⟨howned, hsome, hrep⟩
    · exact waitKeeps_takenBy ho hnone hrep
    · refine ⟨fun w' hw' => ?_, _, hrep, ?_, fun u hu => ?_⟩
      · exact Option.some.inj (hsome.symm.trans hw') ▸ rfl
      · rw [hsome]
        exact (Handoff.role_enqueue_self _ howned hrole.symm).symm
      · exact Handoff.role_enqueue_of_ne _ howned hrole.symm hu
  | blocked mutex => cases hr
  | resumed mutex =>
    obtain rfl : mutex = true := hw
    obtain rfl := Option.some.inj hr
    exact waitKeeps_returned (h.setHolder hrole.symm) hrole.symm

theorem Encodes.mblocking (h : Encodes pid sem m) (hme : m.role me = .holding) :
    nxsemMblocking sem.val = !m.queue.isEmpty := by
  rw [h.val_of_owner (Handoff.role_eq_holding.mp hme), mblocking_word (hpid me)]

/-- **The critical section of a post releases the lock**: the first of the queue is made ready, and
is the new owner. -/
theorem nxsemPostSlow_eq_release (h : Encodes pid sem m) (hme : m.role me = .holding) :
    (nxsemPostSlow pid sem true).2 = m.queue.head? ∧
      Encodes pid (nxsemPostSlow pid sem true).1 m.release := by
  have hv := h.val_of_owner (Handoff.role_eq_holding.mp hme)
  have hblock := h.mblocking hpid hme
  cases hq : m.queue with
  | nil =>
    have hreset : sem.val ≠ nxsemMreset := by rw [hv]; exact word_ne_mreset (hpid me) _
    rw [hq] at hblock
    simp only [nxsemPostSlow, if_true, hblock, List.isEmpty_nil, Bool.not_true,
      Bool.false_eq_true, if_false, ne_eq, hreset, not_false_eq_true]
    refine ⟨rfl, h.flags, h.waitlist.trans ?_, ?_⟩
    · rw [Handoff.queue_release, hq]; rfl
    · rw [Handoff.queue_release, Handoff.owner_release, hq]; rfl
  | cons u rest =>
    rw [hq] at hblock
    have hlist := h.waitlist.trans hq
    simp only [nxsemPostSlow, if_true, hblock, List.isEmpty_cons, Bool.not_false, wakeFirst, hlist]
    refine ⟨rfl, h.flags, ?_, ?_⟩
    · rw [Handoff.queue_release, hq]; rfl
    · rw [Handoff.queue_release, Handoff.owner_release, hq]; rfl

/-- **Every action of `nxmutex_unlock`** by the owner leaves the lock alone, or ends the call and
releases the lock. -/
theorem nxsemPost_encodes {p : PostPc} (h : Encodes pid sem m) (hp : p.Sound)
    (hme : m.role me = .holding) :
    (∃ p', (nxsemPost pid sem p).2 = (none, some p') ∧ p'.Sound ∧
      Encodes pid (nxsemPost pid sem p).1 m) ∨
    ((nxsemPost pid sem p).2 = (m.queue.head?, none) ∧
      Encodes pid (nxsemPost pid sem p).1 m.release) := by
  cases p with
  | start => exact Or.inl ⟨_, rfl, h.isMutex, h⟩
  | slow => exact Or.inl ⟨_, rfl, h.isMutex, h⟩
  | read mutex =>
    obtain rfl : mutex = true := hp
    refine Or.inl ⟨_, rfl, ?_, h⟩
    cases hb : nxsemMblocking sem.val with
    | true => simp [PostPc.Sound]
    | false => simp [hb, PostPc.Sound]
  | cas mutex old =>
    obtain ⟨rfl, hold⟩ := hp
    rw [nxsemPost]
    split
    · -- nobody has queued since the word was read
      rename_i he
      rw [← he, h.mblocking hpid hme, Bool.not_eq_false', List.isEmpty_iff] at hold
      refine Or.inr ⟨by rw [hold]; rfl, h.flags, ?_, ?_⟩
      · rw [Handoff.queue_release, hold]
        exact h.waitlist.trans hold
      · rw [Handoff.queue_release, Handoff.owner_release, hold]; rfl
    · exact Or.inl ⟨_, rfl, rfl, h⟩
  | enter mutex =>
    obtain rfl : mutex = true := hp
    obtain ⟨hwoken, hrep⟩ := nxsemPostSlow_eq_release hpid h hme
    exact Or.inr ⟨by rw [← hwoken]; rfl, hrep⟩

omit hpid [DecidableEq τ] in
/-- While somebody is queued, an action of `nxmutex_unlock` ends the call or brings it nearer to the
critical section. -/
theorem nxsemPost_steps_lt {p p' : PostPc} (hp : p.Sound) (hb : nxsemMblocking sem.val = true)
    (h : (nxsemPost pid sem p).2.2 = some p') : p'.steps < p.steps := by
  cases p with
  | start => exact Option.some.inj h ▸ Nat.lt_succ_self 3
  | slow => exact Option.some.inj h ▸ Nat.lt_succ_self 1
  | read mutex =>
    obtain rfl : mutex = true := hp
    rw [nxsemPost] at h
    simp only [if_true, hb] at h
    exact Option.some.inj h ▸ Nat.lt_succ_self 2
  | cas mutex old =>
    rw [nxsemPost] at h
    split at h
    · cases h
    · exact Option.some.inj h ▸ Nat.lt_succ_self 3
  | enter mutex => cases h

end Encodes

end CameraPipeline
