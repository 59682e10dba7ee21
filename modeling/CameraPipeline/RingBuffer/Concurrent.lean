import CameraPipeline.RingBuffer.Queue
import CameraPipeline.Lock.Guard
import CameraPipeline.Lock.Launch
import CameraPipeline.Systems.Atomic

/-!
# The ring buffer under its lock

`ring_buffer.c` as the tasks run it when `rb_init` has returned: a call of `rb_write`, `rb_read`,
`rb_count`, `rb_full` or `rb_empty` takes `g_rb_lock`, reads and writes the fields of `g_rb` one
access after another, copies its chunk cell by cell, and unlocks. A task may be preempted between
any two accesses, so that another task may find a chunk copied in part, or a pointer advanced and
the count not. The calls are linearizable all the same: whatever the interleaving, the calls and
returns are those of a bounded queue on which every call takes effect at one moment.

Three things would break the lock and do not happen here. Nobody calls `rb_init` again, which takes
no lock and empties the wait list; `Lock.Launch` and `Pipeline.Captures` have what comes of that. No
task exits. And no task has a signal pending at `nxmutex_lock`, whose `-EINTR` the calls ignore. The
tasks may have any priorities, as long as these do not change.

## Main definitions

* `Memcpy α`: a type whose values `memcpy` copies cell by cell
* `Access`, `mem`: the accesses of `g_rb`, and what they do
* `RbCall.body`: what an API call does between `nxmutex_lock` and `nxmutex_unlock`
* `Shared`, `shared ids`: the tasks, the lock and the ring, as a labelled automaton

## Main results

* `finishes_body`: the body of a call, run alone, does what the call does in one step
* `simulates_step`: the atomic queue follows every step of the tasks
* `ring_linearizable`: the calls are linearizable, for any number of tasks
-/

namespace CameraPipeline

open Data Systems

/-! ## Chunks in memory -/

/-- A type whose values `memcpy` copies in `cells` stores; `copy k src dst` is `dst` with cell `k`
of `src`. -/
class Memcpy (α : Type) where
  cells : ℕ
  copy : ℕ → α → α → α
  copy_all : ∀ src dst, (List.range cells).foldl (fun d k => copy k src d) dst = src

/-- The cells of a chunk: the payload bytes, and the four fields behind them. -/
def ImageChunk.copy {C : ℕ} (k : ℕ) (src dst : ImageChunk C) : ImageChunk C :=
  if k < C then { dst with data := dst.data.store k (src.data.byte k) }
  else if k = C then { dst with len := src.len }
  else if k = C + 1 then { dst with frameId := src.frameId }
  else if k = C + 2 then { dst with isLast := src.isLast }
  else { dst with isMeta := src.isMeta }

/-- The payload bytes alone. -/
theorem ImageChunk.copy_data {C : ℕ} (src dst : ImageChunk C) (n : ℕ) (hn : n ≤ C) :
    (List.range n).foldl (fun d k => ImageChunk.copy k src d) dst =
      { dst with data := dst.data.blit 0 src.data.byte n } := by
  induction n with
  | zero => rw [Buf.blit_nil]; rfl
  | succ n ih =>
    rw [List.range_succ, List.foldl_append, ih (by omega), List.foldl_cons, List.foldl_nil,
      ImageChunk.copy, if_pos (by omega)]
    have hadd := Buf.blit_add dst.data 0 src.data.byte n 1
    rw [← Buf.store_eq_blit _ _ fun j => src.data.byte (n + j), Nat.zero_add, Nat.add_zero] at hadd
    simp only [hadd]

instance (C : ℕ) : Memcpy (ImageChunk C) where
  cells := C + 4
  copy := ImageChunk.copy
  copy_all src dst := by
    have hdata : dst.data.blit 0 src.data.byte C = src.data := by
      refine Buf.ext_byte fun i hi => ?_
      rw [Buf.byte_blit _ (by omega), if_pos (by omega), Nat.sub_zero]
    have hlt : ∀ k, ¬ C + k < C := fun k => by omega
    rw [List.range_add, List.foldl_append, ImageChunk.copy_data _ _ _ le_rfl, hdata]
    simp [List.range_succ, ImageChunk.copy, hlt]

/-! ## The accesses of `g_rb` -/

/-- The fields of `g_rb` but the slots. -/
inductive RbField
  | wrPtr
  | rdPtr
  | count

/-- One access of `g_rb`: a field loaded or stored, or one cell of a slot copied. -/
inductive Access (α : Type) (D : ℕ)
  | load (f : RbField)
  | store (f : RbField) (v : UInt32)
  /-- cell `k` of `c` is stored to slot `i` -/
  | copyIn (i : Fin D) (k : ℕ) (c : α)
  /-- cell `k` of slot `i` is loaded into `c` -/
  | copyOut (i : Fin D) (k : ℕ) (c : α)

/-- What an access gives back. -/
def Access.Resp {α : Type} {D : ℕ} : Access α D → Type
  | .load _ => UInt32
  | .store _ _ | .copyIn _ _ _ => Unit
  | .copyOut _ _ _ => α

/-- Code that runs inside the lock. -/
abbrev Body (α : Type) (D : ℕ) := Prog (Access.Resp (α := α) (D := D)) Empty

section Memory

variable {α : Type} {D : ℕ}

/-- A field of `g_rb`. -/
def RingBuffer.get (rb : RingBuffer α D) : RbField → UInt32
  | .wrPtr => rb.wrPtr
  | .rdPtr => rb.rdPtr
  | .count => rb.count

/-- A store to a field of `g_rb`. -/
def RingBuffer.set (rb : RingBuffer α D) (f : RbField) (v : UInt32) : RingBuffer α D :=
  match f with
  | .wrPtr => { rb with wrPtr := v }
  | .rdPtr => { rb with rdPtr := v }
  | .count => { rb with count := v }

/-- A store to a slot. -/
def RingBuffer.setSlot (rb : RingBuffer α D) (i : Fin D) (c : α) : RingBuffer α D :=
  { rb with slots := Function.update rb.slots i c }

/-- What an access does to `g_rb`. -/
def mem [inst : Memcpy α] (rb : RingBuffer α D) :
    (c : Access α D) → Option (c.Resp × RingBuffer α D)
  | .load f => some (rb.get f, rb)
  | .store f v => some ((), rb.set f v)
  | .copyIn i k c =>
    some ((), rb.setSlot i (inst.copy k c (rb.slots i)))
  | .copyOut i k c => some (inst.copy k (rb.slots i) c, rb)

/-- A load of a field. -/
def load (f : RbField) : Body α D UInt32 := Prog.once (Access.load f)

/-- A store to a field. -/
def store (f : RbField) (v : UInt32) : Body α D Unit := Prog.once (Access.store f v)

/-- `memcpy(&g_rb.slots[i], c, sizeof(*c))`, from the first of the cells `ks` on. -/
def memcpyIn (i : Fin D) (c : α) : List ℕ → Body α D Unit
  | [] => pure ()
  | k :: ks => (Prog.once (Access.copyIn i k c) : Body α D Unit) >>= fun _ => memcpyIn i c ks

/-- `memcpy(c, &g_rb.slots[i], sizeof(*c))`, from the first of the cells `ks` on. -/
def memcpyOut (i : Fin D) : List ℕ → α → Body α D α
  | [], c => pure c
  | k :: ks, c => (Prog.once (Access.copyOut i k c) : Body α D α) >>= memcpyOut i ks

end Memory

section Bodies

variable {α : Type} {D : ℕ} [NeZero D] [Memcpy α]

/-- `rb_write` between the lock and the unlock; `wr_ptr++` and `count++` each load and store. -/
def rbWriteBody (c : α) : Body α D (RbReply α) := do
  let count ← load .count
  if D ≤ count.toNat then return { ret := -1 }
  else
    let wrPtr ← load .wrPtr
    memcpyIn (slot wrPtr) c (List.range (Memcpy.cells α))
    let wrPtr ← load .wrPtr
    store .wrPtr (wrPtr + 1)
    let count ← load .count
    store .count (count + 1)
    return { ret := 0 }

/-- `rb_read` between the lock and the unlock. -/
def rbReadBody (c : α) : Body α D (RbReply α) := do
  let count ← load .count
  if count = 0 then return { ret := -1, chunk := some c }
  else
    let rdPtr ← load .rdPtr
    let c ← memcpyOut (slot rdPtr) (List.range (Memcpy.cells α)) c
    let rdPtr ← load .rdPtr
    store .rdPtr (rdPtr + 1)
    let count ← load .count
    store .count (count - 1)
    return { ret := 0, chunk := some c }

omit [Memcpy α] in
/-- What a call returns before it takes the lock: the NULL check. -/
def RbCall.early : RbCall α → Option (RbReply α)
  | .write none | .read none => some { ret := -1 }
  | _ => none

/-- What a call does between the lock and the unlock. -/
def RbCall.body : RbCall α → Body α D (RbReply α)
  | .write none | .read none => pure { ret := -1 }
  | .write (some c) => rbWriteBody c
  | .read (some c) => rbReadBody c
  | .count => do
    let count ← load .count
    return { ret := count.toInt32.toInt }
  | .full => do
    let count ← load .count
    return { ret := if D ≤ count.toNat then 1 else 0 }
  | .empty => do
    let count ← load .count
    return { ret := if count = 0 then 1 else 0 }

end Bodies

/-- A call with NULL returns from the queue what it returns before it takes the lock. -/
theorem queueCall_early {α : Type} {D : ℕ} {x : RbCall α} {r : RbReply α} (hx : x.early = some r)
    (q : List α) : queueCall D q x = (q, r) := by
  rcases x with (_ | c) | (_ | c) | _ | _ | _
  case write.none => exact Option.some.inj hx ▸ rfl
  case read.none => exact Option.some.inj hx ▸ rfl
  all_goals cases hx

/-! ## The body of a call, run alone -/

section Finishes

variable {α : Type} {D : ℕ} [Memcpy α] (rb : RingBuffer α D)

theorem finishes_load (f : RbField) : (load f).Finishes mem rb (rb.get f) rb :=
  Prog.Finishes.once (c := Access.load f) rfl

theorem finishes_store (f : RbField) (v : UInt32) :
    (store f v).Finishes mem rb () (rb.set f v) :=
  Prog.Finishes.once (c := Access.store f v) rfl

theorem finishes_memcpyIn (i : Fin D) (c : α) (ks : List ℕ) :
    (memcpyIn i c ks).Finishes mem rb ()
      (rb.setSlot i (ks.foldl (fun d k => Memcpy.copy k c d) (rb.slots i))) := by
  induction ks generalizing rb with
  | nil =>
    rw [List.foldl_nil, RingBuffer.setSlot, Function.update_eq_self]
    exact Prog.Finishes.ret () rb
  | cons k ks ih =>
    have hstep := ih (rb.setSlot i (Memcpy.copy k c (rb.slots i)))
    simp only [RingBuffer.setSlot, Function.update_self, Function.update_idem] at hstep
    exact Prog.Finishes.bind (Prog.Finishes.once (c := Access.copyIn i k c) rfl) hstep

theorem finishes_memcpyOut (i : Fin D) (ks : List ℕ) (c : α) :
    (memcpyOut i ks c).Finishes mem rb
      (ks.foldl (fun d k => Memcpy.copy k (rb.slots i) d) c) rb := by
  induction ks generalizing c with
  | nil => exact Prog.Finishes.ret c rb
  | cons k ks ih =>
    exact Prog.Finishes.bind (Prog.Finishes.once (c := Access.copyOut i k c) rfl) (ih _)

variable [NeZero D]

theorem finishes_rbWriteBody (c : α) :
    (rbWriteBody c).Finishes mem rb (rbCall rb (.write (some c))).2
      (rbCall rb (.write (some c))).1 := by
  refine Prog.Finishes.bind (finishes_load rb .count) ?_
  show Prog.Finishes mem (if D ≤ rb.count.toNat then _ else _) rb _ _
  by_cases hfull : D ≤ rb.count.toNat
  · rw [if_pos hfull, rbCall, rbWrite, if_pos hfull]
    exact Prog.Finishes.ret _ rb
  · rw [if_neg hfull, rbCall, rbWrite, if_neg hfull]
    have hcopy := finishes_memcpyIn rb (slot rb.wrPtr) c (List.range (Memcpy.cells α))
    rw [Memcpy.copy_all] at hcopy
    refine Prog.Finishes.bind (finishes_load rb .wrPtr) (.bind hcopy ?_)
    refine Prog.Finishes.bind (finishes_load _ .wrPtr) (.bind (finishes_store _ .wrPtr _) ?_)
    exact Prog.Finishes.bind (finishes_load _ .count) (.bind (finishes_store _ .count _) (.ret _ _))

theorem finishes_rbReadBody (c : α) :
    (rbReadBody c).Finishes mem rb (rbCall rb (.read (some c))).2
      (rbCall rb (.read (some c))).1 := by
  refine Prog.Finishes.bind (finishes_load rb .count) ?_
  show Prog.Finishes mem (if rb.count = 0 then _ else _) rb _ _
  by_cases hempty : rb.count = 0
  · rw [if_pos hempty, rbCall, rbRead, if_pos hempty]
    exact Prog.Finishes.ret _ rb
  · rw [if_neg hempty, rbCall, rbRead, if_neg hempty]
    have hcopy := finishes_memcpyOut rb (slot rb.rdPtr) (List.range (Memcpy.cells α)) c
    rw [Memcpy.copy_all] at hcopy
    refine Prog.Finishes.bind (finishes_load rb .rdPtr) (.bind hcopy ?_)
    refine Prog.Finishes.bind (finishes_load _ .rdPtr) (.bind (finishes_store _ .rdPtr _) ?_)
    exact Prog.Finishes.bind (finishes_load _ .count) (.bind (finishes_store _ .count _) (.ret _ _))

/-- **The body of a call, run alone**, does what the call does in one step. -/
theorem finishes_body (x : RbCall α) :
    (x.body (D := D)).Finishes mem rb (rbCall rb x).2 (rbCall rb x).1 := by
  rcases x with (_ | c) | (_ | c) | _ | _ | _
  · exact Prog.Finishes.ret _ rb
  · exact finishes_rbWriteBody rb c
  · exact Prog.Finishes.ret _ rb
  · exact finishes_rbReadBody rb c
  · exact Prog.Finishes.bind (finishes_load rb .count) (.ret _ rb)
  · exact Prog.Finishes.bind (finishes_load rb .count) (.ret _ rb)
  · exact Prog.Finishes.bind (finishes_load rb .count) (.ret _ rb)

end Finishes

/-! ## The tasks -/

/-- Where a task is with its call of the API. -/
inductive CallPc (α : Type) (D : ℕ)
  | idle
  /-- at the NULL check -/
  | entered (x : RbCall α)
  /-- in `nxmutex_lock` -/
  | locking (x : RbCall α)
  /-- inside, with `p` left to run -/
  | inside (p : Body α D (RbReply α))
  /-- in `nxmutex_unlock` -/
  | unlocking (r : RbReply α)
  | returning (r : RbReply α)

/-- `g_rb_lock`, `g_rb`, and where every task is with its call. -/
structure Shared (τ α : Type) (D : ℕ) where
  guard : Guard τ
  ring : RingBuffer α D
  pc : τ → CallPc α D

/-- The steps of the system. -/
inductive ApiLabel (τ α : Type)
  /-- a task calls the API -/
  | call (t : τ) (x : RbCall α)
  /-- the call of a task does its next action -/
  | step (t : τ)
  /-- the call of a task returns -/
  | ret (t : τ)

section System

variable {τ α : Type} {D : ℕ} [NeZero D] [Memcpy α] [DecidableEq τ]

omit [NeZero D] [Memcpy α] in
/-- Task `t` goes on at `pc`. -/
def Shared.goto (s : Shared τ α D) (t : τ) (pc : CallPc α D) : Shared τ α D :=
  { s with pc := Function.update s.pc t pc }

omit [NeZero D] [DecidableEq τ] [Memcpy α] in
/-- The system when `rb_init` has returned. -/
def Shared.init [Zero α] : Shared τ α D := ⟨Guard.init, rbInit, fun _ => .idle⟩

variable (ids : Tasks τ)

/-- One action of the call a task is in. -/
def stepCall (s : Shared τ α D) (t : τ) : Option (Shared τ α D) :=
  match s.pc t with
  | .idle | .returning _ => none
  | .entered x =>
    match x.early with
    | some r => some (s.goto t (.returning r))
    | none => some { s.goto t (.locking x) with guard := s.guard.lock t }
  | .locking x =>
    if (s.guard.pc t).phase = .inside then some (s.goto t (.inside x.body))
    else (s.guard.step ids.toPids ids.getTcb t).map fun g => { s with guard := g }
  | .inside (.ret r) => some { s.goto t (.unlocking r) with guard := s.guard.unlock t }
  | .inside p =>
    (Prog.step mem (p, s.ring)).map fun r => { s.goto t (.inside r.1) with ring := r.2 }
  | .unlocking r =>
    if (s.guard.pc t).phase = .out then some (s.goto t (.returning r))
    else (s.guard.step ids.toPids ids.getTcb t).map fun g => { s with guard := g }

/-- **The system**: any number of tasks make the calls of `RbCall`, in any order, and each is
preempted between any two actions. -/
def shared (s : Shared τ α D) : ApiLabel τ α → Option (Shared τ α D)
  | .call t x =>
    match s.pc t with
    | .idle => some (s.goto t (.entered x))
    | _ => none
  | .step t => stepCall ids s t
  | .ret t =>
    match s.pc t with
    | .returning _ => some (s.goto t .idle)
    | _ => none

omit [NeZero D] [Memcpy α] [DecidableEq τ] in
/-- What the callers observe of a step. -/
def Shared.observe (s : Shared τ α D) : ApiLabel τ α → List (Event τ (RbCall α) (RbReply α))
  | .call t x => [.call t x]
  | .step _ => []
  | .ret t =>
    match s.pc t with
    | .returning r => [.ret t r]
    | _ => []

end System

/-! ## The atomic queue follows the tasks -/

section Simulation

variable {τ α : Type} {D : ℕ} [NeZero D] [Memcpy α] [DecidableEq τ]

/-- The atomic queue, with the calls under way. -/
abbrev AtomicQueue (τ α : Type) := Atomic (List α) τ (RbCall α) (RbReply α)

omit [DecidableEq τ] in
/-- How far the call of task `t` is in the lock and in the atomic queue. Inside, the rest of the
body leads to what the call does to the queue in one step. -/
def CallPc.At (g : GuardPc) (ring : RingBuffer α D) (a : AtomicQueue τ α) (t : τ) :
    CallPc α D → Prop
  | .idle => g.phase = .out ∧ a.stage t = .out
  | .entered x => g.phase = .out ∧ a.stage t = .called x
  | .locking x => (g.phase = .locking ∨ g.phase = .inside) ∧ a.stage t = .called x
  | .inside p => g.phase = .inside ∧ ∃ x rb, a.stage t = .called x ∧ Represents rb a.obj ∧
      p.Finishes mem ring (rbCall rb x).2 (rbCall rb x).1
  | .unlocking r => (g.phase = .unlocking ∨ g.phase = .out) ∧ a.stage t = .done r
  | .returning r => g.phase = .out ∧ a.stage t = .done r

omit [NeZero D] [Memcpy α] [DecidableEq τ] in
/-- No task is at an access of `g_rb`. -/
def Shared.Quiet (s : Shared τ α D) : Prop := ∀ t p, s.pc t ≠ .inside p

variable (ids : Tasks τ)

/-- **The atomic queue follows the tasks**: every call has the stage of its program counter, and
while no task is at an access the ring holds the queue. -/
structure Follows (s : Shared τ α D) (a : AtomicQueue τ α) : Prop where
  guard : ∃ m, Guarded ids.toPids s.guard m
  task : ∀ t, (s.pc t).At (s.guard.pc t) s.ring a t
  ring : s.Quiet → Represents s.ring a.obj

variable {ids} {s s' : Shared τ α D} {a a' : AtomicQueue τ α} {t u : τ}

theorem follows_init [Zero α] : Follows ids (Shared.init : Shared τ α D) (Atomic.idle []) :=
  ⟨⟨_, guarded_init⟩, fun _ => ⟨rfl, rfl⟩, fun _ => represents_rbInit⟩

omit [DecidableEq τ] in
theorem CallPc.At.congr {pc : CallPc α D} {g g' : GuardPc} {rb rb' : RingBuffer α D}
    (h : pc.At g rb a t) (hg : g'.phase = g.phase) (hstage : a'.stage t = a.stage t)
    (hframe : (rb' = rb ∧ a'.obj = a.obj) ∨ g.phase ≠ .inside) : pc.At g' rb' a' t := by
  cases pc with
  | inside p =>
    obtain ⟨rfl, hobj⟩ := hframe.resolve_right (not_not_intro h.1)
    simp only [At, hg, hstage, hobj]
    exact h
  | _ =>
    simp only [At, hg, hstage]
    exact h

/-- A task that is inside finds no other task at an access. -/
theorem Follows.eq_of_inside (h : Follows ids s a) (ht : (s.guard.pc t).phase = .inside)
    {p : Body α D (RbReply α)} (hu : s.pc u = .inside p) : u = t := by
  obtain ⟨m, hm⟩ := h.guard
  have hat := h.task u
  rw [hu] at hat
  exact hm.inside_unique hat.1 ht

/-- While a task is inside and not at an access, no task is. -/
theorem Follows.quiet (h : Follows ids s a) (ht : (s.guard.pc t).phase = .inside)
    (hpc : ∀ p, s.pc t ≠ .inside p) : s.Quiet :=
  fun _ p hu => hpc p (h.eq_of_inside ht hu ▸ hu)

/-- **A task goes on**, and the queue with it: only a task that is inside changes the ring. -/
theorem Follows.goto (h : Follows ids s a) {pc : CallPc α D}
    (hguard : ∃ m, Guarded ids.toPids s'.guard m) (hpc : s'.pc = Function.update s.pc t pc)
    (hphase : ∀ u, u ≠ t → (s'.guard.pc u).phase = (s.guard.pc u).phase)
    (hstage : ∀ u, u ≠ t → a'.stage u = a.stage u)
    (hframe : (s'.ring = s.ring ∧ a'.obj = a.obj) ∨ (s.guard.pc t).phase = .inside)
    (ht : pc.At (s'.guard.pc t) s'.ring a' t)
    (hring : s'.Quiet → Represents s'.ring a'.obj) : Follows ids s' a' := by
  refine ⟨hguard, fun u => ?_, hring⟩
  rw [hpc]
  by_cases hu : u = t
  · rw [hu, Function.update_self]
    exact ht
  · rw [Function.update_of_ne hu]
    refine (h.task u).congr (hphase u hu) (hstage u hu) (hframe.imp_right fun hin hin' => hu ?_)
    obtain ⟨m, hm⟩ := h.guard
    exact hm.inside_unique hin' hin

/-- A task that is at no access before or after leaves the ring as it is. -/
theorem Follows.represents (h : Follows ids s a) {pc : CallPc α D}
    (hpc : s'.pc = Function.update s.pc t pc) (hring : s'.ring = s.ring) (hobj : a'.obj = a.obj)
    (hold : ∀ p, s.pc t ≠ .inside p) (hquiet : s'.Quiet) : Represents s'.ring a'.obj := by
  rw [hring, hobj]
  refine h.ring fun u p hu => ?_
  by_cases hut : u = t
  · exact hold p (hut ▸ hu)
  · refine hquiet u p ?_
    rw [hpc, Function.update_of_ne hut]
    exact hu

/-- A task goes on in the lock, and in nothing else. -/
theorem Follows.goto_guard (h : Follows ids s a) {pc : CallPc α D} {g : Guard τ}
    (hguard : ∃ m, Guarded ids.toPids g m)
    (hphase : ∀ u, u ≠ t → (g.pc u).phase = (s.guard.pc u).phase)
    (hold : ∀ p, s.pc t ≠ .inside p) (ht : pc.At (g.pc t) s.ring a t) :
    Follows ids { s.goto t pc with guard := g } a := by
  have hring : Shared.Quiet { s.goto t pc with guard := g } → Represents s.ring a.obj :=
    h.represents rfl rfl rfl hold
  exact h.goto hguard rfl hphase (fun _ _ => rfl) (Or.inl ⟨rfl, rfl⟩) ht hring

/-- An action of `nxmutex_lock` or `nxmutex_unlock`. -/
theorem Follows.step_guard (h : Follows ids s a) {g : Guard τ}
    (hs : s.guard.step ids.toPids ids.getTcb t = some g)
    (hold : ∀ p, s.pc t ≠ .inside p) (ht : (s.pc t).At (g.pc t) s.ring a t) :
    Follows ids { s with guard := g } a := by
  obtain ⟨m, hm⟩ := h.guard
  have hgoto : Follows ids { s.goto t (s.pc t) with guard := g } a := h.goto_guard
    (hm.step (fun u _ => ids.live u) hs) (fun _ hu => Guard.phase_step_of_ne hs hu) hold ht
  rwa [Shared.goto, Function.update_eq_self] at hgoto

/-- **The call takes effect** on the queue at the end of its body. -/
theorem follows_effect (hD : D ∣ 2 ^ 32) (hlt : D < 2 ^ 31) (h : Follows ids s a) {r : RbReply α}
    (hpc : s.pc t = .inside (.ret r)) :
    ∃ ms a', run (atomic (queueCall D)) a ms = some a' ∧
      trace (atomic (queueCall D)) Atomic.observe a ms = [] ∧
      Follows ids { s.goto t (.unlocking r) with guard := s.guard.unlock t } a' := by
  obtain ⟨m, hm⟩ := h.guard
  have hat := h.task t
  rw [hpc] at hat
  obtain ⟨hphase, x, rb, hstage, hrep, hfin⟩ := hat
  obtain ⟨hret, hring⟩ := hfin.of_ret
  obtain ⟨hreply, hrep'⟩ := hrep.call (x := x) (Or.inl hD) (by omega) fun _ => hlt
  obtain ⟨hrun, htrace⟩ := atomic_effect (queueCall D) hstage
  refine ⟨_, _, hrun, htrace, h.goto ⟨m, hm.unlock hphase⟩ rfl (fun u hu => ?_) (fun u hu => ?_)
    (Or.inr hphase) ⟨Or.inl ?_, ?_⟩ fun _ => ?_⟩
  · exact congrArg GuardPc.phase (Guard.pc_goto_of_ne _ hu)
  · exact Function.update_of_ne hu _ _
  · exact congrArg GuardPc.phase (Guard.pc_goto_self _)
  · rw [hret, hreply]
    exact Function.update_self _ _ _
  · show Represents s.ring _
    rw [hring]
    exact hrep'

/-- **Every action of a call can be followed in the queue.** -/
theorem follows_stepCall (hD : D ∣ 2 ^ 32) (hlt : D < 2 ^ 31) (h : Follows ids s a)
    (hs : stepCall ids s t = some s') :
    ∃ ms a', run (atomic (queueCall D)) a ms = some a' ∧
      trace (atomic (queueCall D)) Atomic.observe a ms = [] ∧ Follows ids s' a' := by
  obtain ⟨m, hm⟩ := h.guard
  have hat := h.task t
  rw [stepCall] at hs
  cases hpc : s.pc t with
  | idle | returning => rw [hpc] at hs; cases hs
  | entered x =>
    rw [hpc] at hs hat
    have hold : ∀ p, s.pc t ≠ .inside p := fun p => by rw [hpc]; exact nofun
    cases hx : x.early with
    | some r =>
      simp only [hx] at hs
      obtain rfl := Option.some.inj hs
      obtain ⟨hrun, htrace⟩ := atomic_effect (queueCall D) hat.2
      refine ⟨_, _, hrun, htrace, h.goto ⟨m, hm⟩ rfl (fun _ _ => rfl)
        (fun u hu => Function.update_of_ne hu _ _) (Or.inl ⟨rfl, ?_⟩) ⟨hat.1, ?_⟩
        (h.represents rfl rfl ?_ hold)⟩
      · simp only [queueCall_early hx]
      · simp only [queueCall_early hx, Function.update_self]
      · simp only [queueCall_early hx]
    | none =>
      simp only [hx] at hs
      obtain rfl := Option.some.inj hs
      refine ⟨[], a, rfl, rfl, h.goto_guard ⟨m, hm.lock hat.1⟩ (fun u hu => ?_) hold ⟨?_, hat.2⟩⟩
      · exact congrArg GuardPc.phase (Guard.pc_goto_of_ne _ hu)
      · exact Or.inl (congrArg GuardPc.phase (Guard.pc_goto_self _))
  | locking x =>
    rw [hpc] at hs hat
    have hold : ∀ p, s.pc t ≠ .inside p := fun p => by rw [hpc]; exact nofun
    dsimp only at hs
    split at hs
    · rename_i hin
      obtain rfl := Option.some.inj hs
      have hrep := h.ring (h.quiet hin hold)
      refine ⟨[], a, rfl, rfl, h.goto ⟨m, hm⟩ rfl (fun _ _ => rfl) (fun _ _ => rfl)
        (Or.inl ⟨rfl, rfl⟩) ⟨hin, x, s.ring, hat.2, hrep, finishes_body _ x⟩ fun hquiet => ?_⟩
      exact absurd (Function.update_self _ _ _) (hquiet t x.body)
    · rename_i hin
      obtain ⟨g, hg, rfl⟩ := Option.map_eq_some_iff.mp hs
      refine ⟨[], a, rfl, rfl, h.step_guard hg hold ?_⟩
      rw [hpc]
      refine ⟨?_, hat.2⟩
      rcases Guard.phase_step_self hg with ⟨-, hnext⟩ | ⟨hunlock, -⟩
      · exact hnext
      · rcases hat.1 with hlock | hlock <;> rw [hlock] at hunlock <;> cases hunlock
  | inside p =>
    rw [hpc] at hs hat
    cases p with
    | fault e => cases e
    | ret r =>
      obtain rfl := Option.some.inj hs
      exact follows_effect hD hlt h hpc
    | call c again k =>
      obtain ⟨hphase, x, rb, hstage, hrep, hfin⟩ := hat
      obtain ⟨p', ring', hstep, hfin'⟩ := hfin.step
      obtain ⟨⟨p₁, ring₁⟩, hp₁, rfl⟩ := Option.map_eq_some_iff.mp hs
      obtain ⟨rfl, rfl⟩ := Prod.mk.inj (Option.some.inj (hp₁.symm.trans hstep))
      refine ⟨[], a, rfl, rfl, h.goto ⟨m, hm⟩ rfl (fun _ _ => rfl) (fun _ _ => rfl)
        (Or.inr hphase) ⟨hphase, x, rb, hstage, hrep, hfin'⟩ fun hquiet => ?_⟩
      exact absurd (Function.update_self _ _ _) (hquiet t p₁)
  | unlocking r =>
    rw [hpc] at hs hat
    have hold : ∀ p, s.pc t ≠ .inside p := fun p => by rw [hpc]; exact nofun
    dsimp only at hs
    split at hs
    · rename_i hout
      obtain rfl := Option.some.inj hs
      exact ⟨[], a, rfl, rfl, h.goto_guard ⟨m, hm⟩ (fun _ _ => rfl) hold ⟨hout, hat.2⟩⟩
    · obtain ⟨g, hg, rfl⟩ := Option.map_eq_some_iff.mp hs
      refine ⟨[], a, rfl, rfl, h.step_guard hg hold ?_⟩
      rw [hpc]
      refine ⟨?_, hat.2⟩
      rcases Guard.phase_step_self hg with ⟨hlock, -⟩ | ⟨-, hnext⟩
      · rcases hat.1 with hunlock | hunlock <;> rw [hunlock] at hlock <;> cases hlock
      · exact hnext

/-- **Every step of the tasks can be followed in the queue**, and shows the callers the same. -/
theorem follows_shared (hD : D ∣ 2 ^ 32) (hlt : D < 2 ^ 31) (h : Follows ids s a)
    {l : ApiLabel τ α} (hs : shared ids s l = some s') :
    ∃ ms a', run (atomic (queueCall D)) a ms = some a' ∧
      trace (atomic (queueCall D)) Atomic.observe a ms = s.observe l ∧ Follows ids s' a' := by
  obtain ⟨m, hm⟩ := h.guard
  cases l with
  | step t => exact follows_stepCall hD hlt h hs
  | call t x =>
    have hat := h.task t
    rw [shared] at hs
    cases hpc : s.pc t with
    | idle =>
      rw [hpc] at hs hat
      obtain rfl := Option.some.inj hs
      obtain ⟨hrun, htrace⟩ := atomic_call (queueCall D) hat.2 x
      refine ⟨_, _, hrun, htrace, h.goto ⟨m, hm⟩ rfl (fun _ _ => rfl)
        (fun u hu => Function.update_of_ne hu _ _) (Or.inl ⟨rfl, rfl⟩)
        ⟨hat.1, Function.update_self _ _ _⟩ (h.represents rfl rfl rfl ?_)⟩
      exact fun p => by rw [hpc]; exact nofun
    | _ => rw [hpc] at hs; cases hs
  | ret t =>
    have hat := h.task t
    rw [shared] at hs
    rw [Shared.observe]
    cases hpc : s.pc t with
    | returning r =>
      rw [hpc] at hs hat
      obtain rfl := Option.some.inj hs
      obtain ⟨hrun, htrace⟩ := atomic_ret (queueCall D) hat.2
      refine ⟨_, _, hrun, htrace, h.goto ⟨m, hm⟩ rfl (fun _ _ => rfl)
        (fun u hu => Function.update_of_ne hu _ _) (Or.inl ⟨rfl, rfl⟩)
        ⟨hat.1, Function.update_self _ _ _⟩ (h.represents rfl rfl rfl ?_)⟩
      exact fun p => by rw [hpc]; exact nofun
    | _ => rw [hpc] at hs; cases hs

end Simulation

/-- **The ring buffer is linearizable.** However many tasks make the calls of `RbCall`, once
`rb_init` has returned, and wherever each of them is preempted, the calls and returns are those of
the bounded queue with every call taking effect at one moment between its call and its return. The
tasks do not exit, have no signal pending at `nxmutex_lock`, and do not call `rb_init` again. -/
theorem ring_linearizable {τ : Type} [DecidableEq τ] (ids : Tasks τ)
    {ls : List (ApiLabel τ (ImageChunk chunkSize))}
    {s : Shared τ (ImageChunk chunkSize) rbDepth} (h : run (shared ids) Shared.init ls = some s) :
    Linearizable (queueCall rbDepth) []
      (trace (shared ids) Shared.observe
        (Shared.init : Shared τ (ImageChunk chunkSize) rbDepth) ls) := by
  have hD : rbDepth ∣ 2 ^ 32 := by decide
  exact Linearizable.of_sim (R := Follows ids)
    (fun _ _ _ _ hf hs => follows_shared hD (by decide) hf hs) follows_init h

/-- The two tasks of the launcher, with ids as `task_create` may return them. -/
def launchTasks : Tasks Task where
  toPids := launchIds
  getTcb p := p == 3 || p == 4
  live t := by cases t <;> rfl

/-- The hello task reads the empty ring; the camera calls `rb_write` meanwhile, and blocks. -/
def contendedSchedule : List (ApiLabel Task (ImageChunk chunkSize)) :=
  .call .hello (.read (some 0)) :: List.replicate 6 (.step .hello) ++
    .call .camera (.write (some 0)) :: List.replicate 5 (.step .camera) ++
    List.replicate 6 (.step .hello) ++ [.ret .hello]

/-- A read of the empty ring, and a write that waits for it. -/
theorem ring_linearizable_contended :
    ∃ s : Shared Task (ImageChunk chunkSize) rbDepth,
      run (shared launchTasks) Shared.init contendedSchedule = some s ∧
      s.guard.pc .camera = .locking (.resumed true) ∧
      Linearizable (queueCall rbDepth) []
        [.call Task.hello (.read (some (0 : ImageChunk chunkSize))),
          .call Task.camera (.write (some 0)), .ret Task.hello { ret := -1, chunk := some 0 }] := by
  refine ⟨_, rfl, rfl, ?_⟩
  exact ring_linearizable launchTasks
    (show run (shared launchTasks) Shared.init contendedSchedule = some _ from rfl)

end CameraPipeline
