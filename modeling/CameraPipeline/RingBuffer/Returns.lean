import CameraPipeline.RingBuffer.Concurrent

/-!
# No call of the ring buffer is stuck

The calls that are under way can always be finished: the task that holds the lock runs its body to
the end and unlocks, which lets the next waiter in, and so on until the lock is free. No further
call is needed, and no call waits for a task that has left. As for linearizability, `rb_init` has
returned and is not called again, no task exits, and none has a signal pending at `nxmutex_lock`.

## Main definitions

* `Alone ids t s s'`: task `t`, stepping alone, brings the system from `s` to `s'`
* `CanReturn ids s t`: the call of task `t` can be brought to its return

## Main results

* `exists_release`: the holder, stepping alone, releases the lock
* `exists_inside`, `exists_returning`: a task that finds the lock free, stepping alone, takes it and
  comes to its return
* `every_call_can_return`: in every reachable state, for any number of tasks
-/

namespace CameraPipeline

open Data Systems

variable {τ α : Type} {D : ℕ} [NeZero D] [Memcpy α] [DecidableEq τ] (ids : Tasks τ)

/-! ## A task stepping alone -/

/-- Task `t`, stepping alone, brings the system from `s` to `s'`. -/
def Alone (t : τ) (s s' : Shared τ α D) : Prop :=
  ∃ k, run (shared ids) s (List.replicate k (.step t)) = some s'

variable {ids} {s s' s'' : Shared τ α D} {a : AtomicQueue τ α} {t u : τ} {m : Handoff τ}

theorem Alone.refl (s : Shared τ α D) : Alone ids t s s := ⟨0, rfl⟩

theorem Alone.head (h : stepCall ids s t = some s') (h' : Alone ids t s' s'') :
    Alone ids t s s'' := by
  obtain ⟨k, hk⟩ := h'
  exact ⟨k + 1, (run_cons_eq_some _).mpr ⟨s', h, hk⟩⟩

theorem Alone.single (h : stepCall ids s t = some s') : Alone ids t s s' := .head h (.refl s')

theorem Alone.trans (h : Alone ids t s s') (h' : Alone ids t s' s'') : Alone ids t s s'' := by
  obtain ⟨k, hk⟩ := h
  obtain ⟨l, hl⟩ := h'
  refine ⟨k + l, ?_⟩
  rw [List.replicate_add, run_append, hk, Option.bind_some, hl]

/-- A step of one task leaves the calls of the others where they are. -/
theorem pc_stepCall_of_ne (h : stepCall ids s t = some s') (hu : u ≠ t) : s'.pc u = s.pc u := by
  rw [stepCall] at h
  cases hpc : s.pc t with
  | idle | returning => rw [hpc] at h; cases h
  | entered x =>
    rw [hpc] at h
    dsimp only at h
    split at h <;> exact Option.some.inj h ▸ Function.update_of_ne hu _ _
  | locking x | unlocking x =>
    rw [hpc] at h
    dsimp only at h
    split at h
    · exact Option.some.inj h ▸ Function.update_of_ne hu _ _
    · obtain ⟨g, -, rfl⟩ := Option.map_eq_some_iff.mp h
      rfl
  | inside p =>
    rw [hpc] at h
    cases p with
    | fault e => cases e
    | ret r => exact Option.some.inj h ▸ Function.update_of_ne hu _ _
    | call c again k =>
      obtain ⟨r, -, rfl⟩ := Option.map_eq_some_iff.mp h
      exact Function.update_of_ne hu _ _

theorem Alone.pc_of_ne (h : Alone ids t s s') (hu : u ≠ t) : s'.pc u = s.pc u := by
  obtain ⟨k, hk⟩ := h
  induction k generalizing s with
  | zero => exact Option.some.inj hk ▸ rfl
  | succ k ih =>
    obtain ⟨s₁, hs₁, hr⟩ := (run_cons_eq_some _).mp hk
    exact (ih hr).trans (pc_stepCall_of_ne hs₁ hu)

/-- The system is one that the atomic queue follows. -/
def Followed (ids : Tasks τ) (s : Shared τ α D) : Prop := ∃ a, Follows ids s a

theorem Followed.step (hD : D ∣ 2 ^ 32) (hlt : D < 2 ^ 31) (h : Followed ids s)
    {l : ApiLabel τ α} (hs : shared ids s l = some s') : Followed ids s' := by
  obtain ⟨a, ha⟩ := h
  obtain ⟨-, a', -, -, ha'⟩ := follows_shared hD hlt ha hs
  exact ⟨a', ha'⟩

theorem Followed.alone (hD : D ∣ 2 ^ 32) (hlt : D < 2 ^ 31) (h : Followed ids s)
    (hs : Alone ids t s s') : Followed ids s' := by
  obtain ⟨k, hk⟩ := hs
  exact run_invariant (I := Followed ids) (fun _ _ _ h hs => h.step hD hlt hs) h hk

/-! ## The holder releases the lock -/

/-- In `nxmutex_unlock`. -/
theorem exists_release_unlocking (hm : Guarded ids.toPids s.guard m) {r : RbReply α} {p : PostPc}
    (hpc : s.pc t = .unlocking r) (hg : s.guard.pc t = .unlocking p) :
    ∃ s', Alone ids t s s' ∧ Guarded ids.toPids s'.guard m.release ∧ s'.pc t = .returning r := by
  -- on the actions left; only the caller moves, so the holder word stays what it is
  induction hn : p.actions s.guard.sem.val using Nat.strong_induction_on generalizing s p with
  | _ n ih =>
    obtain ⟨g, hstep, hcases⟩ := hm.step_unlocking hg
    have hs : stepCall ids s t = some { s with guard := g } := by
      rw [stepCall, hpc]
      dsimp only
      have hnot : (s.guard.pc t).phase ≠ .out := by simp [hg, GuardPc.phase]
      rw [if_neg hnot, hstep, Option.map_some]
    rcases hcases with ⟨p', hg', hkept, hpost⟩ | ⟨hout, hreleased, -⟩
    · obtain ⟨hsem, hless⟩ := nxsemPost_alone ids.pid (congrArg (fun r => r.2.2) hpost)
      rw [hpost] at hsem
      have hsem' : g.sem = s.guard.sem := hsem
      obtain ⟨s', hs', hrest⟩ := ih (p'.actions g.sem.val) (by rw [hsem', ← hn]; exact hless)
        (s := { s with guard := g }) hkept hpc hg' rfl
      exact ⟨s', .head hs hs', hrest⟩
    · have hret : stepCall ids { s with guard := g } t =
          some (Shared.goto { s with guard := g } t (.returning r)) := by
        rw [stepCall]
        simp only [hpc]
        exact if_pos hout
      exact ⟨_, .head hs (.single hret), hreleased, Function.update_self t _ s.pc⟩

/-- Inside, at any access. -/
theorem exists_release_inside (hm : Guarded ids.toPids s.guard m) {p : Body α D (RbReply α)}
    {r : RbReply α} {rb : RingBuffer α D} (hpc : s.pc t = .inside p)
    (hg : (s.guard.pc t).phase = .inside) (hfin : p.Finishes mem s.ring r rb) :
    ∃ s', Alone ids t s s' ∧ Guarded ids.toPids s'.guard m.release ∧ s'.pc t = .returning r := by
  induction p generalizing s with
  | fault e => cases e
  | ret r' =>
    obtain ⟨rfl, -⟩ := hfin.of_ret
    have hs : stepCall ids s t =
        some { s.goto t (.unlocking r') with guard := s.guard.unlock t } := by
      rw [stepCall, hpc]
    obtain ⟨s', hs', hrest⟩ := exists_release_unlocking (t := t)
      (s := { s.goto t (.unlocking r') with guard := s.guard.unlock t }) (hm.unlock hg)
      (Function.update_self t _ s.pc) (Guard.pc_goto_self _)
    exact ⟨s', .head hs hs', hrest⟩
  | call c again k ih =>
    obtain ⟨w₁, r', hc, hr, hk⟩ : ∃ w₁ r', mem s.ring c = some (r', w₁) ∧ again r' = false ∧
        (k r').Finishes mem w₁ r rb := by
      cases hfin with
      | call hc hr hk => exact ⟨_, _, hc, hr, hk⟩
    have hs : stepCall ids s t = some { s.goto t (.inside (k r')) with ring := w₁ } := by
      rw [stepCall, hpc]
      dsimp only
      rw [Prog.step, hc]
      simp [hr]
    obtain ⟨s', hs', hrest⟩ := ih r' (s := { s.goto t (.inside (k r')) with ring := w₁ }) hm
      (Function.update_self t _ s.pc) hg hk
    exact ⟨s', .head hs hs', hrest⟩

/-- **A task that finds the lock free, or was handed it**, stepping alone, comes to its body. -/
theorem exists_inside (hm : Guarded ids.toPids s.guard m) {x : RbCall α} (hpc : s.pc t = .locking x)
    (hphase : (s.guard.pc t).phase = .locking ∨ (s.guard.pc t).phase = .inside)
    (howner : ∀ u, m.owner = some u → u = t) :
    ∃ s' m', Alone ids t s s' ∧ Guarded ids.toPids s'.guard m' ∧ m'.queue = m.queue ∧
      s'.pc t = .inside x.body ∧ (s'.guard.pc t).phase = .inside := by
  have hbody : ∀ {s : Shared τ α D}, s.pc t = .locking x → (s.guard.pc t).phase = .inside →
      stepCall ids s t = some (s.goto t (.inside x.body)) := by
    intro s hpc hin
    rw [stepCall, hpc]
    exact if_pos hin
  rcases hphase with hlock | hin
  · obtain ⟨w, hw⟩ : ∃ w, s.guard.pc t = .locking w := by
      cases hg : s.guard.pc t with
      | locking w => exact ⟨w, rfl⟩
      | _ => rw [hg] at hlock; cases hlock
    clear hlock
    induction hn : w.actions using Nat.strong_induction_on generalizing s m w with
    | _ n ih =>
      obtain ⟨g, m', hstep, hm', hqueue, howner', hnext⟩ := hm.step_locking hw howner (ids.live t)
      have hs : stepCall ids s t = some { s with guard := g } := by
        rw [stepCall, hpc]
        dsimp only
        have hnot : (s.guard.pc t).phase ≠ .inside := by simp [hw, GuardPc.phase]
        rw [if_neg hnot, hstep, Option.map_some]
      rcases hnext with hin | ⟨w', hw', hless⟩
      · have hin' : (g.pc t).phase = .inside := by rw [hin]; rfl
        exact ⟨_, m', .head hs (.single (hbody hpc hin')), hm', hqueue,
          Function.update_self t _ s.pc, hin'⟩
      · obtain ⟨s', m'', hs', hm'', hqueue', hrest⟩ := ih w'.actions (hn ▸ hless)
          (s := { s with guard := g }) hm' hpc howner' w' hw' rfl
        exact ⟨s', m'', .head hs hs', hm'', hqueue'.trans hqueue, hrest⟩
  · exact ⟨_, m, .single (hbody hpc hin), hm, rfl, Function.update_self t _ s.pc, hin⟩

/-- A task whose lock is free or its own, stepping alone, comes to its return. -/
theorem exists_returning (hm : Guarded ids.toPids s.guard m) {x : RbCall α}
    (hpc : s.pc t = .locking x)
    (hphase : (s.guard.pc t).phase = .locking ∨ (s.guard.pc t).phase = .inside)
    (howner : ∀ u, m.owner = some u → u = t) :
    ∃ s' r, Alone ids t s s' ∧ Guarded ids.toPids s'.guard m.release ∧ s'.pc t = .returning r := by
  obtain ⟨s₁, m₁, hs₁, hm₁, hqueue, hpc₁, hin⟩ := exists_inside hm hpc hphase howner
  obtain ⟨s', hs', hm', hret⟩ := exists_release_inside hm₁ hpc₁ hin (finishes_body s₁.ring x)
  have hrelease : m₁.release = m.release := by simp only [Handoff.release, hqueue]
  exact ⟨s', _, hs₁.trans hs', hrelease ▸ hm', hret⟩

/-- **The holder, stepping alone, releases the lock**, and its call is about to return. -/
theorem exists_release (h : Followed ids s) (hm : Guarded ids.toPids s.guard m)
    (ht : m.owner = some t) :
    ∃ s' r, Alone ids t s s' ∧ Guarded ids.toPids s'.guard m.release ∧ s'.pc t = .returning r := by
  obtain ⟨a, ha⟩ := h
  have hat := ha.task t
  have hrole : (s.guard.pc t).role = .holding :=
    (hm.role t).trans (Handoff.role_eq_holding.mpr ht)
  have hout : (s.guard.pc t).phase ≠ .out := fun hg => by
    rw [GuardPc.eq_out hg] at hrole
    cases hrole
  cases hpc : s.pc t with
  | idle | entered | returning => rw [hpc] at hat; exact absurd hat.1 hout
  | locking x =>
    rw [hpc] at hat
    exact exists_returning hm hpc hat.1 fun u hu => Option.some.inj (hu.symm.trans ht)
  | inside p =>
    rw [hpc] at hat
    obtain ⟨hg, x, rb, -, -, hfin⟩ := hat
    obtain ⟨s', hs'⟩ := exists_release_inside hm hpc hg hfin
    exact ⟨s', _, hs'⟩
  | unlocking r =>
    rw [hpc] at hat
    have hg := hat.1.resolve_right hout
    cases hgpc : s.guard.pc t with
    | unlocking p =>
      obtain ⟨s', hs'⟩ := exists_release_unlocking hm hpc hgpc
      exact ⟨s', r, hs'⟩
    | _ => rw [hgpc] at hg; cases hg

/-! ## Every call can return -/

/-- The call of task `t` can be brought to its return, by steps of the calls under way alone. -/
def CanReturn (ids : Tasks τ) (s : Shared τ α D) (t : τ) : Prop :=
  ∃ ls s', (∀ x ∈ ls, x = .ret t ∨ ∃ u, x = .step u) ∧ run (shared ids) s ls = some s' ∧
    s'.pc t = .idle

theorem CanReturn.alone (h : Alone ids u s s') (h' : CanReturn ids s' t) : CanReturn ids s t := by
  obtain ⟨k, hk⟩ := h
  obtain ⟨ls, s'', hls, hrun, hpc⟩ := h'
  refine ⟨List.replicate k (.step u) ++ ls, s'', fun x hx => ?_, ?_, hpc⟩
  · rcases List.mem_append.mp hx with hx | hx
    · exact Or.inr ⟨u, List.eq_of_mem_replicate hx⟩
    · exact hls x hx
  · rw [run_append, hk, Option.bind_some, hrun]

theorem canReturn_returning {r : RbReply α} (hpc : s.pc t = .returning r) :
    CanReturn ids s t := by
  refine ⟨[.ret t], s.goto t .idle, fun x hx => Or.inl (List.mem_singleton.mp hx), ?_,
    Function.update_self t _ s.pc⟩
  rw [run, shared, hpc]
  rfl

/-- The tasks before the next one to enter: the owner and the queue. -/
def inLine (m : Handoff τ) : ℕ := m.queue.length + m.owner.elim 0 fun _ => 1

omit [DecidableEq τ] in
theorem inLine_release (h : m.owner = some u) : inLine m.release < inLine m := by
  have howner : m.owner.elim 0 (fun _ => 1) = 1 := by rw [h]; rfl
  rw [inLine, inLine, howner, Handoff.queue_release, Handoff.owner_release]
  cases m.queue <;> simp

/-- A task in `nxmutex_lock`. -/
theorem canReturn_locking (hD : D ∣ 2 ^ 32) (hlt : D < 2 ^ 31) (h : Followed ids s)
    (hm : Guarded ids.toPids s.guard m) {x : RbCall α} (hpc : s.pc t = .locking x) :
    CanReturn ids s t := by
  -- on the tasks in line: the owner releases the lock, to the first of the queue or to nobody
  induction hn : inLine m using Nat.strong_induction_on generalizing s m with
  | _ n ih =>
    by_cases howner : ∀ u, m.owner = some u → u = t
    · obtain ⟨a, ha⟩ := h
      have hat := ha.task t
      rw [hpc] at hat
      obtain ⟨s', r, hs', -, hret⟩ := exists_returning hm hpc hat.1 howner
      exact (canReturn_returning hret).alone hs'
    · obtain ⟨u, hu⟩ := not_forall.mp howner
      obtain ⟨hown, hut⟩ := Classical.not_imp.mp hu
      obtain ⟨s', r, hs', hm', -⟩ := exists_release h hm hown
      refine (ih _ (hn ▸ inLine_release hown) (h.alone hD hlt hs') hm' ?_ rfl).alone hs'
      rw [hs'.pc_of_ne (Ne.symm hut), hpc]

theorem canReturn_of_followed (hD : D ∣ 2 ^ 32) (hlt : D < 2 ^ 31) (h : Followed ids s) (t : τ) :
    CanReturn ids s t := by
  obtain ⟨a, ha⟩ := h
  obtain ⟨m, hm⟩ := ha.guard
  have hat := ha.task t
  have hholding : (s.guard.pc t).role = .holding → CanReturn ids s t := by
    intro hrole
    obtain ⟨s', r, hs', -, hret⟩ :=
      exists_release ⟨a, ha⟩ hm (Handoff.role_eq_holding.mp ((hm.role t).symm.trans hrole))
    exact (canReturn_returning hret).alone hs'
  cases hpc : s.pc t with
  | idle => exact ⟨[], s, List.forall_mem_nil _, rfl, hpc⟩
  | returning r => exact canReturn_returning hpc
  | locking x => exact canReturn_locking hD hlt ⟨a, ha⟩ hm hpc
  | inside p =>
    rw [hpc] at hat
    exact hholding (GuardPc.role_of_inside hat.1)
  | entered x =>
    cases hx : x.early with
    | some r =>
      have hs : stepCall ids s t = some (s.goto t (.returning r)) := by
        rw [stepCall, hpc]
        simp only [hx]
      exact (canReturn_returning (Function.update_self t _ s.pc)).alone (.single hs)
    | none =>
      have hs : stepCall ids s t = some { s.goto t (.locking x) with guard := s.guard.lock t } := by
        rw [stepCall, hpc]
        simp only [hx]
      rw [hpc] at hat
      refine (canReturn_locking hD hlt (Followed.alone hD hlt ⟨a, ha⟩ (.single hs))
        (m := m) (hm.lock hat.1) (Function.update_self t _ s.pc)).alone (.single hs)
  | unlocking r =>
    rw [hpc] at hat
    rcases hat.1 with hg | hout
    · refine hholding ?_
      cases hgpc : s.guard.pc t with
      | unlocking p => rfl
      | _ => rw [hgpc] at hg; cases hg
    · have hs : stepCall ids s t = some (s.goto t (.returning r)) := by
        rw [stepCall, hpc]
        exact if_pos hout
      exact (canReturn_returning (Function.update_self t _ s.pc)).alone (.single hs)

/-- **No call is stuck**: in every state that any number of tasks come to once `rb_init` has
returned, the call of each task can be brought to its return by steps of the calls that are under
way. The tasks do not exit, have no signal pending at `nxmutex_lock`, and do not call `rb_init`
again. -/
theorem every_call_can_return {τ : Type} [DecidableEq τ] (ids : Tasks τ)
    {ls : List (ApiLabel τ (ImageChunk chunkSize))}
    {s : Shared τ (ImageChunk chunkSize) rbDepth} (h : run (shared ids) Shared.init ls = some s)
    (t : τ) : CanReturn ids s t := by
  have hD : rbDepth ∣ 2 ^ 32 := by decide
  have hfollowed : Followed ids s :=
    run_invariant (I := Followed ids) (fun _ _ _ h hs => h.step hD (by decide) hs)
      ⟨_, follows_init⟩ h
  exact canReturn_of_followed hD (by decide) hfollowed t

/-- The camera in `rb_write`, blocked behind the hello task in `rb_read`. -/
def blockedWriter : List (ApiLabel Task (ImageChunk chunkSize)) :=
  .call .hello (.read (some 0)) :: List.replicate 6 (.step .hello) ++
    .call .camera (.write (some 0)) :: List.replicate 5 (.step .camera)

/-- A blocked writer, which has no step of its own. -/
theorem every_call_can_return_blocked :
    ∃ s : Shared Task (ImageChunk chunkSize) rbDepth,
      run (shared launchTasks) Shared.init blockedWriter = some s ∧
      s.guard.pc .camera = .locking (.blocked true) ∧ CanReturn launchTasks s .camera := by
  refine ⟨_, rfl, rfl, ?_⟩
  exact every_call_can_return launchTasks
    (show run (shared launchTasks) Shared.init blockedWriter = some _ from rfl) .camera

end CameraPipeline
