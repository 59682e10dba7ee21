import CameraPipeline.Systems.Automaton

/-!
# Interaction programs

A sequential program that does its work by calls to its surroundings: it returns, it stops at a
fault, or it makes a call and continues from the response. A call carries the test of the busy-wait
loop around it, so that a call that is repeated until its response suits is one node of the
program, and an unbounded wait needs no unbounded program. A program says nothing about the
responses: a *handler* answers calls from a world, and between two calls the surroundings may move
the world on their own.

## Main definitions

* `Prog R F α`: programs whose call `c` is answered in `R c`, with faults in `F`
* `Prog.sched handle env`: a program and its surroundings, as a labelled automaton
* `Prog.Triple`: every result satisfies a postcondition on a view of the world
* `Prog.All P Q`: whatever the responses, no fault, every call in `P`, every result in `Q`
* `Prog.Rel E`: two programs that make the same calls, with related results

## Main results

* `Prog.run_bind_cases`: a run of `x >>= f` is inside `x`, or has left it
* `Prog.Triple.bind`, `Prog.triple_call`: the rules for sequencing and for a busy-wait call
* `Prog.All.run`, `Prog.All.returns`, `Prog.Rel.run`: what the two tree predicates say about runs
-/

namespace Systems

/-- **Interaction programs**: a result, a fault, or a call `c` that is repeated while `again` holds
of its response and then continues by `k`. -/
inductive Prog {C : Type} (R : C → Type) (F α : Type)
  | ret (a : α)
  | fault (f : F)
  | call (c : C) (again : R c → Bool) (k : R c → Prog R F α)

namespace Prog

variable {C : Type} {R : C → Type} {F α β : Type} {W ℓ : Type}

/-! ## The monad -/

/-- Sequencing: `f` continues from the results of `x`. -/
def bind (x : Prog R F α) (f : α → Prog R F β) : Prog R F β :=
  match x with
  | ret a => f a
  | fault e => fault e
  | call c again k => call c again fun r => (k r).bind f

instance : Monad (Prog R F) where
  pure := ret
  bind := bind

/-- One call. -/
def once (c : C) : Prog R F (R c) := call c (fun _ => false) ret

/-- A call repeated while `again` holds of its response. -/
def poll (c : C) (again : R c → Bool) : Prog R F (R c) := call c again ret

/-- What a program has returned. -/
def result? : Prog R F α → Option α
  | ret a => some a
  | fault _ => none
  | call _ _ _ => none

theorem result?_eq_some {p : Prog R F α} {a : α} : p.result? = some a ↔ p = ret a := by
  cases p <;> simp [result?]

/-- The program is at a call that satisfies `P`. -/
def asks (P : C → Bool) : Prog R F α → Bool
  | ret _ => false
  | fault _ => false
  | call c _ _ => P c

@[simp] theorem pure_eq_ret (a : α) : (pure a : Prog R F α) = ret a := rfl

@[simp] theorem ret_bind (a : α) (f : α → Prog R F β) : (ret a : Prog R F α) >>= f = f a := rfl

@[simp] theorem fault_bind (e : F) (f : α → Prog R F β) :
    (fault e : Prog R F α) >>= f = fault e := rfl

@[simp] theorem call_bind (c : C) (again : R c → Bool) (k : R c → Prog R F α)
    (f : α → Prog R F β) : call c again k >>= f = call c again fun r => k r >>= f := rfl

theorem bind_ret (x : Prog R F α) : x >>= ret = x := by
  induction x with
  | ret a => rfl
  | fault e => rfl
  | call c again k ih => rw [call_bind]; exact congrArg _ (funext ih)

theorem bind_assoc {γ : Type} (x : Prog R F α) (f : α → Prog R F β) (g : β → Prog R F γ) :
    (x >>= f) >>= g = x >>= fun a => f a >>= g := by
  induction x with
  | ret a => rfl
  | fault e => rfl
  | call c again k ih => exact congrArg _ (funext ih)

/-- A program that has not returned has not returned with more to do either. -/
theorem bind_ne_ret {x : Prog R F α} (h : ∀ a, x ≠ ret a) (f : α → Prog R F β) (b : β) :
    x >>= f ≠ ret b := by
  intro hb
  cases x with
  | ret a => exact h a rfl
  | fault e => cases hb
  | call c again k => cases hb

instance : LawfulMonad (Prog R F) :=
  LawfulMonad.mk' _ (fun x => bind_ret x) (fun _ _ => rfl) (fun x f g => bind_assoc x f g)

/-! ## Runs -/

section Runs

variable (handle : W → (c : C) → Option (R c × W)) (env : W → ℓ → Option W)

/-- One call of the program, answered by the handler. -/
def step : Prog R F α × W → Option (Prog R F α × W)
  | (ret _, _) => none
  | (fault _, _) => none
  | (call c again k, w) =>
    (handle w c).map fun r => (if again r.1 then call c again k else k r.1, r.2)

/-- **A program and its surroundings**: the label `none` is the program's turn, and `some l` a
move of the surroundings. -/
def sched : Prog R F α × W → Option ℓ → Option (Prog R F α × W)
  | s, none => step handle s
  | (p, w), some l => (env w l).map fun w' => (p, w')

variable {handle env}

theorem step_call_eq_some {c : C} {again : R c → Bool} {k : R c → Prog R F α} {w : W}
    {s : Prog R F α × W} :
    step handle (call c again k, w) = some s ↔
      ∃ r w', handle w c = some (r, w') ∧
        s = (if again r then call c again k else k r, w') := by
  rw [step, Option.map_eq_some_iff]
  constructor
  · rintro ⟨⟨r, w'⟩, h, rfl⟩
    exact ⟨r, w', h, rfl⟩
  · rintro ⟨r, w', h, rfl⟩
    exact ⟨(r, w'), h, rfl⟩

theorem sched_some_eq_some {p : Prog R F α} {w : W} {l : ℓ} {s : Prog R F α × W} :
    sched handle env (p, w) (some l) = some s ↔ ∃ w', env w l = some w' ∧ s = (p, w') := by
  rw [sched, Option.map_eq_some_iff]
  simp only [eq_comm]

/-- What every call and every move of the surroundings keeps, every step keeps. -/
theorem sched_keeps {I : W → Prop}
    (hcall : ∀ w c r w', I w → handle w c = some (r, w') → I w')
    (henv : ∀ w l w', I w → env w l = some w' → I w') {s s' : Prog R F α × W} {l : Option ℓ}
    (hs : I s.2) (h : sched handle env s l = some s') : I s'.2 := by
  obtain ⟨x, w⟩ := s
  cases l with
  | some l =>
    obtain ⟨w', hw', rfl⟩ := sched_some_eq_some.mp h
    exact henv w l w' hs hw'
  | none =>
    cases x with
    | ret a => exact absurd h (by simp [sched, step])
    | fault e => exact absurd h (by simp [sched, step])
    | call c again k =>
      obtain ⟨r, w', hr, rfl⟩ := step_call_eq_some.mp h
      exact hcall w c r w' hs hr

/-- One step of `x >>= f` is a step of `x`, or `x` has returned and it is a step of `f`. -/
theorem sched_bind {x : Prog R F α} {f : α → Prog R F β} {w : W} {l : Option ℓ}
    {s : Prog R F β × W} (h : sched handle env (x >>= f, w) l = some s) :
    (∃ y w', sched handle env (x, w) l = some (y, w') ∧ s = (y >>= f, w')) ∨
      ∃ a, x = ret a ∧ sched handle env (f a, w) l = some s := by
  cases l with
  | some l =>
    obtain ⟨w', hw, rfl⟩ := sched_some_eq_some.mp h
    exact Or.inl ⟨x, w', sched_some_eq_some.mpr ⟨w', hw, rfl⟩, rfl⟩
  | none =>
    cases x with
    | ret a => exact Or.inr ⟨a, rfl, h⟩
    | fault e => exact absurd h (by simp [sched, step])
    | call c again k =>
      obtain ⟨r, w', hw, rfl⟩ := step_call_eq_some.mp h
      refine Or.inl ⟨if again r then call c again k else k r, w',
        step_call_eq_some.mpr ⟨r, w', hw, rfl⟩, ?_⟩
      cases again r <;> rfl

/-- **A run of `x >>= f`** is a run of `x` that has not returned, or a run of `x` to a result and
then a run of `f` from it. -/
theorem run_bind_cases {x : Prog R F α} {f : α → Prog R F β} {w w' : W} {ls : List (Option ℓ)}
    {p : Prog R F β} (h : run (sched handle env) (x >>= f, w) ls = some (p, w')) :
    (∃ y, run (sched handle env) (x, w) ls = some (y, w') ∧ (∀ a, y ≠ ret a) ∧ p = y >>= f) ∨
      ∃ ls₁ ls₂ a w₁, ls = ls₁ ++ ls₂ ∧ run (sched handle env) (x, w) ls₁ = some (ret a, w₁) ∧
        run (sched handle env) (f a, w₁) ls₂ = some (p, w') := by
  by_cases hx : ∃ a, x = ret a
  · obtain ⟨a, rfl⟩ := hx
    exact Or.inr ⟨[], ls, a, w, rfl, rfl, h⟩
  induction ls generalizing x w with
  | nil =>
    obtain ⟨rfl, rfl⟩ := Prod.mk.inj (Option.some.inj h)
    exact Or.inl ⟨x, rfl, fun a ha => hx ⟨a, ha⟩, rfl⟩
  | cons l ls ih =>
    obtain ⟨s, hs, hr⟩ := (run_cons_eq_some _).mp h
    rcases sched_bind hs with ⟨y, w₁, hy, rfl⟩ | ⟨a, rfl, -⟩
    · by_cases hret : ∃ a, y = ret a
      · obtain ⟨a, rfl⟩ := hret
        exact Or.inr ⟨[l], ls, a, w₁, rfl, (run_cons_eq_some _).mpr ⟨_, hy, rfl⟩, hr⟩
      · rcases ih hr hret with ⟨z, hz, hne, rfl⟩ | ⟨ls₁, ls₂, a, w₂, rfl, hx, hf⟩
        · exact Or.inl ⟨z, (run_cons_eq_some _).mpr ⟨_, hy, hz⟩, hne, rfl⟩
        · exact Or.inr ⟨l :: ls₁, ls₂, a, w₂, rfl, (run_cons_eq_some _).mpr ⟨_, hy, hx⟩, hf⟩
    · exact absurd ⟨a, rfl⟩ hx

/-- A step of `x` is a step of `x >>= f`. -/
theorem sched_bind_of_eq_some {x y : Prog R F α} {w w' : W} {l : Option ℓ}
    (h : sched handle env (x, w) l = some (y, w')) (f : α → Prog R F β) :
    sched handle env (x >>= f, w) l = some (y >>= f, w') := by
  cases l with
  | some l =>
    obtain ⟨w₂, hw, he⟩ := sched_some_eq_some.mp h
    obtain ⟨rfl, rfl⟩ := Prod.mk.inj he
    exact sched_some_eq_some.mpr ⟨_, hw, rfl⟩
  | none =>
    cases x with
    | ret a => exact absurd h (by simp [sched, step])
    | fault e => exact absurd h (by simp [sched, step])
    | call c again k =>
      obtain ⟨r, w₂, hw, he⟩ := step_call_eq_some.mp h
      obtain ⟨rfl, rfl⟩ := Prod.mk.inj he
      refine step_call_eq_some.mpr ⟨r, _, hw, ?_⟩
      cases again r <;> rfl

/-- A run of `x` is a run of `x >>= f`. -/
theorem run_bind {x y : Prog R F α} {w w' : W} {ls : List (Option ℓ)}
    (h : run (sched handle env) (x, w) ls = some (y, w')) (f : α → Prog R F β) :
    run (sched handle env) (x >>= f, w) ls = some (y >>= f, w') := by
  induction ls generalizing x w with
  | nil =>
    obtain ⟨rfl, rfl⟩ := Prod.mk.inj (Option.some.inj h)
    rfl
  | cons l ls ih =>
    obtain ⟨⟨z, w₁⟩, hz, hr⟩ := (run_cons_eq_some _).mp h
    exact (run_cons_eq_some _).mpr ⟨(z >>= f, w₁), sched_bind_of_eq_some hz f, ih hr⟩

/-- After a run of `x` to a result, a run of `x >>= f` goes on as a run of `f`. -/
theorem run_bind_ret {x : Prog R F α} {a : α} {w w' : W} {ls : List (Option ℓ)}
    (h : run (sched handle env) (x, w) ls = some (ret a, w')) (f : α → Prog R F β)
    (ms : List (Option ℓ)) :
    run (sched handle env) (x >>= f, w) (ls ++ ms) = run (sched handle env) (f a, w') ms := by
  rw [run_append, run_bind h, Option.bind_some, ret_bind]

/-- A call whose response does not repeat it. -/
theorem reaches_call {c : C} {again : R c → Bool} {k : R c → Prog R F α} {w w' : W} {r : R c}
    (h : handle w c = some (r, w')) (hr : again r = false) :
    Reaches (sched handle env) (call c again k, w) (k r, w') := by
  refine Reaches.single none (step_call_eq_some.mpr ⟨r, w', h, ?_⟩)
  rw [hr, if_neg Bool.false_ne_true]

end Runs

/-! ## Postconditions, with the surroundings moving -/

section Triple

variable {V : Type} (handle : W → (c : C) → Option (R c × W)) (env : W → ℓ → Option W)
  (view : W → V)

/-- **Triples on a view of the world**: from a world seen as `P`, whatever the surroundings do
meanwhile, the results of `x` satisfy `Q`, with the view of the world at the return. -/
def Triple (P : V) (x : Prog R F α) (Q : α → V → Prop) : Prop :=
  ∀ w, view w = P → ∀ ls a w', run (sched handle env) (x, w) ls = some (ret a, w') → Q a (view w')

/-- No move of the surroundings changes the view. -/
def Fixed : Prop := ∀ w l w', env w l = some w' → view w' = view w

variable {handle env view} {P : V}

theorem triple_ret (hv : Fixed env view) {a : α} {Q : α → V → Prop} (h : Q a P) :
    Triple handle env view P (ret a : Prog R F α) Q := by
  rintro w rfl ls b w' hr
  have hret : (ret b : Prog R F α) = ret a ∧ view w' = view w := by
    refine run_invariant (I := fun s => s.1 = ret a ∧ view s.2 = view w) ?_ ⟨rfl, rfl⟩ hr
    rintro ⟨p, w₁⟩ l s ⟨rfl, hw₁⟩ hs
    cases l with
    | none => exact absurd hs (by simp [sched, step])
    | some l =>
      obtain ⟨w₂, hw₂, rfl⟩ := sched_some_eq_some.mp hs
      exact ⟨rfl, (hv w₁ l w₂ hw₂).trans hw₁⟩
  rw [hret.2, Prog.ret.inj hret.1]
  exact h

theorem triple_fault {e : F} {Q : α → V → Prop} :
    Triple handle env view P (fault e : Prog R F α) Q := by
  intro w _ ls b w' hr
  have hfault : (ret b : Prog R F α) = fault e := by
    refine run_invariant (I := fun s => s.1 = fault e) ?_ rfl hr
    rintro ⟨p, w₁⟩ l s rfl hs
    cases l with
    | none => exact absurd hs (by simp [sched, step])
    | some l =>
      obtain ⟨w₂, -, rfl⟩ := sched_some_eq_some.mp hs
      rfl
  cases hfault

theorem Triple.mono {x : Prog R F α} {Q Q' : α → V → Prop} (h : Triple handle env view P x Q)
    (hQ : ∀ a P', Q a P' → Q' a P') : Triple handle env view P x Q' :=
  fun w hw ls a w' hr => hQ a _ (h w hw ls a w' hr)

/-- The rule for sequencing. -/
theorem Triple.bind {x : Prog R F α} {f : α → Prog R F β} {Q : α → V → Prop} {Q' : β → V → Prop}
    (hx : Triple handle env view P x Q)
    (hf : ∀ a P', Q a P' → Triple handle env view P' (f a) Q') :
    Triple handle env view P (x >>= f) Q' := by
  intro w hw ls b w' hr
  rcases run_bind_cases hr with ⟨y, -, hne, hyb⟩ | ⟨ls₁, ls₂, a, w₁, -, hx₁, hf₁⟩
  · exact absurd hyb.symm (bind_ne_ret hne f b)
  · exact hf a (view w₁) (hx w hw ls₁ a w₁ hx₁) w₁ rfl ls₂ b w' hf₁

/-- **The rule for a busy-wait call**: responses that repeat the call keep the assertion `J` on the
view, and from a response that does not the continuation meets the postcondition. -/
theorem triple_call (hv : Fixed env view) {c : C} {again : R c → Bool} {k : R c → Prog R F α}
    {J : V → Prop} {Q : α → V → Prop} (hP : J P)
    (hagain : ∀ w r w', J (view w) → handle w c = some (r, w') → again r = true → J (view w'))
    (hk : ∀ w r w', J (view w) → handle w c = some (r, w') → again r = false →
      Triple handle env view (view w') (k r) Q) :
    Triple handle env view P (call c again k) Q := by
  rintro w rfl ls a w' hr
  -- on the schedule, with `J` as the loop invariant of the busy-wait
  induction ls generalizing w with
  | nil => cases (Prod.mk.inj (Option.some.inj hr)).1
  | cons l ls ih =>
    obtain ⟨s, hs, hr⟩ := (run_cons_eq_some _).mp hr
    cases l with
    | some l =>
      obtain ⟨w₁, hw₁, rfl⟩ := sched_some_eq_some.mp hs
      exact ih w₁ ((hv w l w₁ hw₁).symm ▸ hP) hr
    | none =>
      obtain ⟨r, w₁, hc, rfl⟩ := step_call_eq_some.mp hs
      cases ha : again r with
      | true =>
        rw [ha, if_pos rfl] at hr
        exact ih w₁ (hagain w r w₁ hP hc ha) hr
      | false =>
        rw [ha, if_neg Bool.false_ne_true] at hr
        exact hk w r w₁ hP hc ha w₁ rfl ls a w' hr

/-- The rule for a call made once. -/
theorem triple_once (hv : Fixed env view) {c : C} {Q : R c → V → Prop}
    (h : ∀ w r w', view w = P → handle w c = some (r, w') → Q r (view w')) :
    Triple handle env view P (once c : Prog R F (R c)) Q :=
  triple_call hv (J := fun P' => P' = P) rfl (fun _ _ _ _ _ ha => Bool.noConfusion ha)
    fun w r w' hw hc _ => triple_ret hv (h w r w' hw hc)

end Triple

/-! ## Whatever the responses -/

/-- Whatever the responses, the program does not fault, makes only calls in `P`, and returns only
results in `Q`. -/
inductive All (P : (c : C) → (R c → Bool) → Prop) (Q : α → Prop) : Prog R F α → Prop
  | ret {a : α} (h : Q a) : All P Q (ret a)
  | call {c : C} {again : R c → Bool} {k : R c → Prog R F α} (hc : P c again)
      (hk : ∀ r, All P Q (k r)) : All P Q (call c again k)

section All

variable {P P' : (c : C) → (R c → Bool) → Prop} {handle : W → (c : C) → Option (R c × W)}
  {env : W → ℓ → Option W}

theorem All.bind {Q : α → Prop} {Q' : β → Prop} {x : Prog R F α} {f : α → Prog R F β}
    (hx : All P Q x) (hf : ∀ a, Q a → All P Q' (f a)) : All P Q' (x >>= f) := by
  induction hx with
  | ret h => exact hf _ h
  | call hc _ ih => exact All.call hc ih

theorem All.mono {Q Q' : α → Prop} {x : Prog R F α} (hx : All P Q x)
    (hP : ∀ c again, P c again → P' c again) (hQ : ∀ a, Q a → Q' a) : All P' Q' x := by
  induction hx with
  | ret h => exact All.ret (hQ _ h)
  | call hc _ ih => exact All.call (hP _ _ hc) ih

theorem All.once {c : C} (hc : P c fun _ => false) :
    All P (fun _ => True) (once c : Prog R F (R c)) :=
  All.call hc fun _ => All.ret trivial

theorem All.poll {c : C} {again : R c → Bool} (hc : P c again) :
    All P (fun _ => True) (poll c again : Prog R F (R c)) :=
  All.call hc fun _ => All.ret trivial

/-- **Runs of a safe program**: what a run leaves of the program is as safe as the program, and an
assertion on the world that its calls and the surroundings keep still holds. -/
theorem All.run {Q : α → Prop} {I : W → Prop} {p p' : Prog R F α} {w w' : W} {ls : List (Option ℓ)}
    (hp : All P Q p) (hw : I w)
    (hcall : ∀ w c again r w', I w → P c again → handle w c = some (r, w') → I w')
    (henv : ∀ w l w', I w → env w l = some w' → I w')
    (h : Systems.run (sched handle env) (p, w) ls = some (p', w')) :
    All P Q p' ∧ I w' := by
  refine run_invariant (I := fun s => All P Q s.1 ∧ I s.2) ?_ ⟨hp, hw⟩ h
  rintro ⟨p, w⟩ l s ⟨hp, hw⟩ hs
  cases l with
  | some l =>
    obtain ⟨w', hw', rfl⟩ := sched_some_eq_some.mp hs
    exact ⟨hp, henv w l w' hw hw'⟩
  | none =>
    cases hp with
    | ret h => exact absurd hs (by simp [sched, step])
    | call hc hk =>
      obtain ⟨r, w', hw', rfl⟩ := step_call_eq_some.mp hs
      refine ⟨?_, hcall w _ _ r w' hw hc hw'⟩
      dsimp only
      split
      · exact All.call hc hk
      · exact hk r

theorem All.of_ret {Q : α → Prop} {a : α} (h : All P Q (Prog.ret a : Prog R F α)) : Q a := by
  cases h with
  | ret h => exact h

/-- The results of runs of a safe program. -/
theorem All.result {Q : α → Prop} {p : Prog R F α} {a : α} {w w' : W} {ls : List (Option ℓ)}
    (hp : All P Q p) (h : Systems.run (sched handle env) (p, w) ls = some (Prog.ret a, w')) : Q a :=
  (hp.run (I := fun _ => True) trivial (fun _ _ _ _ _ _ _ _ => trivial)
    (fun _ _ _ _ _ => trivial) h).1.of_ret

/-- **A program without busy-waits returns**, when every call is answered. -/
theorem All.returns {Q : α → Prop} {p : Prog R F α}
    (hp : All (fun _ again => ∀ r, again r = false) Q p) (htotal : ∀ w c, (handle w c).isSome)
    (w : W) : ∃ a w', Reaches (sched handle env) (p, w) (Prog.ret a, w') ∧ Q a := by
  induction hp generalizing w with
  | ret h => exact ⟨_, w, Reaches.refl _, h⟩
  | call hc _ ih =>
    obtain ⟨⟨r, w₁⟩, hr⟩ := Option.isSome_iff_exists.mp (htotal w _)
    obtain ⟨a, w', hrun, ha⟩ := ih r w₁
    exact ⟨a, w', (reaches_call hr (hc r)).trans hrun, ha⟩

end All

/-! ## Two programs with the same calls -/

/-- The two programs make the same calls on the same responses, fault alike, and return results
related by `E`. -/
inductive Rel (E : α → β → Prop) : Prog R F α → Prog R F β → Prop
  | ret {a : α} {b : β} (h : E a b) : Rel E (ret a) (ret b)
  | fault (e : F) : Rel E (fault e) (fault e)
  | call {c : C} {again : R c → Bool} {k : R c → Prog R F α} {k' : R c → Prog R F β}
      (hk : ∀ r, Rel E (k r) (k' r)) : Rel E (call c again k) (call c again k')

theorem Rel.bind {γ δ : Type} {E : α → β → Prop} {E' : γ → δ → Prop} {x : Prog R F α}
    {y : Prog R F β} {f : α → Prog R F γ} {g : β → Prog R F δ} (hx : Rel E x y)
    (hf : ∀ a b, E a b → Rel E' (f a) (g b)) : Rel E' (x >>= f) (y >>= g) := by
  induction hx with
  | ret h => exact hf _ _ h
  | fault e => exact Rel.fault e
  | call _ ih => exact Rel.call ih

theorem Rel.refl {E : α → α → Prop} (hE : ∀ a, E a a) (x : Prog R F α) : Rel E x x := by
  induction x with
  | ret a => exact Rel.ret (hE a)
  | fault e => exact Rel.fault e
  | call c again k ih => exact Rel.call ih

/-- Two programs that begin alike. -/
theorem Rel.bind_left {γ : Type} {E : β → γ → Prop} {x : Prog R F α} {f : α → Prog R F β}
    {g : α → Prog R F γ} (hf : ∀ a, Rel E (f a) (g a)) : Rel E (x >>= f) (x >>= g) :=
  Rel.bind (Rel.refl (E := fun a b => a = b) (fun _ => rfl) x) fun a _ h => h ▸ hf a

/-- **Lockstep**: related programs run alike under the same schedule, and stay related. -/
theorem Rel.run {E : α → β → Prop} {handle : W → (c : C) → Option (R c × W)}
    {env : W → ℓ → Option W} {x x' : Prog R F α} {y : Prog R F β} {w w' : W}
    {ls : List (Option ℓ)} (hxy : Rel E x y)
    (h : Systems.run (sched handle env) (x, w) ls = some (x', w')) :
    ∃ y', Systems.run (sched handle env) (y, w) ls = some (y', w') ∧ Rel E x' y' := by
  induction ls generalizing x y w with
  | nil =>
    obtain ⟨rfl, rfl⟩ := Prod.mk.inj (Option.some.inj h)
    exact ⟨y, rfl, hxy⟩
  | cons l ls ih =>
    obtain ⟨⟨z, w₁⟩, hz, hr⟩ := (run_cons_eq_some _).mp h
    cases l with
    | some l =>
      obtain ⟨w₂, hw, he⟩ := sched_some_eq_some.mp hz
      obtain ⟨rfl, rfl⟩ := Prod.mk.inj he
      obtain ⟨y', hy', hrel⟩ := ih hxy hr
      exact ⟨y', (run_cons_eq_some _).mpr ⟨_, sched_some_eq_some.mpr ⟨_, hw, rfl⟩, hy'⟩, hrel⟩
    | none =>
      cases hxy with
      | ret h => exact absurd hz (by simp [sched, step])
      | fault e => exact absurd hz (by simp [sched, step])
      | @call c again k k' hk =>
        obtain ⟨r, w₂, hw, he⟩ := step_call_eq_some.mp hz
        obtain ⟨rfl, rfl⟩ := Prod.mk.inj he
        have hnext : Rel E (if again r then Prog.call c again k else k r)
            (if again r then Prog.call c again k' else k' r) := by
          cases again r
          · exact hk r
          · exact Rel.call hk
        obtain ⟨y', hy', hrel⟩ := ih hnext hr
        exact ⟨y', (run_cons_eq_some _).mpr ⟨_, step_call_eq_some.mpr ⟨r, _, hw, rfl⟩, hy'⟩, hrel⟩

end Prog

end Systems
