import CameraPipeline.Systems.Program

/-!
# Weakest preconditions

Total correctness of programs without busy-waits, against assertions on a view of the world that the
surroundings do not change. A weakest precondition is computed from the program's text, one case for
each node, and says about runs that the program's own turns bring it to a result, whatever the
surroundings have done before.

## Main definitions

* `Prog.Wp handle view x Q P`: from a world seen as `P`, the program `x` returns with `Q`
* `Comes step s ls S`: the run along `ls` has passed through `S`, or the program's turns lead there

## Main results

* `Comes.and`: what every step preserves holds where a run comes to
* `Prog.wp_bind`, `Prog.wp_once`, `Prog.Wp.mono`: the rules
* `Prog.Wp.run`: what is left of a program after a run meets its weakest precondition
* `Prog.Wp.returns`, `Prog.Wp.comes`: the program's turns lead to a result, and into what follows
-/

namespace Systems

/-- The run from `s` along `ls` has passed through a state in `S`, or the program's own turns, with
the label `none`, lead it on to one. -/
def Comes {σ ℓ : Type} (step : σ → Option ℓ → Option σ) (s : σ) (ls : List (Option ℓ))
    (S : σ → Prop) : Prop :=
  (∃ ls₁ ls₂ t, ls = ls₁ ++ ls₂ ∧ run step s ls₁ = some t ∧ S t) ∨
    ∃ k t, run step s (ls ++ List.replicate k none) = some t ∧ S t

section Comes

variable {σ ℓ : Type} {step : σ → Option ℓ → Option σ} {s t : σ} {ls ms : List (Option ℓ)}
  {S S' : σ → Prop}

theorem Comes.mono (h : Comes step s ls S) (hS : ∀ t, S t → S' t) : Comes step s ls S' := by
  rcases h with ⟨ls₁, ls₂, t, hls, hrun, ht⟩ | ⟨k, t, hrun, ht⟩
  · exact Or.inl ⟨ls₁, ls₂, t, hls, hrun, hS t ht⟩
  · exact Or.inr ⟨k, t, hrun, hS t ht⟩

/-- What a run comes to from a state on its way. -/
theorem Comes.after (hrun : run step s ls = some t) (h : Comes step t ms S) :
    Comes step s (ls ++ ms) S := by
  rcases h with ⟨ms₁, ms₂, u, rfl, hu, hS⟩ | ⟨k, u, hu, hS⟩
  · refine Or.inl ⟨ls ++ ms₁, ms₂, u, (List.append_assoc _ _ _).symm, ?_, hS⟩
    rw [run_append, hrun]
    exact hu
  · refine Or.inr ⟨k, u, ?_, hS⟩
    rw [List.append_assoc, run_append, hrun]
    exact hu

/-- What every step preserves holds where the run comes to. -/
theorem Comes.and {I : σ → Prop} (h : Comes step s ls S) (hs : I s)
    (hI : ∀ t l u, I t → step t l = some u → I u) : Comes step s ls fun t => S t ∧ I t := by
  rcases h with ⟨ls₁, ls₂, t, hls, hrun, ht⟩ | ⟨k, t, hrun, ht⟩
  · exact Or.inl ⟨ls₁, ls₂, t, hls, hrun, ht, run_invariant hI hs hrun⟩
  · exact Or.inr ⟨k, t, hrun, ht, run_invariant hI hs hrun⟩

end Comes

namespace Prog

variable {C : Type} {R : C → Type} {F α β : Type} {W V ℓ : Type}

section Rules

variable (handle : W → (c : C) → Option (R c × W)) (view : W → V)

/-- **Weakest preconditions on a view**: from every world seen as `P`, each call is answered and not
repeated, and the result satisfies `Q` with the view of the world at the return. -/
def Wp : Prog R F α → (α → V → Prop) → V → Prop
  | ret a, Q, P => Q a P
  | fault _, _, _ => False
  | call c again k, Q, P =>
    ∀ w, view w = P → ∃ r w', handle w c = some (r, w') ∧ again r = false ∧ (k r).Wp Q (view w')

variable {handle view} {P : V}

/-- The rule for sequencing. -/
theorem wp_bind {x : Prog R F α} {f : α → Prog R F β} {Q : β → V → Prop}
    (h : x.Wp handle view (fun a P' => (f a).Wp handle view Q P') P) :
    (x >>= f).Wp handle view Q P := by
  induction x generalizing P with
  | ret a => exact h
  | fault e => exact h
  | call c again k ih =>
    intro w hw
    obtain ⟨r, w', hr, hagain, hk⟩ := h w hw
    exact ⟨r, w', hr, hagain, ih r hk⟩

theorem Wp.mono {x : Prog R F α} {Q Q' : α → V → Prop} (h : x.Wp handle view Q P)
    (hQ : ∀ a P', Q a P' → Q' a P') : x.Wp handle view Q' P := by
  induction x generalizing P with
  | ret a => exact hQ a P h
  | fault e => exact h
  | call c again k ih =>
    intro w hw
    obtain ⟨r, w', hr, hagain, hk⟩ := h w hw
    exact ⟨r, w', hr, hagain, ih r hk⟩

/-- The two rules together: the postcondition of `x` is what `f` starts from. -/
theorem Wp.bind {x : Prog R F α} {f : α → Prog R F β} {Q : α → V → Prop} {Q' : β → V → Prop}
    (hx : x.Wp handle view Q P) (hf : ∀ a P', Q a P' → (f a).Wp handle view Q' P') :
    (x >>= f).Wp handle view Q' P :=
  wp_bind (hx.mono hf)

/-- The rule for a call made once. -/
theorem wp_once {c : C} {Q : R c → V → Prop}
    (h : ∀ w, view w = P → ∃ r w', handle w c = some (r, w') ∧ Q r (view w')) :
    (once c : Prog R F (R c)).Wp handle view Q P := by
  intro w hw
  obtain ⟨r, w', hr, hQ⟩ := h w hw
  exact ⟨r, w', hr, rfl, hQ⟩

end Rules

section Runs

variable {handle : W → (c : C) → Option (R c × W)} {env : W → ℓ → Option W} {view : W → V}
  {x p : Prog R F α} {Q : α → V → Prop} {w w' : W} {ls : List (Option ℓ)}

/-- **What is left of a program after a run** meets its weakest precondition. -/
theorem Wp.run (hv : Fixed env view) (h : x.Wp handle view Q (view w))
    (hrun : Systems.run (sched handle env) (x, w) ls = some (p, w')) :
    p.Wp handle view Q (view w') := by
  refine run_invariant (I := fun s => s.1.Wp handle view Q (view s.2)) ?_ h hrun
  rintro ⟨y, w₁⟩ l s hy hs
  cases l with
  | some l =>
    obtain ⟨w₂, hw₂, rfl⟩ := sched_some_eq_some.mp hs
    rw [hv w₁ l w₂ hw₂]
    exact hy
  | none =>
    cases y with
    | ret a => exact absurd hs (by simp [sched, step])
    | fault e => exact hy.elim
    | call c again k =>
      obtain ⟨r, w₂, hr, rfl⟩ := step_call_eq_some.mp hs
      obtain ⟨r', w₃, hr', hagain, hk⟩ := hy w₁ rfl
      obtain ⟨rfl, rfl⟩ := Prod.mk.inj (Option.some.inj (hr.symm.trans hr'))
      rw [hagain, if_neg Bool.false_ne_true]
      exact hk

variable (env) in
/-- **The program's own turns bring it to a result.** -/
theorem Wp.returns (h : x.Wp handle view Q (view w)) :
    ∃ k a w', Systems.run (sched handle env) (x, w) (List.replicate k none) = some (ret a, w') ∧
      Q a (view w') := by
  induction x generalizing w with
  | ret a => exact ⟨0, a, w, rfl, h⟩
  | fault e => exact h.elim
  | call c again k ih =>
    obtain ⟨r, w₁, hr, hagain, hk⟩ := h w rfl
    obtain ⟨n, a, w', hrun, hQ⟩ := ih r hk
    refine ⟨n + 1, a, w', (run_cons_eq_some _).mpr ⟨(k r, w₁), ?_, hrun⟩, hQ⟩
    refine step_call_eq_some.mpr ⟨r, w₁, hr, ?_⟩
    rw [hagain, if_neg Bool.false_ne_true]

/-- **A run of `x >>= f` comes to `f`**, with a result of `x` that satisfies the postcondition. -/
theorem Wp.comes (hv : Fixed env view) (h : x.Wp handle view Q (view w)) {f : α → Prog R F β}
    {p : Prog R F β}
    (hrun : Systems.run (sched handle env) (x >>= f, w) ls = some (p, w')) :
    Comes (sched handle env) (x >>= f, w) ls fun s => ∃ a, s.1 = f a ∧ Q a (view s.2) := by
  rcases run_bind_cases hrun with ⟨y, hy, -, rfl⟩ | ⟨ls₁, ls₂, a, w₁, rfl, hx, -⟩
  · -- still inside `x`: its own turns lead on
    obtain ⟨k, a, w₂, hret, hQ⟩ := (h.run hv hy).returns env
    refine Or.inr ⟨k, (f a, w₂), ?_, a, rfl, hQ⟩
    rw [run_append, run_bind hy, Option.bind_some, run_bind hret]
    rfl
  · -- past it: the run went through the result
    exact Or.inl ⟨ls₁, ls₂, (f a, w₁), rfl, run_bind hx f, a, rfl, h.run hv hx⟩

end Runs

end Prog

end Systems
