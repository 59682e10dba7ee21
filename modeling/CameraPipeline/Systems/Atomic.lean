import Mathlib.Data.List.Induction
import CameraPipeline.Systems.Program

/-!
# Atomic objects

What the clients of a shared object observe is the sequence of their calls and returns. The atomic
object of a reactive automaton lets every call take effect at one moment between the call and its
return, and a sequence of calls and returns is linearizable when the atomic object has a run that
shows it. An implementation is linearizable when the atomic object simulates it, step by step.

## Main definitions

* `trace step obs s ls`: what is observed along a run
* `Event`, `Atomic`, `atomic step`: calls and returns, and the atomic object of an automaton
* `Linearizable step s es`: the atomic object, from `s`, has a run that shows `es`
* `Prog.Finishes mem x w a w'`: the program, run alone, returns `a` and leaves the memory `w'`

## Main results

* `run_history`: what every step preserves of the history and the state, every run preserves
* `run_simulates`: what every step can be followed in, every run can be followed in
* `Linearizable.of_sim`: an implementation that the atomic object simulates is linearizable
* `Prog.Finishes.step`: a step of a program run alone leaves its result and final memory alone
-/

namespace Systems

variable {σ τ ℓ ℓ' ι ο ε : Type*}

/-! ## Observations -/

section Trace

variable (step : σ → ℓ → Option σ) (obs : σ → ℓ → List ε)

/-- What is observed along the labels `ls`. -/
def trace (s : σ) : List ℓ → List ε
  | [] => []
  | l :: ls =>
    match step s l with
    | none => []
    | some s' => obs s l ++ trace s' ls

theorem trace_cons {s s' : σ} {l : ℓ} (h : step s l = some s') (ls : List ℓ) :
    trace step obs s (l :: ls) = obs s l ++ trace step obs s' ls := by
  rw [trace, h]

theorem trace_append {s s' : σ} {ls : List ℓ} (h : run step s ls = some s') (ms : List ℓ) :
    trace step obs s (ls ++ ms) = trace step obs s ls ++ trace step obs s' ms := by
  induction ls generalizing s with
  | nil =>
    obtain rfl := Option.some.inj h
    rfl
  | cons l ls ih =>
    obtain ⟨t, ht, hr⟩ := (run_cons_eq_some step).mp h
    rw [List.cons_append, trace_cons step obs ht, trace_cons step obs ht, ih hr, List.append_assoc]

theorem trace_snoc {s s₁ s₂ : σ} {ls : List ℓ} {l : ℓ} (h : run step s ls = some s₁)
    (hl : step s₁ l = some s₂) :
    trace step obs s (ls ++ [l]) = trace step obs s ls ++ obs s₁ l := by
  rw [trace_append step obs h, trace_cons step obs hl, trace, List.append_nil]

variable {step} in
/-- **Invariants of a history**: what holds at the start, and is kept by every step whose label
meets `C`, said of the labels so far and of the state, holds of every run whose labels all do. -/
theorem run_history {C : ℓ → Prop} {I : List ℓ → σ → Prop} {s₀ : σ} (hnil : I [] s₀)
    (hstep : ∀ ls s l s', run step s₀ ls = some s → I ls s → C l → step s l = some s' →
      I (ls ++ [l]) s')
    {ls : List ℓ} {s : σ} (hC : ∀ l ∈ ls, C l) (h : run step s₀ ls = some s) : I ls s := by
  induction ls using List.reverseRecOn generalizing s with
  | nil => exact Option.some.inj h ▸ hnil
  | append_singleton ls l ih =>
    rw [run_append, Option.bind_eq_some_iff] at h
    obtain ⟨s₁, h₁, hlast⟩ := h
    obtain ⟨s₂, hl, hend⟩ := (run_cons_eq_some step).mp hlast
    obtain rfl := Option.some.inj hend
    have hC₁ : ∀ l ∈ ls, C l := fun l hl => hC l (List.mem_append_left _ hl)
    exact hstep ls s₁ l s₂ h₁ (ih hC₁ h₁) (hC l (by simp)) hl

end Trace

section Simulation

variable {step : σ → ℓ → Option σ} {step' : τ → ℓ' → Option τ} {obs : σ → ℓ → List ε}
  {obs' : τ → ℓ' → List ε} {R : σ → τ → Prop}

/-- **Forward simulation**: when every step between related states can be followed by labels that
show the same, every run can. -/
theorem run_simulates
    (hstep : ∀ s l s' t, R s t → step s l = some s' →
      ∃ ms t', run step' t ms = some t' ∧ trace step' obs' t ms = obs s l ∧ R s' t')
    {s s' : σ} {t : τ} {ls : List ℓ} (hR : R s t) (h : run step s ls = some s') :
    ∃ ms t', run step' t ms = some t' ∧ trace step' obs' t ms = trace step obs s ls ∧ R s' t' := by
  induction ls generalizing s t with
  | nil => exact ⟨[], t, rfl, rfl, Option.some.inj h ▸ hR⟩
  | cons l ls ih =>
    obtain ⟨s₁, hs₁, hr⟩ := (run_cons_eq_some step).mp h
    obtain ⟨ms, t₁, hrun, htrace, hR₁⟩ := hstep s l s₁ t hR hs₁
    obtain ⟨ms', t', hrun', htrace', hR'⟩ := ih hR₁ hr
    refine ⟨ms ++ ms', t', ?_, ?_, hR'⟩
    · rw [run_append, hrun, Option.bind_some, hrun']
    · rw [trace_append step' obs' hrun, htrace, htrace', trace_cons step obs hs₁]

end Simulation

/-! ## The atomic object -/

/-- What the clients of a shared object observe: task `t` calls with `x`, and a call of task `t`
returns `y`. -/
inductive Event (τ ι ο : Type*)
  | call (t : τ) (x : ι)
  | ret (t : τ) (y : ο)

/-- Where a task is with its call: outside, before the call takes effect, and after. -/
inductive Stage (ι ο : Type*)
  | out
  | called (x : ι)
  | done (y : ο)

/-- An object and the calls of it that are under way. -/
structure Atomic (σ τ ι ο : Type*) where
  obj : σ
  stage : τ → Stage ι ο

/-- The moves of an atomic object. -/
inductive Move (τ ι : Type*)
  | call (t : τ) (x : ι)
  | effect (t : τ)
  | ret (t : τ)

section Atomic

variable [DecidableEq τ] (step : σ → ι → σ × ο)

/-- The object `s` with no call under way. -/
def Atomic.idle (s : σ) : Atomic σ τ ι ο := ⟨s, fun _ => .out⟩

/-- **The atomic object** of a reactive automaton: a call takes effect, as one step of the
automaton, at some moment before it returns. -/
def atomic (a : Atomic σ τ ι ο) : Move τ ι → Option (Atomic σ τ ι ο)
  | .call t x =>
    match a.stage t with
    | .out => some { a with stage := Function.update a.stage t (.called x) }
    | _ => none
  | .effect t =>
    match a.stage t with
    | .called x =>
      some ⟨(step a.obj x).1, Function.update a.stage t (.done (step a.obj x).2)⟩
    | _ => none
  | .ret t =>
    match a.stage t with
    | .done _ => some { a with stage := Function.update a.stage t .out }
    | _ => none

omit [DecidableEq τ] in
/-- What the clients observe of a move. -/
def Atomic.observe (a : Atomic σ τ ι ο) : Move τ ι → List (Event τ ι ο)
  | .call t x => [.call t x]
  | .effect _ => []
  | .ret t =>
    match a.stage t with
    | .done y => [.ret t y]
    | _ => []

/-- The calls and returns `es` are those of a run of the atomic object that begins with `s`. -/
def Linearizable (s : σ) (es : List (Event τ ι ο)) : Prop :=
  ∃ ms a, run (atomic step) (Atomic.idle s) ms = some a ∧
    trace (atomic step) Atomic.observe (Atomic.idle s) ms = es

variable {a : Atomic σ τ ι ο} {t : τ}

theorem atomic_call (h : a.stage t = .out) (x : ι) :
    run (atomic step) a [.call t x] =
        some { a with stage := Function.update a.stage t (.called x) } ∧
      trace (atomic step) Atomic.observe a [.call t x] = [.call t x] := by
  simp [run, trace, atomic, Atomic.observe, h]

theorem atomic_effect {x : ι} (h : a.stage t = .called x) :
    run (atomic step) a [.effect t] =
        some ⟨(step a.obj x).1, Function.update a.stage t (.done (step a.obj x).2)⟩ ∧
      trace (atomic step) Atomic.observe a [.effect t] = [] := by
  simp [run, trace, atomic, Atomic.observe, h]

theorem atomic_ret {y : ο} (h : a.stage t = .done y) :
    run (atomic step) a [.ret t] = some { a with stage := Function.update a.stage t .out } ∧
      trace (atomic step) Atomic.observe a [.ret t] = [.ret t y] := by
  simp [run, trace, atomic, Atomic.observe, h]

variable {step}

/-- **An implementation that the atomic object simulates is linearizable.** -/
theorem Linearizable.of_sim {ρ : Type*} {impl : ρ → ℓ → Option ρ} {obs : ρ → ℓ → List (Event τ ι ο)}
    {R : ρ → Atomic σ τ ι ο → Prop}
    (hstep : ∀ r l r' a, R r a → impl r l = some r' →
      ∃ ms a', run (atomic step) a ms = some a' ∧
        trace (atomic step) Atomic.observe a ms = obs r l ∧ R r' a')
    {r r' : ρ} {s : σ} {ls : List ℓ} (hR : R r (Atomic.idle s)) (h : run impl r ls = some r') :
    Linearizable step s (trace impl obs r ls) := by
  obtain ⟨ms, a, hrun, htrace, -⟩ := run_simulates hstep hR h
  exact ⟨ms, a, hrun, htrace⟩

end Atomic

/-! ## Programs run alone -/

namespace Prog

variable {C : Type} {R : C → Type} {F α β : Type} {W : Type}
  (mem : W → (c : C) → Option (R c × W))

/-- **The program `x`, run alone on the memory `w`**, returns `a` and leaves the memory `w'`. -/
inductive Finishes : Prog R F α → W → α → W → Prop
  | ret (a : α) (w : W) : Finishes (ret a) w a w
  | call {c : C} {again : R c → Bool} {k : R c → Prog R F α} {w w₁ w' : W} {r : R c} {a : α}
      (hc : mem w c = some (r, w₁)) (hr : again r = false) (hk : Finishes (k r) w₁ a w') :
      Finishes (call c again k) w a w'

variable {mem}

theorem Finishes.bind {x : Prog R F α} {f : α → Prog R F β} {w w₁ w' : W} {a : α} {b : β}
    (hx : Finishes mem x w a w₁) (hf : Finishes mem (f a) w₁ b w') :
    Finishes mem (x >>= f) w b w' := by
  induction hx with
  | ret a w => exact hf
  | call hc hr _ ih => exact .call hc hr (ih hf)

theorem Finishes.once {c : C} {w w' : W} {r : R c} (hc : mem w c = some (r, w')) :
    Finishes mem (once c : Prog R F (R c)) w r w' :=
  .call hc rfl (.ret r w')

theorem Finishes.of_ret {a b : α} {w w' : W}
    (h : Finishes mem (Prog.ret a : Prog R F α) w b w') : a = b ∧ w = w' := by
  cases h with
  | ret => exact ⟨rfl, rfl⟩

/-- A program run alone takes its next step, and goes on to the same end. -/
theorem Finishes.step {c : C} {again : R c → Bool} {k : R c → Prog R F α} {w w' : W} {a : α}
    (h : Finishes mem (Prog.call c again k) w a w') :
    ∃ p w₁, Prog.step mem (Prog.call c again k, w) = some (p, w₁) ∧ Finishes mem p w₁ a w' := by
  cases h with
  | @call _ _ _ _ w₁ _ r _ hc hr hk =>
    refine ⟨k r, w₁, step_call_eq_some.mpr ⟨r, w₁, hc, ?_⟩, hk⟩
    rw [hr, if_neg Bool.false_ne_true]

end Prog

end Systems
