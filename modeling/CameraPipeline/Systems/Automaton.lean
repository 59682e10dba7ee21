import Mathlib.Data.List.Basic
import Mathlib.Data.Nat.ModEq

/-!
# Automata and their runs

Two kinds of automaton. A *labelled* automaton answers `step s l` with the next state, or with
`none` when the label is not enabled; an interleaving of several parties is a list of labels, and
the labels carry every choice the scheduler makes. A *reactive* automaton answers every input with
an output and a next state.

## Main definitions

* `run step s ls`, `Reaches step s t`: the state a labelled automaton reaches along `ls`, and the
  states it reaches along some labels
* `Along C step s ls`: every step of that run is taken where `C` holds
* `countAlong p step s ls`: how many steps of that run satisfy `p`
* `after step s xs`, `replies step s xs`: the state and the outputs of a reactive automaton
* `IsSim step step' R`: related states answer alike and stay related

## Main results

* `run_invariant`, `run_invariant_along`: what every step preserves, every run preserves
* `run_measure`: a measure that each step raises by the steps it counts
* `IsSim.replies_eq`, `IsSim.after`: a simulation carries over whole runs
-/

namespace Systems

variable {σ τ ℓ ι ο : Type*}

/-! ## Labelled automata -/

section Labelled

variable (step : σ → ℓ → Option σ)

/-- The state reached from `s` along the labels `ls`, if every label was enabled. -/
def run (s : σ) : List ℓ → Option σ
  | [] => some s
  | l :: ls => (step s l).bind fun s' => run s' ls

/-- Every step of the run along `ls` is taken in a state, and by a label, meeting `C`. -/
def Along (C : σ → ℓ → Prop) (s : σ) : List ℓ → Prop
  | [] => True
  | l :: ls => C s l ∧ ∀ s', step s l = some s' → Along C s' ls

/-- The number of steps satisfying `p` in the run along `ls`. -/
def countAlong (p : σ → ℓ → Bool) (s : σ) : List ℓ → ℕ
  | [] => 0
  | l :: ls =>
    match step s l with
    | none => 0
    | some s' => (p s l).toNat + countAlong p s' ls

theorem run_cons_eq_some {s s' : σ} {l : ℓ} {ls : List ℓ} :
    run step s (l :: ls) = some s' ↔ ∃ t, step s l = some t ∧ run step t ls = some s' := by
  rw [run, Option.bind_eq_some_iff]

theorem run_append (s : σ) (ls ms : List ℓ) :
    run step s (ls ++ ms) = (run step s ls).bind fun t => run step t ms := by
  induction ls generalizing s with
  | nil => rfl
  | cons l ls ih =>
    rw [List.cons_append, run, run]
    cases step s l with
    | none => rfl
    | some t => exact ih t

/-- Some labels lead from `s` to `t`. -/
def Reaches (s t : σ) : Prop := ∃ ls, run step s ls = some t

variable {step}

theorem Reaches.refl (s : σ) : Reaches step s s := ⟨[], rfl⟩

theorem Reaches.trans {s t u : σ} (h : Reaches step s t) (h' : Reaches step t u) :
    Reaches step s u := by
  obtain ⟨ls, h⟩ := h
  obtain ⟨ms, h'⟩ := h'
  exact ⟨ls ++ ms, by rw [run_append, h, Option.bind_some, h']⟩

theorem Reaches.single {s t : σ} (l : ℓ) (h : step s l = some t) : Reaches step s t :=
  ⟨[l], by rw [run, h]; rfl⟩

theorem Along.mono {C C' : σ → ℓ → Prop} (hC : ∀ s l, C s l → C' s l) {s : σ} {ls : List ℓ}
    (h : Along step C s ls) : Along step C' s ls := by
  induction ls generalizing s with
  | nil => trivial
  | cons l ls ih => exact ⟨hC s l h.1, fun t ht => ih (h.2 t ht)⟩

/-- Whether the steps of a run meet a decidable condition is decided by running it. -/
instance decidableAlong (C : σ → ℓ → Prop) [∀ s l, Decidable (C s l)] :
    ∀ s ls, Decidable (Along step C s ls)
  | _, [] => isTrue trivial
  | s, l :: ls =>
    match h : step s l with
    | none => decidable_of_iff (C s l) (by simp [Along, h])
    | some t =>
      have := decidableAlong C t ls
      decidable_of_iff (C s l ∧ Along step C t ls) (by simp [Along, h])

/-- **Invariants under a guard**: what every step meeting `C` preserves holds along every run
whose steps all meet `C`. -/
theorem run_invariant_along {C : σ → ℓ → Prop} {I : σ → Prop}
    (hstep : ∀ s l s', I s → C s l → step s l = some s' → I s') {s s' : σ} {ls : List ℓ}
    (hs : I s) (hC : Along step C s ls) (h : run step s ls = some s') : I s' := by
  induction ls generalizing s with
  | nil => exact Option.some.inj h ▸ hs
  | cons l ls ih =>
    obtain ⟨t, ht, hr⟩ := (run_cons_eq_some step).mp h
    exact ih (hstep s l t hs hC.1 ht) (hC.2 t ht) hr

/-- **Invariants**: what every step preserves, every run preserves. -/
theorem run_invariant {I : σ → Prop} (hstep : ∀ s l s', I s → step s l = some s' → I s')
    {s s' : σ} {ls : List ℓ} (hs : I s) (h : run step s ls = some s') : I s' := by
  induction ls generalizing s with
  | nil => exact Option.some.inj h ▸ hs
  | cons l ls ih =>
    obtain ⟨t, ht, hr⟩ := (run_cons_eq_some step).mp h
    exact ih (hstep s l t hs ht) hr

/-- **A measure counts steps**: when each step can be followed in the invariant `I`, indexed by
what it tracks, and raises the measure by one exactly if it satisfies `p`, the measure counts the
steps of a run that satisfy `p`. -/
theorem run_measure {κ : Type*} {I : κ → σ → Prop} {p : σ → ℓ → Bool} {μ : κ → ℕ}
    (hstep : ∀ k s l s', I k s → step s l = some s' →
      ∃ k', I k' s' ∧ μ k' = μ k + (p s l).toNat)
    {k : κ} {s s' : σ} {ls : List ℓ} (hs : I k s) (h : run step s ls = some s') :
    ∃ k', I k' s' ∧ μ k' = μ k + countAlong step p s ls := by
  induction ls generalizing k s with
  | nil => exact ⟨k, Option.some.inj h ▸ hs, rfl⟩
  | cons l ls ih =>
    obtain ⟨t, ht, hr⟩ := (run_cons_eq_some step).mp h
    obtain ⟨k₁, hk₁, hμ₁⟩ := hstep k s l t hs ht
    obtain ⟨k', hk', hμ'⟩ := ih hk₁ hr
    exact ⟨k', hk', by rw [hμ', hμ₁, countAlong, ht, Nat.add_assoc]⟩

end Labelled

/-! ## Reactive automata -/

section Reactive

variable (step : σ → ι → σ × ο) (step' : τ → ι → τ × ο)

/-- The state of a reactive automaton after the inputs `xs`. -/
def after (s : σ) (xs : List ι) : σ :=
  xs.foldl (fun s x => (step s x).1) s

/-- The outputs of a reactive automaton to the inputs `xs`, in order. -/
def replies (s : σ) : List ι → List ο
  | [] => []
  | x :: xs => (step s x).2 :: replies (step s x).1 xs

@[simp] theorem after_nil (s : σ) : after step s [] = s := rfl

@[simp] theorem after_cons (s : σ) (x : ι) (xs : List ι) :
    after step s (x :: xs) = after step (step s x).1 xs := rfl

theorem after_append (s : σ) (xs ys : List ι) :
    after step s (xs ++ ys) = after step (after step s xs) ys := List.foldl_append

theorem replies_append (s : σ) (xs ys : List ι) :
    replies step s (xs ++ ys) = replies step s xs ++ replies step (after step s xs) ys := by
  induction xs generalizing s with
  | nil => rfl
  | cons x xs ih => rw [List.cons_append, replies, ih, replies, after_cons, List.cons_append]

theorem length_replies (s : σ) (xs : List ι) : (replies step s xs).length = xs.length := by
  induction xs generalizing s with
  | nil => rfl
  | cons x xs ih => rw [replies, List.length_cons, ih, List.length_cons]

/-- Related states answer every input alike, and stay related. -/
def IsSim (R : σ → τ → Prop) : Prop :=
  ∀ s t x, R s t → (step s x).2 = (step' t x).2 ∧ R (step s x).1 (step' t x).1

variable {step step'}

theorem IsSim.after {R : σ → τ → Prop} (hR : IsSim step step' R) {s : σ} {t : τ} (h : R s t)
    (xs : List ι) : R (after step s xs) (after step' t xs) := by
  induction xs generalizing s t with
  | nil => exact h
  | cons x xs ih => exact ih (hR s t x h).2

theorem IsSim.replies_eq {R : σ → τ → Prop} (hR : IsSim step step' R) {s : σ} {t : τ} (h : R s t)
    (xs : List ι) : replies step s xs = replies step' t xs := by
  induction xs generalizing s t with
  | nil => rfl
  | cons x xs ih => rw [replies, replies, (hR s t x h).1, ih (hR s t x h).2]

end Reactive

end Systems
