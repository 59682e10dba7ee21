import CameraPipeline.Systems.Program

/-!
# Hidden calls

Of the calls a program makes, its surroundings may notice only some. Two worlds that the
surroundings do not tell apart stay so when one of them answers a hidden call and the other does
not, and when both answer the same call that is seen. A run of a program is then imitated by a run
from the other world in which the hidden calls are left out.

## Main definitions

* `Imitated step C s ls s' t'`: a run leads from `s'` to `t'`, and meets `C` if the run from `s`
  along `ls` does
* `Prog.Makes P Q`: whatever the responses, every call in `P` and every result in `Q`; a fault is
  allowed
* `Prog.Blind handle env S hidden seen`: what the worlds related by `S` have in common
* `Prog.OnCalls S C`: the condition `C` is on the call about to be made and what `S` sees

## Main results

* `Imitated.trans`: runs imitated one after the other
* `Prog.Makes.imitated_hidden`: a program of hidden calls is imitated by none
* `Prog.Makes.imitated_seen`: a program of calls that are seen is imitated by itself
-/

namespace Systems

/-! ## Imitating a run -/

section Imitated

variable {σ ℓ : Type} {step : σ → ℓ → Option σ} {C : σ → ℓ → Prop} {s t s' t' u' : σ}
  {ls ms : List ℓ}

variable (step C) in
/-- Some run leads from `s'` to `t'`, and its steps meet `C` if those of the run from `s` along `ls`
do. -/
def Imitated (s : σ) (ls : List ℓ) (s' t' : σ) : Prop :=
  ∃ ls', run step s' ls' = some t' ∧ (Along step C s ls → Along step C s' ls')

theorem along_append (hrun : run step s ls = some t) :
    Along step C s (ls ++ ms) ↔ Along step C s ls ∧ Along step C t ms := by
  induction ls generalizing s with
  | nil =>
    obtain rfl := Option.some.inj hrun
    simp [Along]
  | cons l ls ih =>
    obtain ⟨r, hr, hrun⟩ := (run_cons_eq_some step).mp hrun
    simp [Along, hr, ih hrun, and_assoc]

/-- A run imitated up to `t`, and from there on. -/
theorem Imitated.trans (h : Imitated step C s ls s' t') (hrun : run step s ls = some t)
    (h' : Imitated step C t ms t' u') : Imitated step C s (ls ++ ms) s' u' := by
  obtain ⟨ls', hls', hC⟩ := h
  obtain ⟨ms', hms', hC'⟩ := h'
  refine ⟨ls' ++ ms', by rw [run_append, hls', Option.bind_some, hms'], fun halong => ?_⟩
  obtain ⟨hfirst, hthen⟩ := (along_append hrun).mp halong
  exact (along_append hls').mpr ⟨hC hfirst, hC' hthen⟩

end Imitated

namespace Prog

variable {C : Type} {R : C → Type} {F α β : Type} {W ℓ : Type}

/-! ## The calls a program makes -/

/-- Whatever the responses, the program makes only calls in `P`, and returns only results in `Q`. -/
inductive Makes (P : C → Prop) (Q : α → Prop) : Prog R F α → Prop
  | ret {a : α} (h : Q a) : Makes P Q (ret a)
  | fault (e : F) : Makes P Q (fault e)
  | call {c : C} {again : R c → Bool} {k : R c → Prog R F α} (hc : P c)
      (hk : ∀ r, Makes P Q (k r)) : Makes P Q (call c again k)

section Makes

variable {P P' : C → Prop} {Q : α → Prop}

theorem Makes.bind {Q' : β → Prop} {x : Prog R F α} {f : α → Prog R F β} (hx : Makes P Q x)
    (hf : ∀ a, Q a → Makes P Q' (f a)) : Makes P Q' (x >>= f) := by
  induction hx with
  | ret h => exact hf _ h
  | fault e => exact Makes.fault e
  | call hc _ ih => exact Makes.call hc ih

/-- What a program does whatever the responses, it does when faults are allowed. -/
theorem All.makes {P : (c : C) → (R c → Bool) → Prop} {x : Prog R F α} (hx : All P Q x)
    (hP : ∀ c again, P c again → P' c) : Makes P' Q x := by
  induction hx with
  | ret h => exact Makes.ret h
  | call hc _ ih => exact Makes.call (hP _ _ hc) ih

theorem Makes.next {c : C} {again : R c → Bool} {k : R c → Prog R F α}
    (h : Makes P Q (Prog.call c again k)) (r : R c) :
    Makes P Q (if again r then Prog.call c again k else k r) := by
  cases h with
  | call hc hk =>
    split
    · exact Makes.call hc hk
    · exact hk r

/-- The results of runs of such a program. -/
theorem Makes.result {handle : W → (c : C) → Option (R c × W)} {env : W → ℓ → Option W}
    {x : Prog R F α} {a : α} {w w' : W} {ls : List (Option ℓ)} (hx : Makes P Q x)
    (h : Systems.run (sched handle env) (x, w) ls = some (Prog.ret a, w')) : Q a := by
  have hret : Makes P Q (Prog.ret a : Prog R F α) := by
    refine run_invariant (I := fun s => Makes P Q s.1) ?_ hx h
    rintro ⟨p, w⟩ l s hp hs
    cases l with
    | some l =>
      obtain ⟨w', -, rfl⟩ := sched_some_eq_some.mp hs
      exact hp
    | none =>
      cases p with
      | ret a => exact absurd hs (by simp [sched, step])
      | fault e => exact absurd hs (by simp [sched, step])
      | call c again k =>
        obtain ⟨r, w', -, rfl⟩ := step_call_eq_some.mp hs
        exact hp.next r
  cases hret with
  | ret h => exact h

end Makes

/-! ## Worlds the surroundings do not tell apart -/

/-- The surroundings move worlds related by `S` alike, a hidden call answered in one of them leaves
them related, and a call that is seen is answered alike in both. -/
structure Blind (handle : W → (c : C) → Option (R c × W)) (env : W → ℓ → Option W)
    (S : W → W → Prop) (hidden seen : C → Prop) : Prop where
  env : ∀ {w w' l w₁}, S w w' → env w l = some w₁ → ∃ w₁', env w' l = some w₁' ∧ S w₁ w₁'
  hidden : ∀ {w w' c r w₁}, S w w' → hidden c → handle w c = some (r, w₁) → S w₁ w'
  seen : ∀ {w w' c r w₁}, S w w' → seen c → handle w c = some (r, w₁) →
    ∃ w₁', handle w' c = some (r, w₁') ∧ S w₁ w₁'

/-- The condition is on the call the program is about to make, and on what `S` sees. -/
structure OnCalls (S : W → W → Prop) (Cond : Prog R F β × W → Option ℓ → Prop) : Prop where
  env : ∀ s l, Cond s (some l)
  call : ∀ {c again k k' w w'}, S w w' → Cond (call c again k, w) none →
    Cond (call c again k', w') none

section Imitating

variable {handle : W → (c : C) → Option (R c × W)} {env : W → ℓ → Option W} {S : W → W → Prop}
  {hidden seen : C → Prop} {Cond : Prog R F β × W → Option ℓ → Prop} {Q : α → Prop}
  {x y : Prog R F α} {w w' w₁ : W} {ls : List (Option ℓ)}

/-- **A program of hidden calls is imitated by none**: only the surroundings move. -/
theorem Makes.imitated_hidden (hS : Blind handle env S hidden seen) (hC : OnCalls S Cond)
    (hx : Makes hidden Q x) (hw : S w w')
    (h : Systems.run (sched handle env) (x, w) ls = some (y, w₁)) (f : α → Prog R F β) :
    ∃ w₁', S w₁ w₁' ∧
      ∀ q, Imitated (sched handle env) Cond (x >>= f, w) ls (q, w') (q, w₁') := by
  suffices ∃ ls' w₁', S w₁ w₁' ∧ ∀ q : Prog R F β,
      Systems.run (sched handle env) (q, w') ls' = some (q, w₁') ∧
        Along (sched handle env) Cond (q, w') ls' by
    obtain ⟨ls', w₁', hw₁, hq⟩ := this
    exact ⟨w₁', hw₁, fun q => ⟨ls', (hq q).1, fun _ => (hq q).2⟩⟩
  induction ls generalizing x w w' with
  | nil =>
    obtain ⟨-, rfl⟩ := Prod.mk.inj (Option.some.inj h)
    exact ⟨[], w', hw, fun q => ⟨rfl, trivial⟩⟩
  | cons l ls ih =>
    obtain ⟨⟨z, w₂⟩, hz, hr⟩ := (run_cons_eq_some _).mp h
    cases l with
    | some l =>
      obtain ⟨w₃, hl, he⟩ := sched_some_eq_some.mp hz
      obtain ⟨rfl, rfl⟩ := Prod.mk.inj he
      obtain ⟨w₂', hl', hw₂⟩ := hS.env hw hl
      obtain ⟨ls', w₁', hw₁, hq⟩ := ih hx hw₂ hr
      have hmove : ∀ q : Prog R F β, sched handle env (q, w') (some l) = some (q, w₂') :=
        fun q => sched_some_eq_some.mpr ⟨w₂', hl', rfl⟩
      refine ⟨some l :: ls', w₁', hw₁, fun q => ⟨?_, hC.env _ l, fun s hs => ?_⟩⟩
      · exact (run_cons_eq_some _).mpr ⟨_, hmove q, (hq q).1⟩
      · obtain rfl := Option.some.inj ((hmove q).symm.trans hs)
        exact (hq q).2
    | none =>
      cases x with
      | ret a => exact absurd hz (by simp [sched, step])
      | fault e => exact absurd hz (by simp [sched, step])
      | call c again k =>
        obtain ⟨r, w₃, hr', he⟩ := step_call_eq_some.mp hz
        obtain ⟨rfl, rfl⟩ := Prod.mk.inj he
        have hc : hidden c := by cases hx with | call hc _ => exact hc
        exact ih (hx.next r) (hS.hidden hw hc hr') hr

/-- One step of a program of calls that are seen, in the other world. -/
theorem Makes.step_seen {l : Option ℓ} (hS : Blind handle env S hidden seen) (hC : OnCalls S Cond)
    (hx : Makes seen Q x) (hw : S w w') (h : sched handle env (x, w) l = some (y, w₁)) :
    ∃ w₁', sched handle env (x, w') l = some (y, w₁') ∧ Makes seen Q y ∧ S w₁ w₁' ∧
      ∀ f g : α → Prog R F β, Cond (x >>= f, w) l → Cond (x >>= g, w') l := by
  cases l with
  | some l =>
    obtain ⟨w₂, hl, he⟩ := sched_some_eq_some.mp h
    obtain ⟨rfl, rfl⟩ := Prod.mk.inj he
    obtain ⟨w₁', hl', hw₁⟩ := hS.env hw hl
    exact ⟨w₁', sched_some_eq_some.mpr ⟨w₁', hl', rfl⟩, hx, hw₁, fun _ _ _ => hC.env _ l⟩
  | none =>
    cases x with
    | ret a => exact absurd h (by simp [sched, step])
    | fault e => exact absurd h (by simp [sched, step])
    | call c again k =>
      obtain ⟨r, w₂, hr, he⟩ := step_call_eq_some.mp h
      obtain ⟨rfl, rfl⟩ := Prod.mk.inj he
      have hc : seen c := by cases hx with | call hc _ => exact hc
      obtain ⟨w₁', hr', hw₁⟩ := hS.seen hw hc hr
      exact ⟨w₁', step_call_eq_some.mpr ⟨r, w₁', hr', rfl⟩, hx.next r, hw₁,
        fun _ _ hcond => hC.call hw hcond⟩

/-- **A program of calls that are seen is imitated by itself**, whatever comes after it. -/
theorem Makes.imitated_seen (hS : Blind handle env S hidden seen) (hC : OnCalls S Cond)
    (hx : Makes seen Q x) (hw : S w w')
    (h : Systems.run (sched handle env) (x, w) ls = some (y, w₁)) (f : α → Prog R F β) :
    ∃ w₁', S w₁ w₁' ∧
      ∀ g, Imitated (sched handle env) Cond (x >>= f, w) ls (x >>= g, w') (y >>= g, w₁') := by
  suffices ∃ w₁', S w₁ w₁' ∧ Systems.run (sched handle env) (x, w') ls = some (y, w₁') ∧
      ∀ g, Along (sched handle env) Cond (x >>= f, w) ls →
        Along (sched handle env) Cond (x >>= g, w') ls by
    obtain ⟨w₁', hw₁, hrun, halong⟩ := this
    exact ⟨w₁', hw₁, fun g => ⟨ls, run_bind hrun g, halong g⟩⟩
  induction ls generalizing x w w' with
  | nil =>
    obtain ⟨rfl, rfl⟩ := Prod.mk.inj (Option.some.inj h)
    exact ⟨w', hw, rfl, fun _ _ => trivial⟩
  | cons l ls ih =>
    obtain ⟨⟨z, w₂⟩, hz, hr⟩ := (run_cons_eq_some _).mp h
    obtain ⟨w₂', hz', hz₁, hw₂, hcond⟩ := hx.step_seen hS hC hw hz
    obtain ⟨w₁', hw₁, hrun, halong⟩ := ih hz₁ hw₂ hr
    refine ⟨w₁', hw₁, (run_cons_eq_some _).mpr ⟨_, hz', hrun⟩, fun g ha => ⟨hcond f g ha.1, ?_⟩⟩
    intro s hs
    obtain rfl := Option.some.inj ((sched_bind_of_eq_some hz' g).symm.trans hs)
    exact halong g (ha.2 _ (sched_bind_of_eq_some hz f))

end Imitating

end Prog

end Systems
