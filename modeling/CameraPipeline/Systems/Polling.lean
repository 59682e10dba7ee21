import Mathlib.Data.List.Basic
import Mathlib.Data.Nat.ModEq

/-!
# Polled sources

A source that is polled: each read yields one symbol or nothing. A reader that gives up after a
number of empty reads sees the symbols whose gaps stay below its limits, and what it sees depends
on the symbols only as long as they do.

## Main definitions

* `Next reads polls n b m`: from read `n` on, `b` comes after fewer than `polls` empty reads
* `Arrives reads polls n bs m`: from read `n` on, the symbols `bs` come one after the other
* `Timely reads first later bs n`: the first `n` reads yield `bs`, each symbol within its limit
* `yielded reads n`: the symbols of the first `n` reads
* `WithinLimits`, `SameSymbols`: every symbol comes within its limit, and two sources yield the same

## Main results

* `Arrives.unique`: the symbols that come are determined by their number
* `Timely.transfer`: what comes from one source comes from another that yields the same
-/

namespace Systems

variable {β : Type*}

section Definitions

variable (reads : ℕ → Option β)

/-- From read `n` on, the symbol `b` comes after fewer than `polls` empty reads, and the reads up to
it are `m` in all. -/
def Next (polls n : ℕ) (b : β) (m : ℕ) : Prop :=
  ∃ gap < polls, (∀ i < gap, reads (n + i) = none) ∧ reads (n + gap) = some b ∧ m = n + gap + 1

/-- From read `n` on, the symbols come one after the other, each after fewer than `polls` empty
reads, and the reads up to the last one are `m` in all. -/
inductive Arrives (polls : ℕ) : ℕ → List β → ℕ → Prop
  | nil (n : ℕ) : Arrives polls n [] n
  | cons {n m k : ℕ} {b : β} {bs : List β} (hb : Next reads polls n b m)
      (hbs : Arrives polls m bs k) : Arrives polls n (b :: bs) k

/-- The first `n` reads yield `bs`, the first symbol after fewer than `first` empty reads and each
later one after fewer than `later` empty reads since the symbol before. -/
def Timely (first later : ℕ) : List β → ℕ → Prop
  | [], n => n = 0
  | b :: bs, n => ∃ m, Next reads first 0 b m ∧ Arrives reads later m bs n

/-- The symbols of the first `n` reads. -/
def yielded (n : ℕ) : List β := (List.range n).filterMap reads

/-- Every symbol comes within its limit. -/
def WithinLimits (first later : ℕ) : Prop :=
  ∀ n, (reads n).isSome → Timely reads first later (yielded reads (n + 1)) (n + 1)

/-- The two sources yield the same symbols, with whatever gaps. -/
def SameSymbols (reads' : ℕ → Option β) : Prop :=
  (∀ n, ∃ n', yielded reads n = yielded reads' n') ∧
    ∀ n', ∃ n, yielded reads' n' = yielded reads n

end Definitions

variable {reads reads' : ℕ → Option β} {polls first later n m k : ℕ} {b : β} {bs xs ys : List β}

/-! ## Symbols within their limits -/

theorem not_next_zero : ¬ Next reads 0 n b m := by
  rintro ⟨gap, hgap, -⟩
  exact absurd hgap (Nat.not_lt_zero gap)

/-- A symbol that comes at once. -/
theorem next_of_eq (hpolls : 0 < polls) (h : reads n = some b) : Next reads polls n b (n + 1) :=
  ⟨0, hpolls, fun i hi => absurd hi (Nat.not_lt_zero i), h, rfl⟩

/-- One more poll: the symbol comes at once, or later with one poll less. -/
theorem next_succ : Next reads (polls + 1) n b m ↔
    (reads n = some b ∧ m = n + 1) ∨ (reads n = none ∧ Next reads polls (n + 1) b m) := by
  constructor
  · rintro ⟨gap, hgap, hnone, hb, rfl⟩
    cases gap with
    | zero => exact Or.inl ⟨hb, rfl⟩
    | succ gap =>
      refine Or.inr ⟨hnone 0 (Nat.succ_pos gap), gap, by omega, fun i hi => ?_, ?_, by omega⟩
      · rw [Nat.add_assoc, Nat.add_comm 1 i]
        exact hnone (i + 1) (by omega)
      · rw [Nat.add_assoc, Nat.add_comm 1 gap]
        exact hb
  · rintro (⟨hb, rfl⟩ | ⟨hn, gap, hgap, hnone, hb, rfl⟩)
    · exact next_of_eq (Nat.succ_pos polls) hb
    · refine ⟨gap + 1, by omega, fun i hi => ?_, ?_, by omega⟩
      · cases i with
        | zero => exact hn
        | succ i =>
          rw [Nat.add_comm i 1, ← Nat.add_assoc]
          exact hnone i (by omega)
      · rw [Nat.add_comm gap 1, ← Nat.add_assoc]
        exact hb

/-- The next symbol is determined by the source. -/
theorem Next.unique {polls' m' : ℕ} {b' : β} (h : Next reads polls n b m)
    (h' : Next reads polls' n b' m') : b = b' ∧ m = m' := by
  obtain ⟨gap, -, hnone, hb, rfl⟩ := h
  obtain ⟨gap', -, hnone', hb', rfl⟩ := h'
  have hgap : gap = gap' := by
    rcases Nat.lt_trichotomy gap gap' with hlt | heq | hlt
    · exact absurd ((hnone' gap hlt).symm.trans hb) nofun
    · exact heq
    · exact absurd ((hnone gap' hlt).symm.trans hb') nofun
  subst hgap
  exact ⟨Option.some.inj (hb.symm.trans hb'), rfl⟩

theorem arrives_append :
    Arrives reads polls n (xs ++ ys) k ↔
      ∃ m, Arrives reads polls n xs m ∧ Arrives reads polls m ys k := by
  induction xs generalizing n with
  | nil =>
    constructor
    · exact fun h => ⟨n, .nil n, h⟩
    · rintro ⟨m, hm, h⟩
      cases hm
      exact h
  | cons b xs ih =>
    constructor
    · intro h
      cases h with
      | cons hb h =>
        obtain ⟨m, hxs, hys⟩ := ih.mp h
        exact ⟨m, .cons hb hxs, hys⟩
    · rintro ⟨m, hm, hys⟩
      cases hm with
      | cons hb hxs => exact .cons hb (ih.mpr ⟨m, hxs, hys⟩)

/-- **The symbols that come are determined by their number.** -/
theorem Arrives.unique {m' : ℕ} (h : Arrives reads polls n xs m) (h' : Arrives reads polls n ys m')
    (hlen : xs.length = ys.length) : xs = ys ∧ m = m' := by
  induction h generalizing ys with
  | nil n =>
    obtain rfl : ys = [] := List.length_eq_zero_iff.mp hlen.symm
    cases h'
    exact ⟨rfl, rfl⟩
  | cons hb _ ih =>
    cases h' with
    | nil => exact absurd hlen (Nat.succ_ne_zero _)
    | cons hb' h' =>
      obtain ⟨rfl, rfl⟩ := hb.unique hb'
      obtain ⟨rfl, rfl⟩ := ih h' (Nat.succ.inj hlen)
      exact ⟨rfl, rfl⟩

/-- Enough symbols come for a shorter list to have come before. -/
theorem Arrives.take (h : Arrives reads polls n xs m) {j : ℕ} (hj : j ≤ xs.length) :
    ∃ ys zs k, xs = ys ++ zs ∧ ys.length = j ∧ Arrives reads polls n ys k ∧
      Arrives reads polls k zs m := by
  rw [← List.take_append_drop j xs] at h
  obtain ⟨k, hys, hzs⟩ := arrives_append.mp h
  exact ⟨_, _, k, (List.take_append_drop j xs).symm, List.length_take_of_le hj, hys, hzs⟩

/-! ## Sources that yield the same -/

theorem yielded_succ (n : ℕ) : yielded reads (n + 1) = yielded reads n ++ (reads n).toList := by
  rw [yielded, yielded, List.range_succ, List.filterMap_append]
  cases h : reads n with
  | none => simp [h]
  | some b => simp [h]

theorem yielded_of_empty {gap : ℕ} (h : ∀ i < gap, reads (n + i) = none) :
    yielded reads (n + gap) = yielded reads n := by
  induction gap with
  | zero => rfl
  | succ gap ih =>
    rw [← Nat.add_assoc, yielded_succ, h gap (Nat.lt_succ_self gap),
      ih fun i hi => h i (Nat.lt_succ_of_lt hi)]
    exact List.append_nil _

theorem Next.yielded (h : Next reads polls n b m) :
    yielded reads m = yielded reads n ++ [b] := by
  obtain ⟨gap, -, hnone, hb, rfl⟩ := h
  rw [yielded_succ, hb, yielded_of_empty hnone]
  rfl

theorem Arrives.yielded (h : Arrives reads polls n bs m) :
    yielded reads m = yielded reads n ++ bs := by
  induction h with
  | nil n => exact (List.append_nil _).symm
  | cons hb _ ih =>
    rw [ih, hb.yielded, List.append_assoc]
    rfl

theorem Timely.yielded (h : Timely reads first later bs n) : yielded reads n = bs := by
  cases bs with
  | nil =>
    obtain rfl : n = 0 := h
    rfl
  | cons b bs =>
    obtain ⟨m, hb, hbs⟩ := h
    rw [hbs.yielded, hb.yielded]
    rfl

/-- The last read that yielded one of some symbols. -/
theorem exists_last_yielded (h : yielded reads n ≠ []) :
    ∃ m, (reads m).isSome ∧ yielded reads (m + 1) = yielded reads n := by
  induction n with
  | zero => exact absurd rfl h
  | succ n ih =>
    cases hn : reads n with
    | some b => exact ⟨n, by rw [hn]; rfl, rfl⟩
    | none =>
      have hsame : yielded reads (n + 1) = yielded reads n := by
        rw [yielded_succ, hn]
        exact List.append_nil _
      obtain ⟨m, hm, hyield⟩ := ih (hsame ▸ h)
      exact ⟨m, hm, hyield.trans hsame.symm⟩

/-- **What comes from one source comes from another** that yields the same symbols within the
limits. -/
theorem Timely.transfer (h : Timely reads first later bs n)
    (hsame : ∀ n, ∃ n', Systems.yielded reads n = Systems.yielded reads' n')
    (hlimits : WithinLimits reads' first later) : ∃ n', Timely reads' first later bs n' := by
  cases bs with
  | nil => exact ⟨0, rfl⟩
  | cons b bs =>
    obtain ⟨n', hn'⟩ := hsame n
    rw [h.yielded] at hn'
    obtain ⟨m, hm, hyield⟩ := exists_last_yielded (n := n') (hn' ▸ List.cons_ne_nil b bs)
    refine ⟨m + 1, ?_⟩
    rw [hn', ← hyield]
    exact hlimits m hm

end Systems
