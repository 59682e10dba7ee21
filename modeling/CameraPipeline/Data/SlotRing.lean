import Mathlib

/-!
# Rings with one slot free

A queue in a ring of cells between two indices: the producer stores at `head` and advances it, the
consumer takes at `tail` and advances it. The ring is empty when the indices agree, so one cell
always stays free. Neither index is written by both sides, and what the ring holds is a function of
the cells and the two indices; the lemmas say how each of the three stores changes it.

## Main definitions

* `held cells tail head`: what the ring holds, oldest first

## Main results

* `held_store`: a store at the head changes nothing that is held
* `held_advance`: advancing the head adds the cell stored there
* `held_eq_cons`: the cell at the tail is the oldest
* `held_eq_nil_iff`, `length_held_eq_iff`: when the ring is empty, and when it is full
-/

namespace Data

variable {α : Type*} {n : ℕ} [NeZero n]

/-- What a ring holds: the cells from `tail` up to `head`, oldest first. -/
def held (cells : Fin n → α) (tail head : Fin n) : List α :=
  (List.range (head - tail).val).map fun k => cells (tail + Fin.ofNat n k)

section Indices

variable {tail head : Fin n}

theorem val_sub_add_one (tail : Fin n) (h : head + 1 ≠ tail) :
    (head + 1 - tail).val = (head - tail).val + 1 := by
  have hne : (head - tail).val + 1 ≠ n := by
    intro he
    apply h
    have hsum : head - tail + 1 = 0 := by
      apply Fin.ext
      rw [Fin.val_add, Fin.val_one', Fin.val_zero, Nat.add_mod_mod, he, Nat.mod_self]
    rw [sub_add_eq_add_sub] at hsum
    exact sub_eq_zero.mp hsum
  rw [← sub_add_eq_add_sub, Fin.val_add, Fin.val_one', Nat.add_mod_mod, Nat.mod_eq_of_lt]
  have hlt := (head - tail).isLt
  omega

theorem val_sub_eq_add_one (h : tail ≠ head) :
    (head - tail).val = (head - (tail + 1)).val + 1 := by
  have hne : head - (tail + 1) + 1 ≠ 0 := by
    rw [sub_add_eq_sub_sub, sub_add_cancel]
    exact sub_ne_zero.mpr h.symm
  have hsucc := val_sub_add_one 0 hne
  rw [sub_zero, sub_zero] at hsucc
  rw [← hsucc, sub_add_eq_sub_sub, sub_add_cancel]

theorem ofNat_val_sub : tail + Fin.ofNat n (head - tail).val = head := by
  rw [Fin.ofNat_val_eq_self, add_sub_cancel]

end Indices

section Held

variable {cells : Fin n → α} {tail head : Fin n}

@[simp] theorem held_self : held cells tail tail = [] := by
  simp [held]

theorem length_held : (held cells tail head).length = (head - tail).val := by
  simp [held]

theorem length_held_lt : (held cells tail head).length < n := by
  rw [length_held]
  exact (head - tail).isLt

theorem held_eq_nil_iff : held cells tail head = [] ↔ head = tail := by
  rw [← List.length_eq_zero_iff, length_held, Fin.val_eq_zero_iff, sub_eq_zero]

/-- The ring is full when the index behind the head is the tail. -/
theorem length_held_eq_iff : (held cells tail head).length + 1 = n ↔ head + 1 = tail := by
  rw [length_held]
  refine ⟨fun h => ?_, fun h => ?_⟩
  · by_contra hne
    have hlt := (head + 1 - tail).isLt
    rw [val_sub_add_one tail hne, h] at hlt
    exact lt_irrefl n hlt
  · have hzero : head - tail + 1 = 0 := by rw [sub_add_eq_add_sub, h, sub_self]
    have hval := congrArg Fin.val hzero
    rw [Fin.val_add, Fin.val_one', Nat.add_mod_mod, Fin.val_zero] at hval
    have hlt := (head - tail).isLt
    have hle := Nat.le_of_dvd (Nat.succ_pos _) (Nat.dvd_of_mod_eq_zero hval)
    omega

/-- A store at the head is outside of what the ring holds. -/
theorem held_store (c : α) :
    held (Function.update cells head c) tail head = held cells tail head := by
  refine List.map_congr_left fun k hk => Function.update_of_ne (fun he => ?_) _ _
  rw [List.mem_range] at hk
  have hsub : Fin.ofNat n k = head - tail := by rw [← he, add_sub_cancel_left]
  have hval := congrArg Fin.val hsub
  rw [Fin.val_ofNat, Nat.mod_eq_of_lt (hk.trans (head - tail).isLt)] at hval
  exact hk.ne hval

/-- **Advancing the head** of a ring that is not full adds the cell stored there. -/
theorem held_advance (h : head + 1 ≠ tail) :
    held cells tail (head + 1) = held cells tail head ++ [cells head] := by
  rw [held, val_sub_add_one tail h, List.range_succ, List.map_append, List.map_singleton,
    ofNat_val_sub]
  rfl

/-- **The cell at the tail** is the oldest, and advancing the tail removes it. -/
theorem held_eq_cons (h : tail ≠ head) :
    held cells tail head = cells tail :: held cells (tail + 1) head := by
  rw [held, val_sub_eq_add_one h, List.range_succ_eq_map, List.map_cons, List.map_map]
  refine congrArg₂ List.cons (by simp) (List.map_congr_left fun k _ => ?_)
  rw [Function.comp_apply, add_assoc]
  congr 2
  apply Fin.ext
  simp [Fin.val_add, Nat.add_comm]

end Held

end Data
