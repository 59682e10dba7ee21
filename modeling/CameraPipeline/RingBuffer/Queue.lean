import CameraPipeline.RingBuffer.Basic
import CameraPipeline.Systems.Automaton

/-!
# The ring buffer is a bounded FIFO queue

The ring keeps its occupancy three ways: the count, the distance of the wrapping pointers, and the
slots between them. `Represents rb q` ties the three to one list, and every call keeps it: always,
when the depth divides `2 ^ 32` and a pointer that wraps lands on the slot it would have reached
without wrapping, and for any other depth until the write pointer has wrapped.

## Main definitions

* `queueCall D`: the bounded queue of `D` chunks, as a reactive automaton on the same calls
* `Represents rb q`: the ring `rb` holds the chunks `q`, oldest first
* `written`, `delivered`: the chunks accepted and handed out along a history

## Main results

* `isSim_queueCall`: the ring simulates the queue, call by call
* `written_eq_delivered_append`: the queue holds what was written and not yet read
* `ring_refines_queue`: the ring from `rb_init` on, over every sequence of calls
-/

namespace CameraPipeline

open Systems

variable {α : Type} {D : ℕ} [NeZero D]

/-! ## The queue -/

/-- **The bounded queue**: what the ring buffer is for, on the same calls. -/
def queueCall (D : ℕ) (q : List α) : RbCall α → List α × RbReply α
  | .write none => (q, { ret := -1 })
  | .write (some c) => if q.length < D then (q ++ [c], { ret := 0 }) else (q, { ret := -1 })
  | .read none => (q, { ret := -1 })
  | .read (some c) =>
    match q with
    | [] => ([], { ret := -1, chunk := some c })
    | x :: q => (q, { ret := 0, chunk := some x })
  | .count => (q, { ret := q.length })
  | .full => (q, { ret := if q.length = D then 1 else 0 })
  | .empty => (q, { ret := if q.length = 0 then 1 else 0 })

/-- Whether a call is an `rb_write`, as a number. -/
def RbCall.writes : RbCall α → ℕ
  | .write _ => 1
  | _ => 0

/-- The chunks accepted by the writes of a history, in order. -/
def written : List (RbCall α × RbReply α) → List α :=
  List.filterMap fun
    | (.write c, r) => if r.ret = 0 then c else none
    | _ => none

/-- The chunks handed out by the reads of a history, in order. -/
def delivered : List (RbCall α × RbReply α) → List α :=
  List.filterMap fun
    | (.read _, r) => if r.ret = 0 then r.chunk else none
    | _ => none

omit [NeZero D] in
/-- **Nothing is lost, repeated or reordered**: what a queue held and what was written is what was
delivered and what it holds now. -/
theorem written_eq_delivered_append (q : List α) (xs : List (RbCall α)) :
    q ++ written (xs.zip (replies (queueCall D) q xs)) =
      delivered (xs.zip (replies (queueCall D) q xs)) ++ after (queueCall D) q xs := by
  induction xs generalizing q with
  | nil => simp [written, delivered]
  | cons x xs ih =>
    have ih := ih (queueCall D q x).1
    simp only [replies, List.zip_cons_cons, after_cons, written, delivered,
      List.filterMap_cons] at ih ⊢
    rcases x with (_ | c) | (_ | c) | _ | _ | _
    · simpa [queueCall] using ih
    · by_cases hq : q.length < D
      · simpa [queueCall, hq] using ih
      · simpa [queueCall, hq] using ih
    · simpa [queueCall] using ih
    · cases q with
      | nil => simpa [queueCall] using ih
      | cons y q => simpa [queueCall] using ih
    · simpa [queueCall] using ih
    · simpa [queueCall] using ih
    · simpa [queueCall] using ih

/-! ## Slots -/

omit [NeZero D] in
/-- Two positions less than one turn apart are different slots. -/
theorem mod_ne_of_lt {i j : ℕ} (hij : i < j) (hj : j < i + D) : i % D ≠ j % D := by
  intro h
  have hd : D ∣ j - i := (Nat.modEq_iff_dvd' hij.le).mp h
  have := Nat.le_of_dvd (by omega) hd
  omega

/-- A pointer that wraps at `2 ^ 32` lands on the slot it would have reached without wrapping, and
so does one that does not wrap, whatever the depth. -/
theorem slot_add {p k : UInt32} (hD : D ∣ 2 ^ 32 ∨ p.toNat + k.toNat < 2 ^ 32) :
    (slot (p + k) : Fin D) = Fin.ofNat D (p.toNat + k.toNat) := by
  apply Fin.ext
  rw [slot, Fin.val_ofNat, Fin.val_ofNat, UInt32.toNat_add]
  rcases hD with hD | hlt
  · rw [Nat.mod_mod_of_dvd _ hD]
  · rw [Nat.mod_eq_of_lt hlt]

theorem ofNat_ne_of_lt {i j : ℕ} (hij : i < j) (hj : j < i + D) :
    Fin.ofNat D i ≠ Fin.ofNat D j := by
  intro h
  exact mod_ne_of_lt hij hj (by simpa [Fin.ext_iff] using h)

/-! ## The representation -/

/-- **The ring `rb` holds the chunks `q`**, oldest first: the count is their number, the pointers
are that far apart, and the slots from the read pointer on are the chunks. -/
structure Represents (rb : RingBuffer α D) (q : List α) : Prop where
  length_le : q.length ≤ D
  count_eq : rb.count.toNat = q.length
  wrPtr_eq : rb.wrPtr = rb.rdPtr + rb.count
  slots_eq : ∀ i (h : i < q.length), rb.slots (Fin.ofNat D (rb.rdPtr.toNat + i)) = q[i]

theorem represents_rbInit [Zero α] : Represents (rbInit : RingBuffer α D) [] :=
  { length_le := Nat.zero_le D
    count_eq := rfl
    wrPtr_eq := rfl
    slots_eq := fun i h => absurd h (Nat.not_lt_zero i) }

section Calls

variable {rb : RingBuffer α D} {q : List α}

theorem Represents.count_eq_zero_iff (h : Represents rb q) : rb.count = 0 ↔ q = [] := by
  rw [← UInt32.toNat_inj, h.count_eq, UInt32.toNat_zero, List.length_eq_zero_iff]

theorem rbWrite_full (h : Represents rb q) (hq : ¬ q.length < D) (c : α) :
    rbWrite rb (some c) = (rb, -1) := by
  simp only [rbWrite, h.count_eq]
  rw [if_pos (by omega)]

theorem rbWrite_ret (h : Represents rb q) (c : α) :
    (rbWrite rb (some c)).2 = if q.length < D then 0 else -1 := by
  simp only [rbWrite, h.count_eq]
  by_cases hq : q.length < D
  · rw [if_neg (by omega), if_pos hq]
  · rw [if_pos (by omega), if_neg hq]

/-- **A write appends**: it fills the one slot after the chunks held, which is none of theirs. -/
theorem Represents.write (hD : D ∣ 2 ^ 32 ∨ rb.rdPtr.toNat + q.length < 2 ^ 32) (hlt : D < 2 ^ 32)
    (h : Represents rb q) (hq : q.length < D) (c : α) :
    Represents (rbWrite rb (some c)).1 (q ++ [c]) := by
  have hw : (slot rb.wrPtr : Fin D) = Fin.ofNat D (rb.rdPtr.toNat + q.length) := by
    rw [h.wrPtr_eq, slot_add (by rwa [h.count_eq]), h.count_eq]
  have hfull : ¬ D ≤ rb.count.toNat := by rw [h.count_eq]; omega
  simp only [rbWrite, if_neg hfull]
  refine ⟨by simp only [List.length_append, List.length_singleton]; omega, ?_, ?_, ?_⟩
  · rw [UInt32.toNat_add, h.count_eq, UInt32.toNat_one, List.length_append, List.length_singleton]
    omega
  · simp only [h.wrPtr_eq, UInt32.add_assoc]
  · intro i hi
    rw [List.length_append, List.length_singleton] at hi
    rcases Nat.lt_succ_iff_lt_or_eq.mp hi with hi | rfl
    · rw [List.getElem_append_left hi, ← h.slots_eq i hi]
      refine Function.update_of_ne ?_ _ _
      rw [hw]
      show Fin.ofNat D (rb.rdPtr.toNat + i) ≠ _
      exact ofNat_ne_of_lt (by omega) (by omega)
    · rw [List.getElem_concat_length rfl]
      simp only [← hw, Function.update_self]

theorem rbRead_empty (h : Represents rb []) (c : α) :
    rbRead rb (some c) = (rb, -1, some c) := by
  simp [rbRead, h.count_eq_zero_iff.mpr rfl]

/-- **A read delivers the oldest chunk** and drops it. -/
theorem Represents.read {x : α} (hD : D ∣ 2 ^ 32 ∨ rb.rdPtr.toNat + (x :: q).length ≤ 2 ^ 32)
    (h : Represents rb (x :: q)) (c : α) :
    (rbRead rb (some c)).2 = (0, some x) ∧ Represents (rbRead rb (some c)).1 q := by
  have hc : rb.count ≠ 0 := fun h0 => List.cons_ne_nil x q (h.count_eq_zero_iff.mp h0)
  have hcount : rb.count.toNat = q.length + 1 := h.count_eq
  have hslots := h.slots_eq
  simp only [rbRead, if_neg hc]
  refine ⟨?_, (Nat.le_succ _).trans h.length_le, ?_, ?_, ?_⟩
  · simpa [slot] using h.slots_eq 0 (Nat.succ_pos _)
  · have hone : 1 ≤ rb.count := by rw [UInt32.le_iff_toNat_le, hcount, UInt32.toNat_one]; omega
    rw [UInt32.toNat_sub_of_le _ _ hone, hcount, UInt32.toNat_one, Nat.add_sub_cancel]
  · simp only [h.wrPtr_eq]
    rw [UInt32.add_assoc, UInt32.add_comm 1, UInt32.sub_add_cancel]
  · intro i hi
    have hslot : (Fin.ofNat D ((rb.rdPtr + 1).toNat + i) : Fin D) =
        Fin.ofNat D (rb.rdPtr.toNat + (i + 1)) := by
      apply Fin.ext
      rw [Fin.val_ofNat, Fin.val_ofNat, UInt32.toNat_add, UInt32.toNat_one]
      rcases hD with hD | hle
      -- the read pointer may wrap here, and with `D ∣ 2 ^ 32` it makes no difference
      · rw [Nat.add_mod, Nat.mod_mod_of_dvd _ hD, ← Nat.add_mod, Nat.add_assoc, Nat.add_comm 1 i]
      · rw [List.length_cons] at hle
        have hlt : rb.rdPtr.toNat + 1 < 2 ^ 32 := by omega
        rw [Nat.mod_eq_of_lt hlt, Nat.add_assoc, Nat.add_comm 1 i]
    rw [hslot, hslots (i + 1) (Nat.succ_lt_succ hi)]
    rfl

theorem rbCount_eq (hlt : D < 2 ^ 31) (h : Represents rb q) : rbCount rb = q.length := by
  have hle := h.length_le
  have hc : rb.count.toBitVec.toNat = q.length := h.count_eq
  rw [rbCount, ← Int32.toInt_toBitVec, UInt32.toBitVec_toInt32,
    BitVec.toInt_eq_toNat_of_lt (by omega), hc]

theorem rbFull_eq (h : Represents rb q) : rbFull rb = if q.length = D then 1 else 0 := by
  have hle := h.length_le
  rw [rbFull, h.count_eq]
  by_cases hq : q.length = D
  · rw [if_pos hq.ge, if_pos hq]
  · rw [if_neg (by omega), if_neg hq]

theorem rbEmpty_eq (h : Represents rb q) : rbEmpty rb = if q.length = 0 then 1 else 0 := by
  simp only [rbEmpty, h.count_eq_zero_iff, List.length_eq_zero_iff]

/-- **A call answers as the queue does**, at a depth that divides `2 ^ 32` or as long as the write
pointer stays below it. The count has to fit an `int` only when it is asked for. -/
theorem Represents.call {x : RbCall α}
    (hD : D ∣ 2 ^ 32 ∨ rb.rdPtr.toNat + q.length + x.writes ≤ 2 ^ 32) (hlt : D < 2 ^ 32)
    (hcount : x = .count → D < 2 ^ 31) (h : Represents rb q) :
    (rbCall rb x).2 = (queueCall D q x).2 ∧ Represents (rbCall rb x).1 (queueCall D q x).1 := by
  rcases x with (_ | c) | (_ | c) | _ | _ | _
  · exact ⟨rfl, h⟩
  · by_cases hq : q.length < D
    · have hr := rbWrite_ret h c
      rw [if_pos hq] at hr
      simp only [rbCall, queueCall, if_pos hq, hr]
      exact ⟨trivial, h.write hD hlt hq c⟩
    · simp only [rbCall, queueCall, if_neg hq, rbWrite_full h hq]
      exact ⟨trivial, h⟩
  · exact ⟨rfl, h⟩
  · cases q with
    | nil =>
      simp only [rbCall, queueCall, rbRead_empty h]
      exact ⟨trivial, h⟩
    | cons x q =>
      obtain ⟨hr, hrep⟩ := h.read hD c
      simp only [rbCall, queueCall, hr]
      exact ⟨trivial, hrep⟩
  · exact ⟨by simp only [rbCall, queueCall, rbCount_eq (hcount rfl) h], h⟩
  · exact ⟨by simp only [rbCall, queueCall, rbFull_eq h], h⟩
  · exact ⟨by simp only [rbCall, queueCall, rbEmpty_eq h], h⟩

/-- **The ring simulates the queue**, at a depth that divides `2 ^ 32`. -/
theorem isSim_queueCall (hD : D ∣ 2 ^ 32) (hlt : D < 2 ^ 31) :
    IsSim (rbCall (α := α) (D := D)) (queueCall D) Represents :=
  fun _ _ _ h => h.call (Or.inl hD) (by omega) fun _ => hlt

/-- **A failed call changes nothing**: on full, empty or NULL. -/
theorem rbCall_of_ret_neg (x : RbCall α) (hx : (rbCall rb x).2.ret = -1) :
    (rbCall rb x).1 = rb := by
  rcases x with (_ | c) | (_ | c) | _ | _ | _
  · rfl
  · by_cases hfull : D ≤ rb.count.toNat
    · simp [rbCall, rbWrite, hfull]
    · simp [rbCall, rbWrite, hfull] at hx
  · rfl
  · by_cases h0 : rb.count = 0
    · simp [rbCall, rbRead, h0]
    · simp [rbCall, rbRead, h0] at hx
  · rfl
  · rfl
  · rfl

end Calls

/-! ## The ring from `rb_init` on -/

/-- **The ring buffer refines a bounded FIFO queue for ever.** Over every sequence of calls, by
whichever tasks and however long, the ring answers as the queue does and holds the chunks written
and not yet read; the clauses spell out the next call. -/
theorem ring_refines_queue {T : Type} (calls : List (T × RbCall (ImageChunk chunkSize))) :
    let xs := calls.map Prod.snd
    let rb : ImageRing := after rbCall rbInit xs
    let history := xs.zip (replies rbCall (rbInit : ImageRing) xs)
    let q := after (queueCall rbDepth) [] xs
    replies rbCall (rbInit : ImageRing) xs = replies (queueCall rbDepth) [] xs ∧
      written history = delivered history ++ q ∧ Represents rb q ∧
      (∀ c, (rbWrite rb (some c)).2 = if q.length < rbDepth then 0 else -1) ∧
      (∀ c, q.length < rbDepth → Represents (rbWrite rb (some c)).1 (q ++ [c])) ∧
      (∀ d, (rbRead rb (some d)).2.1 = if 0 < q.length then 0 else -1) ∧
      (∀ d x q', q = x :: q' →
        (rbRead rb (some d)).2.2 = some x ∧ Represents (rbRead rb (some d)).1 q') ∧
      (rbWrite rb none).2 = -1 ∧ (rbRead rb none).2.1 = -1 ∧
      (∀ call, (rbCall rb call).2.ret = -1 → (rbCall rb call).1 = rb) ∧
      rbCount rb = q.length ∧ rbFull rb = (if q.length = rbDepth then 1 else 0) ∧
      rbEmpty rb = (if q.length = 0 then 1 else 0) := by
  intro xs rb history q
  have hD : rbDepth ∣ 2 ^ 32 := by decide
  have hsim := isSim_queueCall (α := ImageChunk chunkSize) hD (by decide)
  have hreplies := hsim.replies_eq represents_rbInit xs
  have hrep : Represents rb q := hsim.after represents_rbInit xs
  refine ⟨hreplies, ?_, hrep, rbWrite_ret hrep,
    fun c hq => hrep.write (Or.inl hD) (by decide) hq c, ?_, ?_, rfl, rfl,
    fun call => rbCall_of_ret_neg call, rbCount_eq (by decide) hrep, rbFull_eq hrep,
    rbEmpty_eq hrep⟩
  · have hconserve := written_eq_delivered_append (D := rbDepth) [] xs
    rw [← hreplies] at hconserve
    exact hconserve
  · intro d
    cases hq : q with
    | nil =>
      rw [hq] at hrep
      simp [rbRead_empty hrep]
    | cons x q' =>
      rw [hq] at hrep
      simp [(hrep.read (Or.inl hD) d).1]
  · rintro d x q' hq
    rw [hq] at hrep
    obtain ⟨hret, hrep'⟩ := hrep.read (Or.inl hD) d
    exact ⟨by rw [hret], hrep'⟩

end CameraPipeline
