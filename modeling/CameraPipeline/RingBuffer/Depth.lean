import CameraPipeline.RingBuffer.Queue
import Mathlib.Data.Nat.Prime.Basic

/-!
# The depth must be a power of two

`ring_buffer.h` asks for a depth that is a power of two, and nothing enforces it. At any other depth
the ring is a queue only until its write pointer wraps: the last slot before `2 ^ 32` is not the one
before slot `0`, so `2 ^ 32 % D` chunks before the wrap the read pointer is at slot `0`, and the
write after the wrap hits the chunk it has yet to deliver.

## Main definitions

* `RbCall.Transfers`: a call of `rb_write` or `rb_read` with a chunk
* `balancedCalls`, `overrunCalls`: chunks written and read in turn, and the calls up to the wrap

## Main results

* `Represents.calls`: until the write pointer wraps, a ring of any depth is a queue
* `wrPtr_after`, `rdPtr_after`: the pointers count the chunks written and delivered
* `depth_must_be_pow_two`: at any other depth a write overwrites the oldest unread chunk
-/

namespace CameraPipeline

open Systems

variable {α : Type} {D : ℕ} [NeZero D]

/-- A call of `rb_write` or `rb_read` with a chunk. -/
def RbCall.Transfers : RbCall α → Prop
  | .write (some _) => True
  | .read (some _) => True
  | _ => False

/-! ## Before the wrap -/

section Run

variable {rb : RingBuffer α D} {q : List α}

/-- A call moves the write position by one at most, and a read does not move it. -/
theorem position_call_le (h : Represents rb q) (x : RbCall α) :
    (rbCall rb x).1.rdPtr.toNat + (queueCall D q x).1.length ≤
      rb.rdPtr.toNat + q.length + x.writes := by
  rcases x with (_ | c) | (_ | c) | _ | _ | _
  · exact Nat.le_succ _
  · have hptr : (rbWrite rb (some c)).1.rdPtr = rb.rdPtr := by
      rw [rbWrite]
      split <;> rfl
    simp only [rbCall, queueCall, hptr, RbCall.writes]
    split
    · rw [List.length_append, List.length_singleton, Nat.add_assoc]
    · exact Nat.le_succ _
  · exact le_rfl
  · cases q with
    | nil => simp [rbCall, queueCall, rbRead_empty h, RbCall.writes]
    | cons y q =>
      have hc : rb.count ≠ 0 := fun h0 => List.cons_ne_nil y q (h.count_eq_zero_iff.mp h0)
      have hmod := Nat.mod_le (rb.rdPtr.toNat + 1) (2 ^ 32)
      simp only [rbCall, rbRead, if_neg hc, queueCall, RbCall.writes, UInt32.toNat_add,
        UInt32.toNat_one, List.length_cons]
      omega
  · exact le_rfl
  · exact le_rfl
  · exact le_rfl

/-- **Until the write pointer wraps, a ring of any depth is a queue.** -/
theorem Represents.calls (hlt : D < 2 ^ 32) (h : Represents rb q) {xs : List (RbCall α)}
    (hxs : ∀ x ∈ xs, x.Transfers)
    (hroom : rb.rdPtr.toNat + q.length + (xs.map RbCall.writes).sum ≤ 2 ^ 32) :
    replies rbCall rb xs = replies (queueCall D) q xs ∧
      Represents (after rbCall rb xs) (after (queueCall D) q xs) := by
  induction xs generalizing rb q with
  | nil => exact ⟨rfl, h⟩
  | cons x xs ih =>
    rw [List.map_cons, List.sum_cons, ← Nat.add_assoc] at hroom
    have hx := hxs x List.mem_cons_self
    have hcount : x = .count → D < 2 ^ 31 := fun he => (he ▸ hx : RbCall.Transfers .count).elim
    obtain ⟨hreply, hrep⟩ := h.call (Or.inr (by omega)) hlt hcount
    have hpos := position_call_le h x
    obtain ⟨hreplies, hafter⟩ :=
      ih hrep (fun y hy => hxs y (List.mem_cons_of_mem _ hy)) (by omega)
    exact ⟨by rw [replies, replies, hreply, hreplies], hafter⟩

end Run

/-! ## The pointers count -/

/-- **A call moves each pointer** by the chunk it wrote or delivered, if it did. -/
theorem ptrs_call (rb : RingBuffer α D) (x : RbCall α) :
    (rbCall rb x).1.wrPtr = rb.wrPtr + .ofNat (written [(x, (rbCall rb x).2)]).length ∧
      (rbCall rb x).1.rdPtr = rb.rdPtr + .ofNat (delivered [(x, (rbCall rb x).2)]).length := by
  rcases x with (_ | c) | (_ | c) | _ | _ | _
  · simp [rbCall, rbWrite, written, delivered]
  · by_cases hfull : D ≤ rb.count.toNat
    · simp [rbCall, rbWrite, hfull, written, delivered]
    · simp [rbCall, rbWrite, hfull, written, delivered]
  · simp [rbCall, rbRead, written, delivered]
  · by_cases h0 : rb.count = 0
    · simp [rbCall, rbRead, h0, written, delivered]
    · simp [rbCall, rbRead, h0, written, delivered]
  · simp [rbCall, written, delivered]
  · simp [rbCall, written, delivered]
  · simp [rbCall, written, delivered]

/-- A pointer that every call moves by the chunks `g` finds in it counts the chunks of a history. -/
theorem ptr_after {ptr : RingBuffer α D → UInt32} {g : RbCall α × RbReply α → Option α}
    (hstep : ∀ rb x, ptr (rbCall rb x).1 =
      ptr rb + .ofNat ([(x, (rbCall rb x).2)].filterMap g).length)
    (rb : RingBuffer α D) (xs : List (RbCall α)) :
    ptr (after rbCall rb xs) =
      ptr rb + .ofNat ((xs.zip (replies rbCall rb xs)).filterMap g).length := by
  induction xs generalizing rb with
  | nil => simp
  | cons x xs ih =>
    rw [after_cons, ih, hstep, UInt32.add_assoc, ← UInt32.ofNat_add, ← List.length_append,
      ← List.filterMap_append]
    rfl

/-- **The write pointer counts the chunks written**, modulo `2 ^ 32`. -/
theorem wrPtr_after (rb : RingBuffer α D) (xs : List (RbCall α)) :
    (after rbCall rb xs).wrPtr =
      rb.wrPtr + .ofNat (written (xs.zip (replies rbCall rb xs))).length :=
  ptr_after (fun rb x => (ptrs_call rb x).1) rb xs

/-- **The read pointer counts the chunks delivered**, modulo `2 ^ 32`. -/
theorem rdPtr_after (rb : RingBuffer α D) (xs : List (RbCall α)) :
    (after rbCall rb xs).rdPtr =
      rb.rdPtr + .ofNat (delivered (xs.zip (replies rbCall rb xs))).length :=
  ptr_after (fun rb x => (ptrs_call rb x).2) rb xs

omit [NeZero D] in
/-- Calls that all succeed have written a chunk for each `rb_write` among them. -/
theorem length_written {xs : List (RbCall α)} (hxs : ∀ x ∈ xs, x.Transfers)
    {rs : List (RbReply α)} (hlen : rs.length = xs.length) (hrs : ∀ r ∈ rs, r.ret = 0) :
    (written (xs.zip rs)).length = (xs.map RbCall.writes).sum := by
  induction xs generalizing rs with
  | nil => rfl
  | cons x xs ih =>
    cases rs with
    | nil => cases hlen
    | cons r rs =>
      have ih := ih (fun y hy => hxs y (List.mem_cons_of_mem _ hy)) (Nat.succ.inj hlen)
        fun s hs => hrs s (List.mem_cons_of_mem _ hs)
      have hr := hrs r List.mem_cons_self
      rw [List.map_cons, List.sum_cons, ← ih]
      rcases x with (_ | c) | (_ | c) | _ | _ | _
      · exact (hxs _ List.mem_cons_self).elim
      · simp [written, hr, RbCall.writes, Nat.add_comm]
      · exact (hxs _ List.mem_cons_self).elim
      · simp [written, RbCall.writes]
      · exact (hxs _ List.mem_cons_self).elim
      · exact (hxs _ List.mem_cons_self).elim
      · exact (hxs _ List.mem_cons_self).elim

/-! ## The calls up to the wrap -/

/-- A chunk written and read, `k` times over. -/
def balancedCalls (c : α) : ℕ → List (RbCall α)
  | 0 => []
  | k + 1 => .write (some c) :: .read (some c) :: balancedCalls c k

/-- The calls up to the wrap of the write pointer, the last `2 ^ 32 % D` of which fill the ring. -/
def overrunCalls (D : ℕ) (c : α) : List (RbCall α) :=
  balancedCalls c (2 ^ 32 - 2 ^ 32 % D) ++ List.replicate (2 ^ 32 % D) (.write (some c))

section Calls

variable (c : α)

omit [NeZero D] in
/-- Balanced calls leave the queue empty, and succeed. -/
theorem queueCall_balancedCalls (hpos : 0 < D) (k : ℕ) :
    after (queueCall D) [] (balancedCalls c k) = [] ∧
      ∀ r ∈ replies (queueCall D) [] (balancedCalls c k), r.ret = 0 := by
  induction k with
  | zero => exact ⟨rfl, nofun⟩
  | succ k ih => simpa [balancedCalls, replies, queueCall, hpos] using ih

omit [NeZero D] in
/-- Writes into the room that is left succeed. -/
theorem queueCall_replicate {q : List α} {k : ℕ} (h : q.length + k ≤ D) :
    after (queueCall D) q (List.replicate k (.write (some c))) = q ++ List.replicate k c ∧
      ∀ r ∈ replies (queueCall D) q (List.replicate k (.write (some c))), r.ret = 0 := by
  induction k generalizing q with
  | zero => exact ⟨(List.append_nil q).symm, nofun⟩
  | succ k ih =>
    have hq : q.length < D := by omega
    have ih := ih (q := q ++ [c]) (by rw [List.length_append, List.length_singleton]; omega)
    rw [List.append_assoc, List.singleton_append, ← List.replicate_succ] at ih
    simpa [List.replicate_succ, replies, queueCall, hq] using ih

theorem transfers_balancedCalls (k : ℕ) : ∀ x ∈ balancedCalls c k, x.Transfers := by
  induction k with
  | zero => exact nofun
  | succ k ih => simpa [balancedCalls, RbCall.Transfers] using ih

theorem writes_balancedCalls (k : ℕ) : ((balancedCalls c k).map RbCall.writes).sum = k := by
  induction k with
  | zero => rfl
  | succ k ih => simp [balancedCalls, RbCall.writes, ih, Nat.add_comm]

omit [NeZero D] in
theorem queueCall_overrunCalls (hpos : 0 < D) :
    after (queueCall D) [] (overrunCalls D c) = List.replicate (2 ^ 32 % D) c ∧
      ∀ r ∈ replies (queueCall D) [] (overrunCalls D c), r.ret = 0 := by
  obtain ⟨hnil, hbalanced⟩ := queueCall_balancedCalls c hpos (2 ^ 32 - 2 ^ 32 % D)
  have hroom : ([] : List α).length + 2 ^ 32 % D ≤ D := by
    rw [List.length_nil, Nat.zero_add]
    exact (Nat.mod_lt _ hpos).le
  obtain ⟨hfilled, hwrites⟩ := queueCall_replicate c hroom
  rw [overrunCalls, after_append, replies_append, hnil, hfilled]
  refine ⟨rfl, fun r hr => ?_⟩
  rcases List.mem_append.mp hr with hr | hr
  · exact hbalanced r hr
  · exact hwrites r hr

omit [NeZero D] in
theorem transfers_overrunCalls : ∀ x ∈ overrunCalls D c, x.Transfers := by
  intro x hx
  rcases List.mem_append.mp hx with hx | hx
  · exact transfers_balancedCalls c _ x hx
  · rw [List.eq_of_mem_replicate hx]
    trivial

omit [NeZero D] in
/-- There are `2 ^ 32` writes up to the wrap. -/
theorem writes_overrunCalls : ((overrunCalls D c).map RbCall.writes).sum = 2 ^ 32 := by
  have hle := Nat.mod_le (2 ^ 32) D
  rw [overrunCalls, List.map_append, List.sum_append, writes_balancedCalls, List.map_replicate,
    List.sum_replicate_nat, RbCall.writes, Nat.mul_one]
  omega

end Calls

/-! ## The overrun -/

section Overrun

variable [Zero α] (c : α)

/-- Up to the wrap the calls succeed, and leave `2 ^ 32 % D` chunks in the ring. -/
theorem represents_overrunCalls (hlt : D < 2 ^ 32) :
    replies rbCall (rbInit : RingBuffer α D) (overrunCalls D c) =
        replies (queueCall D) [] (overrunCalls D c) ∧
      Represents (after rbCall (rbInit : RingBuffer α D) (overrunCalls D c))
        (List.replicate (2 ^ 32 % D) c) := by
  have hroom : (rbInit : RingBuffer α D).rdPtr.toNat + ([] : List α).length +
      ((overrunCalls D c).map RbCall.writes).sum ≤ 2 ^ 32 := by
    rw [writes_overrunCalls, List.length_nil]
    exact (Nat.zero_add _).le
  obtain ⟨hreplies, hrep⟩ := represents_rbInit.calls hlt (transfers_overrunCalls c) hroom
  rw [(queueCall_overrunCalls c (Nat.pos_of_neZero D)).1] at hrep
  exact ⟨hreplies, hrep⟩

/-- The count stays within the depth all the way. -/
theorem count_le_of_isPrefix (hlt : D < 2 ^ 32) {xs : List (RbCall α)}
    (h : xs <+: overrunCalls D c) :
    (after rbCall (rbInit : RingBuffer α D) xs).count.toNat ≤ D := by
  have hsum : (xs.map RbCall.writes).sum ≤ 2 ^ 32 := by
    obtain ⟨ys, hys⟩ := h
    rw [← writes_overrunCalls (D := D) c, ← hys, List.map_append, List.sum_append]
    exact Nat.le_add_right _ _
  have hrep := (represents_rbInit.calls (D := D) hlt
    (fun x hx => transfers_overrunCalls c x (h.subset hx))
    (by rw [List.length_nil]; exact (Nat.zero_add _).trans_le hsum)).2
  rw [hrep.count_eq]
  exact hrep.length_le

/-- At the wrap both pointers are at slot `0`. -/
theorem slots_overrunCalls (hlt : D < 2 ^ 32) (hmod : 2 ^ 32 % D ≠ 0) :
    (slot (after rbCall (rbInit : RingBuffer α D) (overrunCalls D c)).wrPtr : Fin D) = 0 ∧
      (slot (after rbCall (rbInit : RingBuffer α D) (overrunCalls D c)).rdPtr : Fin D) = 0 := by
  obtain ⟨hreplies, hrep⟩ := represents_overrunCalls (D := D) c hlt
  obtain ⟨hqueue, hret⟩ := queueCall_overrunCalls (D := D) c (Nat.pos_of_neZero D)
  have hwritten := length_written (transfers_overrunCalls (D := D) c)
    (length_replies (queueCall D) [] _) hret
  rw [writes_overrunCalls] at hwritten
  have hdelivered : (delivered ((overrunCalls D c).zip
      (replies (queueCall D) [] (overrunCalls D c)))).length = 2 ^ 32 - 2 ^ 32 % D := by
    have hconserve := congrArg List.length
      (written_eq_delivered_append (D := D) [] (overrunCalls D c))
    rw [List.nil_append, hwritten, hqueue, List.length_append, List.length_replicate] at hconserve
    omega
  have hwr := wrPtr_after (rbInit : RingBuffer α D) (overrunCalls D c)
  have hrd := rdPtr_after (rbInit : RingBuffer α D) (overrunCalls D c)
  rw [hreplies, hwritten] at hwr
  rw [hreplies, hdelivered] at hrd
  constructor
  · -- the write pointer has just wrapped to zero
    rw [hwr]
    rfl
  · -- the read pointer stands at a multiple of the depth
    have hptr : (0 + UInt32.ofNat (2 ^ 32 - 2 ^ 32 % D)).toNat = 2 ^ 32 - 2 ^ 32 % D := by
      rw [UInt32.zero_add]
      exact UInt32.toNat_ofNat_of_lt' (Nat.sub_lt (by decide) (Nat.pos_of_ne_zero hmod))
    rw [hrd]
    apply Fin.ext
    show (0 + UInt32.ofNat (2 ^ 32 - 2 ^ 32 % D)).toNat % D = 0 % D
    rw [hptr, Nat.zero_mod]
    exact Nat.mod_eq_zero_of_dvd (Nat.dvd_sub_mod _)

end Overrun

/-- A write into a ring that is not full. -/
theorem rbWrite_of_lt {rb : RingBuffer α D} (c : α) (h : rb.count.toNat < D) :
    rbWrite rb (some c) =
      ({ slots := Function.update rb.slots (slot rb.wrPtr) c
         wrPtr := rb.wrPtr + 1
         rdPtr := rb.rdPtr
         count := rb.count + 1 }, 0) := by
  rw [rbWrite, if_neg (Nat.not_le.mpr h)]

omit [NeZero D] in
/-- A depth that is not a power of two does not divide `2 ^ 32`. -/
theorem mod_ne_zero_of_not_pow_two (hD : ∀ k, D ≠ 2 ^ k) : 2 ^ 32 % D ≠ 0 := by
  intro hmod
  obtain ⟨k, -, hk⟩ := (Nat.dvd_prime_pow Nat.prime_two).mp (Nat.dvd_of_mod_eq_zero hmod)
  exact hD k hk

/-- **The depth must be a power of two.** At any other depth there are calls of `rb_write` and
`rb_read`, all of which succeed and keep the count within the depth, after which the next `rb_write`
succeeds and goes to the slot of the oldest unread chunk `old`, so that the `rb_read` after it
returns `0` with another chunk. -/
theorem depth_must_be_pow_two [Zero α] (hlt : D < 2 ^ 32) (hD : ∀ k, D ≠ 2 ^ k) {old new : α}
    (hne : new ≠ old) (dst : α) :
    ∃ (calls : List (RbCall α)) (unread : List α),
      let rb : RingBuffer α D := after rbCall rbInit calls
      let history := calls.zip (replies rbCall (rbInit : RingBuffer α D) calls)
      let rb' := (rbWrite rb (some new)).1
      (∀ x ∈ calls, x.Transfers) ∧
        (∀ r ∈ replies rbCall (rbInit : RingBuffer α D) calls, r.ret = 0) ∧
        (∀ xs, xs <+: calls → (after rbCall (rbInit : RingBuffer α D) xs).count.toNat ≤ D) ∧
        written history = delivered history ++ old :: unread ∧
        rb.slots (slot rb.rdPtr) = old ∧ (slot rb.wrPtr : Fin D) = slot rb.rdPtr ∧
        (rbWrite rb (some new)).2 = 0 ∧ rb'.count.toNat ≤ D ∧
        ∃ got, got ≠ old ∧ (rbRead rb' (some dst)).2 = (0, some got) := by
  have hmod := mod_ne_zero_of_not_pow_two hD
  have hr : 2 ^ 32 % D < D := Nat.mod_lt _ (Nat.pos_of_neZero D)
  obtain ⟨hreplies, hrep⟩ := represents_overrunCalls (D := D) old hlt
  obtain ⟨hqueue, hret⟩ := queueCall_overrunCalls (D := D) old (Nat.pos_of_neZero D)
  obtain ⟨hwr, hrd⟩ := slots_overrunCalls (D := D) old hlt hmod
  obtain ⟨r, hsucc⟩ := Nat.exists_eq_succ_of_ne_zero hmod
  have hunread : List.replicate (2 ^ 32 % D) old = old :: List.replicate r old := by
    rw [hsucc, List.replicate_succ]
  refine ⟨overrunCalls D old, List.replicate r old, ?_⟩
  intro rb history rb'
  have hslot : (slot rb.wrPtr : Fin D) = slot rb.rdPtr := hwr.trans hrd.symm
  have hcount : rb.count.toNat = 2 ^ 32 % D := by rw [hrep.count_eq, List.length_replicate]
  have hspace : rb.count.toNat < D := hcount ▸ hr
  have hwrite := rbWrite_of_lt new hspace
  have hrb' : rb' = ⟨Function.update rb.slots (slot rb.rdPtr) new, rb.wrPtr + 1, rb.rdPtr,
      rb.count + 1⟩ := by
    rw [← hslot]
    exact congrArg Prod.fst hwrite
  have hnext : rb'.count.toNat = 2 ^ 32 % D + 1 := by
    rw [hrb', UInt32.toNat_add, UInt32.toNat_one, hcount]
    omega
  refine ⟨transfers_overrunCalls old, hreplies ▸ hret, fun xs hxs => ?_, ?_, ?_, hslot, ?_, ?_,
    new, hne, ?_⟩
  · exact count_le_of_isPrefix old hlt hxs
  · have hconserve := written_eq_delivered_append (D := D) [] (overrunCalls D old)
    rw [hqueue, ← hreplies, hunread] at hconserve
    exact hconserve
  · have hfirst := hrep.slots_eq 0 (by rw [hunread]; exact Nat.succ_pos _)
    rw [List.getElem_replicate] at hfirst
    exact hfirst
  · exact congrArg Prod.snd hwrite
  · rw [hnext]
    exact hr
  · -- the chunk written stands where the oldest one stood
    have hne0 : rb'.count ≠ 0 := fun h0 => by
      rw [h0, UInt32.toNat_zero] at hnext
      cases hnext
    have hgot : rb'.slots (slot rb'.rdPtr) = new := by
      rw [hrb']
      exact Function.update_self _ _ _
    rw [rbRead, if_neg hne0, hgot]

/-- A ring of three slots loses a chunk. -/
theorem depth_three_loses_chunk :
    ∃ (calls : List (RbCall (ImageChunk chunkSize))) (chunk : ImageChunk chunkSize),
      (∀ r ∈ replies rbCall (rbInit : RingBuffer (ImageChunk chunkSize) 3) calls, r.ret = 0) ∧
      ∃ got, got ≠ (0 : ImageChunk chunkSize) ∧
        (rbRead (rbWrite (after rbCall (rbInit : RingBuffer _ 3) calls) (some chunk)).1
          (some 0)).2 = (0, some got) := by
  have hpow : ∀ k, 3 ≠ 2 ^ k := by
    intro k hk
    have hdvd : 3 ∣ 2 := Nat.prime_three.dvd_of_dvd_pow (dvd_of_eq hk)
    exact absurd hdvd (by decide)
  have hne : ({ (0 : ImageChunk chunkSize) with frameId := 1 }) ≠ 0 :=
    fun h => absurd (congrArg ImageChunk.frameId h) (by decide)
  obtain ⟨calls, unread, -, hret, -, -, -, -, -, -, hgot⟩ :=
    depth_must_be_pow_two (D := 3) (by decide) hpow hne 0
  exact ⟨calls, _, hret, hgot⟩

end CameraPipeline
