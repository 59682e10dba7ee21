import CameraPipeline.RingBuffer.Queue

/-!
# The ring buffer mirrors the clocked `CircularBuffer`

The comments of `ring_buffer.c` describe a Verilog module: registers that change together at a
clock edge, on enables evaluated on the old state. The C code has one call after another instead,
and pointers of 32 bits that never return to zero at the depth. A clock step becomes the enabled
calls, `rb_write` first when the ring is full and `rb_read` first otherwise; under that order the
two stay equal, register for register.

## Main definitions

* `CircularBuffer.clock`: one clock edge of the module
* `clockCalls`: the C calls of one clock step
* `Mirrors rb s`: the ring's state is the module's registers and memory

## Main results

* `isSim_clockCalls`: one clock step
* `ring_mirrors_circularBuffer`: every run from reset
-/

namespace CameraPipeline

open Systems

/-- The registers and the memory of `CircularBuffer`. -/
structure CircularBuffer (α : Type) (D : ℕ) where
  mem : Fin D → α
  wrPtr : Fin D
  rdPtr : Fin D
  count : ℕ

/-- The inputs of one clock step. `dst` is what the reader's chunk holds before the call; the
module has no such input. -/
structure ClockInput (α : Type) where
  wrEn : Bool
  rdEn : Bool
  wrData : α
  dst : α

section Clock

variable {α : Type} {D : ℕ} [NeZero D]

/-- The module after a reset that leaves its memory at `mem`. -/
def CircularBuffer.reset (mem : Fin D → α) : CircularBuffer α D :=
  { mem := mem, wrPtr := 0, rdPtr := 0, count := 0 }

/-- **One clock edge**: whether the module writes, and the data it reads. Both enables are gated
by `full` and `empty` on the old state. -/
def CircularBuffer.clock (s : CircularBuffer α D) (x : ClockInput α) :
    CircularBuffer α D × (Bool × Option α) :=
  let full := s.count == D
  let empty := s.count == 0
  let wr := x.wrEn && !full
  let rd := x.rdEn && !empty
  ({ mem := if wr then Function.update s.mem s.wrPtr x.wrData else s.mem
     wrPtr := if wr then s.wrPtr + 1 else s.wrPtr
     rdPtr := if rd then s.rdPtr + 1 else s.rdPtr
     count := if wr && !rd then s.count + 1 else if rd && !wr then s.count - 1 else s.count },
    (wr, if rd then some (s.mem s.rdPtr) else none))

/-- `rb_write` if enabled, and whether it returned `0`. -/
def clockWrite (rb : RingBuffer α D) (x : ClockInput α) : RingBuffer α D × Bool :=
  if x.wrEn then ((rbWrite rb (some x.wrData)).1, (rbWrite rb (some x.wrData)).2 == 0)
  else (rb, false)

/-- `rb_read` if enabled, and the chunk it delivered if it returned `0`. -/
def clockRead (rb : RingBuffer α D) (x : ClockInput α) : RingBuffer α D × Option α :=
  if x.rdEn then
    ((rbRead rb (some x.dst)).1,
      if (rbRead rb (some x.dst)).2.1 = 0 then (rbRead rb (some x.dst)).2.2 else none)
  else (rb, none)

/-- **The C calls of one clock step**: `rb_write` first on a full ring, `rb_read` first
otherwise. -/
def clockCalls (rb : RingBuffer α D) (x : ClockInput α) : RingBuffer α D × (Bool × Option α) :=
  if rbFull rb = 1 then
    let w := clockWrite rb x
    let r := clockRead w.1 x
    (r.1, (w.2, r.2))
  else
    let r := clockRead rb x
    let w := clockWrite r.1 x
    (w.1, (w.2, r.2))

/-- The ring's pointers modulo its depth, its count and its slots are the module's registers and
memory. -/
structure Mirrors (rb : RingBuffer α D) (s : CircularBuffer α D) : Prop where
  wrPtr_eq : slot rb.wrPtr = s.wrPtr
  rdPtr_eq : slot rb.rdPtr = s.rdPtr
  count_eq : rb.count.toNat = s.count
  slots_eq : rb.slots = s.mem

theorem slot_succ (hD : D ∣ 2 ^ 32) (p : UInt32) : (slot (p + 1) : Fin D) = slot p + 1 := by
  apply Fin.ext
  have hone : ((1 : Fin D) : ℕ) = 1 % D := rfl
  rw [slot_add (Or.inl hD), Fin.val_add, hone, slot, Fin.val_ofNat, Fin.val_ofNat, UInt32.toNat_one,
    ← Nat.add_mod]

end Clock

section Step

variable {α : Type} {D : ℕ} [NeZero D] {rb : RingBuffer α D} {s : CircularBuffer α D}
  {x : ClockInput α}

theorem clockWrite_of_full (hfull : D ≤ rb.count.toNat) : clockWrite rb x = (rb, false) := by
  cases hw : x.wrEn
  · simp [clockWrite, hw]
  · simp [clockWrite, hw, rbWrite, hfull]

theorem clockRead_of_empty (h0 : rb.count = 0) : clockRead rb x = (rb, none) := by
  cases hr : x.rdEn
  · simp [clockRead, hr]
  · simp [clockRead, hr, rbRead, h0]

/-- A clocked write on a ring that is not full is the module's write. -/
theorem Mirrors.clockWrite (hD : D ∣ 2 ^ 32) (hlt : D < 2 ^ 32) (h : Mirrors rb s)
    (hfull : ¬ D ≤ rb.count.toNat) :
    (clockWrite rb x).2 = x.wrEn ∧
      Mirrors (clockWrite rb x).1
        { s with
          mem := if x.wrEn then Function.update s.mem s.wrPtr x.wrData else s.mem
          wrPtr := if x.wrEn then s.wrPtr + 1 else s.wrPtr
          count := if x.wrEn then s.count + 1 else s.count } := by
  cases hw : x.wrEn
  · simpa [CameraPipeline.clockWrite, hw] using h
  · have hc : (rb.count + 1).toNat = s.count + 1 := by
      rw [UInt32.toNat_add, UInt32.toNat_one, h.count_eq]
      have := h.count_eq
      omega
    simp only [CameraPipeline.clockWrite, hw, rbWrite, if_neg hfull, if_true]
    refine ⟨rfl, ?_, h.rdPtr_eq, hc, ?_⟩
    · rw [slot_succ hD, h.wrPtr_eq]
    · rw [h.slots_eq, h.wrPtr_eq]

/-- A clocked read on a ring that is not empty is the module's read. -/
theorem Mirrors.clockRead (hD : D ∣ 2 ^ 32) (h : Mirrors rb s) (h0 : rb.count ≠ 0) :
    (clockRead rb x).2 = (if x.rdEn then some (s.mem s.rdPtr) else none) ∧
      Mirrors (clockRead rb x).1
        { s with
          rdPtr := if x.rdEn then s.rdPtr + 1 else s.rdPtr
          count := if x.rdEn then s.count - 1 else s.count } := by
  cases hr : x.rdEn
  · simpa [CameraPipeline.clockRead, hr] using h
  · have hpos : 1 ≤ rb.count := by
      rw [UInt32.le_iff_toNat_le, UInt32.toNat_one]
      have : rb.count.toNat ≠ 0 := fun hc => h0 (UInt32.toNat_inj.mp hc)
      omega
    have hc : (rb.count - 1).toNat = s.count - 1 := by
      rw [UInt32.toNat_sub_of_le _ _ hpos, h.count_eq, UInt32.toNat_one]
    simp only [CameraPipeline.clockRead, hr, rbRead, if_neg h0, if_true]
    refine ⟨?_, h.wrPtr_eq, ?_, hc, h.slots_eq⟩
    · rw [h.slots_eq, h.rdPtr_eq]
    · rw [slot_succ hD, h.rdPtr_eq]

theorem CircularBuffer.clock_full (hs : s.count = D) :
    s.clock x =
      ({ s with
         rdPtr := if x.rdEn then s.rdPtr + 1 else s.rdPtr
         count := if x.rdEn then s.count - 1 else s.count },
        (false, if x.rdEn then some (s.mem s.rdPtr) else none)) := by
  have hne : ¬ D = 0 := NeZero.ne D
  cases hr : x.rdEn <;> simp [clock, hs, hr, hne]

theorem CircularBuffer.clock_empty (hs : s.count = 0) :
    s.clock x =
      ({ s with
         mem := if x.wrEn then Function.update s.mem s.wrPtr x.wrData else s.mem
         wrPtr := if x.wrEn then s.wrPtr + 1 else s.wrPtr
         count := if x.wrEn then s.count + 1 else s.count },
        (x.wrEn, none)) := by
  have hne : ¬ 0 = D := (NeZero.ne D).symm
  cases hw : x.wrEn <;> simp [clock, hs, hw, hne]

theorem CircularBuffer.clock_between (hfull : s.count ≠ D) (h0 : s.count ≠ 0) :
    s.clock x =
      ({ mem := if x.wrEn then Function.update s.mem s.wrPtr x.wrData else s.mem
         wrPtr := if x.wrEn then s.wrPtr + 1 else s.wrPtr
         rdPtr := if x.rdEn then s.rdPtr + 1 else s.rdPtr
         count := if x.wrEn then (if x.rdEn then s.count - 1 else s.count) + 1
           else if x.rdEn then s.count - 1 else s.count },
        (x.wrEn, if x.rdEn then some (s.mem s.rdPtr) else none)) := by
  cases hw : x.wrEn <;> cases hr : x.rdEn <;> simp [clock, hfull, h0, hw, hr]
  omega

/-- **One clock step**: the calls do what the module does, and leave it mirrored. The three cases
are a full ring, an empty one, and one in between, where the read comes before the write and so
sees the old memory. -/
theorem isSim_clockCalls (hD : D ∣ 2 ^ 32) (hlt : D < 2 ^ 32) :
    IsSim (clockCalls (α := α) (D := D)) CircularBuffer.clock
      (fun rb s => Mirrors rb s ∧ s.count ≤ D) := by
  rintro rb s x ⟨h, hle⟩
  have hpos : 0 < D := Nat.pos_of_neZero D
  have hcount := h.count_eq
  by_cases hfull : D ≤ rb.count.toNat
  · have h0 : rb.count ≠ 0 := fun h0 => by rw [h0, UInt32.toNat_zero] at hfull; omega
    have hcalls : clockCalls rb x = ((clockRead rb x).1, (false, (clockRead rb x).2)) := by
      simp only [clockCalls, rbFull, if_pos hfull, clockWrite_of_full hfull, if_true]
    obtain ⟨hout, hm⟩ := h.clockRead (x := x) hD h0
    rw [hcalls, hout, CircularBuffer.clock_full (by omega)]
    exact ⟨rfl, hm, by dsimp only; split <;> omega⟩
  by_cases h0 : rb.count = 0
  · have hs : s.count = 0 := by rw [← hcount, h0, UInt32.toNat_zero]
    have hcalls : clockCalls rb x = ((clockWrite rb x).1, ((clockWrite rb x).2, none)) := by
      simp [clockCalls, rbFull, hfull, clockRead_of_empty h0]
    obtain ⟨hout, hm⟩ := h.clockWrite (x := x) hD hlt hfull
    rw [hcalls, hout, CircularBuffer.clock_empty hs]
    exact ⟨rfl, hm, by dsimp only; split <;> omega⟩
  · have hs : s.count ≠ 0 := fun hs => h0 (UInt32.toNat_inj.mp (hcount.trans hs))
    obtain ⟨hread, hm⟩ := h.clockRead (x := x) hD h0
    have hroom : ¬ D ≤ (clockRead rb x).1.count.toNat := by
      rw [hm.count_eq]
      dsimp only
      split <;> omega
    obtain ⟨hwrite, hm'⟩ := hm.clockWrite (x := x) hD hlt hroom
    have hcalls : clockCalls rb x = ((clockWrite (clockRead rb x).1 x).1,
        ((clockWrite (clockRead rb x).1 x).2, (clockRead rb x).2)) := by
      simp [clockCalls, rbFull, hfull]
    rw [hcalls, hread, hwrite, CircularBuffer.clock_between (by omega) hs]
    refine ⟨rfl, hm', ?_⟩
    dsimp only
    split <;> split <;> omega

end Step

/-- **The C ring buffer simulates the clocked `CircularBuffer`.** From `rb_init` and a reset to
the same memory, over every sequence of clock steps, the calls return `0` exactly when the module
writes or reads, with the data it reads, and the ring mirrors its registers and its memory. -/
theorem ring_mirrors_circularBuffer (xs : List (ClockInput (ImageChunk chunkSize))) :
    let rtl := CircularBuffer.reset (rbInit : ImageRing).slots
    replies clockCalls (rbInit : ImageRing) xs = replies CircularBuffer.clock rtl xs ∧
      Mirrors (after clockCalls (rbInit : ImageRing) xs) (after CircularBuffer.clock rtl xs) := by
  intro rtl
  have hsim := isSim_clockCalls (α := ImageChunk chunkSize) (D := rbDepth) (by decide) (by decide)
  have hreset : Mirrors (rbInit : ImageRing) rtl ∧ rtl.count ≤ rbDepth :=
    ⟨⟨rfl, rfl, rfl, rfl⟩, Nat.zero_le _⟩
  exact ⟨hsim.replies_eq hreset xs, (hsim.after hreset xs).1⟩

end CameraPipeline
