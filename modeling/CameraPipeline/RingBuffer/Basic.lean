import CameraPipeline.Data.Buffer

/-!
# The ring buffer

`ring_buffer.c` and `ring_buffer.h`: a ring of `RB_DEPTH` slots between the camera and the hello
task, with free-running 32-bit pointers and an occupancy count. The slot type and the depth are
parameters: the C code only copies slots, and its depth is a macro that the header asks to be a
power of two. Each call takes the lock for its whole body, so a call is one step here; the lock
itself is the subject of `CameraPipeline.Lock.Launch`.

## Main definitions

* `ImageChunk C`: `struct image_chunk_s` with a payload of `C` bytes
* `RingBuffer α D`: `struct ring_buffer_s` with `D` slots
* `rbInit`, `rbWrite`, `rbRead`, `rbCount`, `rbFull`, `rbEmpty`: the API
* `rbCall`: the API as a reactive automaton
-/

namespace CameraPipeline

open Data

/-- The tasks that share the ring and the console. -/
inductive Task
  | camera
  | hello
  deriving DecidableEq

/-- `RB_DEPTH`. -/
abbrev rbDepth : ℕ := 64

instance : NeZero rbDepth := ⟨by decide⟩

/-- `CHUNK_SIZE`. -/
abbrev chunkSize : ℕ := 256

/-- `struct image_chunk_s`, with a payload array of `C` bytes. -/
structure ImageChunk (C : ℕ) where
  /-- JPEG payload or metadata string. -/
  data : Buf C
  /-- Valid bytes in `data`. -/
  len : UInt16
  /-- Which frame this chunk belongs to. -/
  frameId : UInt32
  /-- `1` on the final JPEG chunk of a frame. -/
  isLast : UInt8
  /-- `1` on a metadata chunk, `0` on JPEG data. -/
  isMeta : UInt8

/-- `memset(&chunk, 0, sizeof(chunk))`. -/
instance (C : ℕ) : Zero (ImageChunk C) := ⟨⟨Buf.zero C, 0, 0, 0, 0⟩⟩

/-- `struct ring_buffer_s`, with `D` slots of type `α`. -/
structure RingBuffer (α : Type) (D : ℕ) where
  slots : Fin D → α
  /-- Ever-increasing write pointer, a wrapping `uint32_t`. -/
  wrPtr : UInt32
  /-- Ever-increasing read pointer, a wrapping `uint32_t`. -/
  rdPtr : UInt32
  /-- Number of chunks held. -/
  count : UInt32

/-- The ring of `ring_buffer.c`: `RB_DEPTH` slots of image chunks. -/
abbrev ImageRing := RingBuffer (ImageChunk chunkSize) rbDepth

section Api

variable {α : Type} {D : ℕ} [NeZero D]

/-- `ptr % RB_DEPTH`. -/
def slot (ptr : UInt32) : Fin D := Fin.ofNat D ptr.toNat

/-- `rb_init`. -/
def rbInit [Zero α] : RingBuffer α D :=
  { slots := fun _ => 0, wrPtr := 0, rdPtr := 0, count := 0 }

/-- `rb_write(c)`; `none` is a NULL argument. On a full ring the call fails, and the caller is to
retry. -/
def rbWrite (rb : RingBuffer α D) : Option α → RingBuffer α D × Int
  | none => (rb, -1)
  | some c =>
    if D ≤ rb.count.toNat then (rb, -1)
    else
      ({ slots := Function.update rb.slots (slot rb.wrPtr) c
         wrPtr := rb.wrPtr + 1
         rdPtr := rb.rdPtr
         count := rb.count + 1 }, 0)

/-- `rb_read(c)`: the return value and what `*c` holds afterwards; `none` is a NULL argument. On an
empty ring the call fails. -/
def rbRead (rb : RingBuffer α D) : Option α → RingBuffer α D × Int × Option α
  | none => (rb, -1, none)
  | some c =>
    if rb.count = 0 then (rb, -1, some c)
    else
      ({ rb with rdPtr := rb.rdPtr + 1, count := rb.count - 1 }, 0,
        some (rb.slots (slot rb.rdPtr)))

/-- `rb_count`, the count cast to `int`. -/
def rbCount (rb : RingBuffer α D) : Int := rb.count.toInt32.toInt

/-- `rb_full`. -/
def rbFull (rb : RingBuffer α D) : Int := if D ≤ rb.count.toNat then 1 else 0

/-- `rb_empty`. -/
def rbEmpty (rb : RingBuffer α D) : Int := if rb.count = 0 then 1 else 0

end Api

/-- A call of the API by some task, once `rb_init` has returned. -/
inductive RbCall (α : Type)
  | write (c : Option α)
  | read (c : Option α)
  | count
  | full
  | empty

/-- What a call gives back: its return value, and for `rb_read` the caller's chunk. -/
structure RbReply (α : Type) where
  ret : Int
  chunk : Option α := none

/-- The API as a reactive automaton, one call a step. -/
def rbCall {α : Type} {D : ℕ} [NeZero D] (rb : RingBuffer α D) :
    RbCall α → RingBuffer α D × RbReply α
  | .write c => ((rbWrite rb c).1, { ret := (rbWrite rb c).2 })
  | .read c => ((rbRead rb c).1, { ret := (rbRead rb c).2.1, chunk := (rbRead rb c).2.2 })
  | .count => (rb, { ret := rbCount rb })
  | .full => (rb, { ret := rbFull rb })
  | .empty => (rb, { ret := rbEmpty rb })

end CameraPipeline
