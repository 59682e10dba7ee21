import Mathlib.Data.List.Basic
import Mathlib.Data.Nat.ModEq

/-!
# A link to a peer that answers

Two FIFO channels between a device and a peer that answers every symbol it receives. Both channels
lose nothing and delay symbols as long as they like. What the device will receive, if it sends
nothing more, is determined by what is under way: moves of the link do not change it.

## Main definitions

* `Link β`: what is under way in both directions, and what has arrived at the device
* `Link.move answer`: the peer receives and answers one symbol, or one symbol arrives
* `Link.pending answer`: what the device will receive

## Main results

* `Link.pending_move`: moves of the link leave `pending` alone
* `Link.pending_receive`, `Link.pending_send`, `Link.pending_discard`: what the device's operations
  do to it
-/

namespace Systems

variable {β : Type*}

/-- The symbols under way to the peer, those under way to the device, and those that have arrived at
the device and were not read, each oldest first. -/
structure Link (β : Type*) where
  toPeer : List β
  fromPeer : List β
  arrived : List β

namespace Link

/-- The link with nothing under way. -/
def idle : Link β := ⟨[], [], []⟩

/-- The moves of a link. -/
inductive Move
  | answer
  | arrive

/-- One move: the peer receives a symbol and sends its answer, or a symbol arrives at the device. -/
def move (answer : β → List β) (w : Link β) : Move → Option (Link β)
  | .answer =>
    match w.toPeer with
    | [] => none
    | b :: bs => some { w with toPeer := bs, fromPeer := w.fromPeer ++ answer b }
  | .arrive =>
    match w.fromPeer with
    | [] => none
    | b :: bs => some { w with fromPeer := bs, arrived := w.arrived ++ [b] }

/-- The device takes the oldest symbol that has arrived, if there is one. -/
def receive (w : Link β) : Option β × Link β :=
  match w.arrived with
  | [] => (none, w)
  | b :: bs => (some b, { w with arrived := bs })

/-- The device sends a symbol. -/
def send (w : Link β) (b : β) : Link β := { w with toPeer := w.toPeer ++ [b] }

/-- The device drops what has arrived. -/
def discard (w : Link β) : Link β := { w with arrived := [] }

/-- What the device will receive, if it sends nothing more. -/
def pending (answer : β → List β) (w : Link β) : List β :=
  w.arrived ++ (w.fromPeer ++ w.toPeer.flatMap answer)

variable {answer : β → List β}

/-- **Moves of the link do not change what will be received.** -/
theorem pending_move {w w' : Link β} {m : Move} (h : move answer w m = some w') :
    pending answer w' = pending answer w := by
  obtain ⟨toPeer, fromPeer, arrived⟩ := w
  cases m with
  | answer =>
    cases toPeer with
    | nil => cases h
    | cons b bs =>
      obtain rfl := Option.some.inj h
      simp [pending]
  | arrive =>
    cases fromPeer with
    | nil => cases h
    | cons b bs =>
      obtain rfl := Option.some.inj h
      simp [pending]

/-- The device receives nothing, or the next symbol of what is pending. -/
theorem pending_receive (answer : β → List β) (w : Link β) :
    (w.receive = (none, w)) ∨ ∃ b w', w.receive = (some b, w') ∧
      pending answer w = b :: pending answer w' := by
  obtain ⟨toPeer, fromPeer, arrived⟩ := w
  cases arrived with
  | nil => exact Or.inl rfl
  | cons b bs => exact Or.inr ⟨b, _, rfl, rfl⟩

theorem pending_send (answer : β → List β) (w : Link β) (b : β) :
    pending answer (w.send b) = pending answer w ++ answer b := by
  simp [pending, send]

theorem pending_discard (answer : β → List β) (w : Link β) :
    pending answer w.discard <:+ pending answer w :=
  List.suffix_append w.arrived _

end Link

end Systems
