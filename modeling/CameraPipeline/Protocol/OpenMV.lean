import CameraPipeline.Camera.Bounds
import CameraPipeline.Systems.Link

/-!
# The capture request against an OpenMV peer

The camera's UART joined to a peer that follows README's *OpenMV Protocol*, over channels that lose
nothing and delay bytes as long as they like. A handshake attempt that times out leaves its
acknowledgement under way, and `uart_flush` drops only what has arrived, so stale bytes `0xAA` may
stand in front of the reply to `CMD_CAPTURE`. What the camera will read is the link's `pending`
list. A header it accepts is the encoding at the front of that list, and behind at least one stale
byte no encoding passes the checks.

## Main definitions

* `encodeReply`, `peerAnswer`: the peer's replies
* `cameraWithPeer`: the camera's program and the link, as one automaton
* `Accepts P`: an accepted header and its metadata are encoded at the front of `P`

## Main results

* `encodeReply_of_stale`: an admitted encoding behind stale acknowledgements is the peer's own
* `triple_requestImage`: the camera accepts only what the peer sent behind stale acknowledgements
* `accepted_header_is_sent`: an accepted header is the one the peer sent
-/

namespace CameraPipeline

open Data Systems

/-! ## The peer and the link -/

/-- `le32(size)`, `le16(|meta|)`, `meta`. -/
def encodeReply (size : ℕ) (metaStr : List UInt8) : List UInt8 :=
  le32Bytes size ++ le16Bytes metaStr.length ++ metaStr

/-- What the peer sends when it receives a byte. -/
def peerAnswer (size : ℕ) (metaStr : List UInt8) (b : UInt8) : List UInt8 :=
  if b = cmdHandshake then [ackByte]
  else if b = cmdCapture then ackByte :: encodeReply size metaStr
  else []

/-- The camera's calls, with the UART at the link. The calls that do not touch the UART are answered
by `other`. -/
def linkHandle (other : (c : Call) → c.Resp) (w : Link UInt8) :
    (c : Call) → Option (c.Resp × Link UInt8)
  | .read => some w.receive
  | .write v => some ((), w.send v)
  | .tcflush => some ((), w.discard)
  | c => some (other c, w)

/-- **The camera and the peer**: the label `none` is a call of the camera, the others move bytes. -/
def cameraWithPeer (other : (c : Call) → c.Resp) (size : ℕ) (metaStr : List UInt8) {α : Type} :
    CamProg α × Link UInt8 → Option Link.Move → Option (CamProg α × Link UInt8) :=
  Prog.sched (linkHandle other) (Link.move (peerAnswer size metaStr))

/-! ## Rules for the camera's calls -/

section Rules

variable (other : (c : Call) → c.Resp) (size : ℕ) (metaStr : List UInt8)

/-- Triples on what the camera will read. -/
abbrev LinkTriple {α : Type} (P : List UInt8) (x : CamProg α) (Q : α → List UInt8 → Prop) : Prop :=
  Prog.Triple (linkHandle other) (Link.move (peerAnswer size metaStr))
    (Link.pending (peerAnswer size metaStr)) P x Q

theorem fixed_pending :
    Prog.Fixed (Link.move (peerAnswer size metaStr)) (Link.pending (peerAnswer size metaStr)) :=
  fun _ _ _ h => Link.pending_move h

variable {other size metaStr} {P : List UInt8} {α : Type}

theorem triple_pure {a : α} {Q : α → List UInt8 → Prop} (h : Q a P) :
    LinkTriple other size metaStr P (.ret a) Q :=
  Prog.triple_ret (fixed_pending size metaStr) h

/-- A call that does not touch the UART. -/
theorem triple_offLink (c : Call) (hc : ∀ w, linkHandle other w c = some (other c, w)) :
    LinkTriple other size metaStr P (Prog.once c) fun _ P' => P' = P := by
  refine Prog.triple_once (fixed_pending size metaStr) fun w r w' hw h => ?_
  rw [hc w] at h
  obtain ⟨-, rfl⟩ := Prod.mk.inj (Option.some.inj h)
  exact hw

theorem triple_printf (text : String) :
    LinkTriple other size metaStr P (printf text) fun _ P' => P' = P :=
  triple_offLink (.printf text) fun _ => rfl

theorem triple_closeUart :
    LinkTriple other size metaStr P closeUart fun _ P' => P' = P :=
  triple_offLink .close fun _ => rfl

theorem triple_uartWriteByte (v : UInt8) :
    LinkTriple other size metaStr P (uartWriteByte v)
      fun _ P' => P' = P ++ peerAnswer size metaStr v :=
  Prog.triple_once (fixed_pending size metaStr) fun w _ _ hw h => by
    obtain ⟨-, rfl⟩ := Prod.mk.inj (Option.some.inj h)
    rw [Link.pending_send, hw]

theorem triple_inBounds (array : ArrayName) (n i : ℕ) :
    LinkTriple other size metaStr P (inBounds array n i) fun _ P' => P' = P := by
  unfold inBounds
  split
  · exact triple_pure rfl
  · exact Prog.triple_fault

/-- The response to a read of the pending bytes `P`, when `P'` are left: none, or the first one. -/
def ReadFrom (P : List UInt8) (r : Option UInt8) (P' : List UInt8) : Prop :=
  (r = none ∧ P' = P) ∨ ∃ b, r = some b ∧ P = b :: P'

theorem ReadFrom.suffix {r : Option UInt8} {P' : List UInt8} (h : ReadFrom P r P') : P' <:+ P := by
  rcases h with ⟨-, rfl⟩ | ⟨b, -, rfl⟩
  · exact List.suffix_rfl
  · exact List.suffix_cons b P'

theorem readFrom_receive {w w' : Link UInt8} {r : Option UInt8}
    (h : linkHandle other w .read = some (r, w')) :
    ReadFrom (w.pending (peerAnswer size metaStr)) r (w'.pending (peerAnswer size metaStr)) := by
  replace h : w.receive = (r, w') := Option.some.inj h
  rcases w.pending_receive (peerAnswer size metaStr) with hnone | ⟨b, w₁, hsome, hP⟩
  · obtain ⟨rfl, rfl⟩ := Prod.mk.inj (hnone.symm.trans h)
    exact Or.inl ⟨rfl, rfl⟩
  · obtain ⟨rfl, rfl⟩ := Prod.mk.inj (hsome.symm.trans h)
    exact Or.inr ⟨b, rfl, hP⟩

theorem triple_uartRead : LinkTriple other size metaStr P uartRead (ReadFrom P) :=
  Prog.triple_once (fixed_pending size metaStr) fun _ _ _ hw h => hw ▸ readFrom_receive h

/-! ## The helpers -/

theorem triple_uartReadByte (t : ℕ) :
    LinkTriple other size metaStr P (uartReadByte t) (ReadFrom P) := by
  induction t with
  | zero => exact triple_pure (Or.inl ⟨rfl, rfl⟩)
  | succ t ih =>
    refine triple_uartRead.bind fun r P' hr => ?_
    rcases hr with ⟨rfl, rfl⟩ | ⟨b, rfl, hP⟩
    · exact ih
    · exact triple_pure (Or.inr ⟨b, rfl, hP⟩)

/-- A flush loses the bytes that have arrived, and no others. -/
theorem triple_uartFlush :
    LinkTriple other size metaStr P uartFlush fun _ P' => P' <:+ P := by
  refine Prog.Triple.bind (Q := fun _ P' => P' <:+ P) ?_ fun _ P₁ hP₁ => ?_
  · refine Prog.triple_call (fixed_pending size metaStr) (J := fun P' => P' <:+ P) List.suffix_rfl
      ?_ ?_
    · exact fun _ _ _ hw h _ => (readFrom_receive h).suffix.trans hw
    · exact fun _ _ _ hw h _ => triple_pure ((readFrom_receive h).suffix.trans hw)
  · refine Prog.triple_once (fixed_pending size metaStr) fun w _ _ hw h => ?_
    obtain ⟨-, rfl⟩ := Prod.mk.inj (Option.some.inj h)
    exact (w.pending_discard _).trans (hw ▸ hP₁)

theorem triple_handshakePoll (p : ℕ) :
    LinkTriple other size metaStr P (handshakePoll p) fun _ P' => P' <:+ P := by
  induction p generalizing P with
  | zero => exact triple_pure List.suffix_rfl
  | succ p ih =>
    refine (triple_uartReadByte 1).bind fun r P₁ hr => ?_
    split
    · refine triple_uartFlush.bind fun _ P₂ hP₂ => ?_
      refine (triple_printf _).bind fun _ P₃ hP₃ => ?_
      exact triple_pure (hP₃ ▸ hP₂.trans hr.suffix)
    · exact ih.mono fun _ _ h => h.trans hr.suffix

/-- Nothing is under way but acknowledgements. -/
def Stale (P : List UInt8) : Prop := ∀ b ∈ P, b = ackByte

theorem Stale.suffix {P' : List UInt8} (h : Stale P) (hs : P' <:+ P) : Stale P' :=
  fun b hb => h b (hs.subset hb)

/-- **The handshake leaves only acknowledgements under way**, one for each attempt at most. -/
theorem triple_handshakeFrom (k attempt : ℕ) (hP : Stale P) :
    LinkTriple other size metaStr P (handshakeFrom k attempt) fun _ P' => Stale P' := by
  induction k generalizing attempt P with
  | zero => exact (triple_printf _).bind fun _ _ h => triple_pure (h ▸ hP)
  | succ k ih =>
    refine triple_uartFlush.bind fun _ P₁ hP₁ => ?_
    refine (triple_uartWriteByte _).bind fun _ P₂ hP₂ => ?_
    refine (triple_printf _).bind fun _ P₃ hP₃ => ?_
    have hstale : Stale P₃ := by
      rw [hP₃, hP₂]
      intro b hb
      rcases List.mem_append.mp hb with hb | hb
      · exact hP.suffix hP₁ b hb
      · exact List.mem_singleton.mp hb
    refine (triple_handshakePoll _).bind fun ok P₄ hP₄ => ?_
    split
    · exact triple_pure (hstale.suffix hP₄)
    · exact ih (attempt + 1) (hstale.suffix hP₄)

/-- `uart_read_exact` fails, or takes the next bytes and stores them. -/
theorem triple_uartReadFrom {n : ℕ} (array : ArrayName) (len retries k i : ℕ) (buf : Buf n)
    (h : i + k ≤ n) :
    LinkTriple other size metaStr P (uartReadFrom array len retries k i buf) fun r P' =>
      r.1 < 0 ∨ ∃ bs, P = bs ++ P' ∧ bs.length = k ∧ r.2.slice 0 (i + k) = buf.slice 0 i ++ bs := by
  induction k generalizing i buf P with
  | zero => exact triple_pure (Or.inr ⟨[], rfl, rfl, (List.append_nil _).symm⟩)
  | succ k ih =>
    refine (triple_inBounds _ _ _).bind fun _ P₁ hP₁ => ?_
    subst hP₁
    refine (triple_uartReadByte retries).bind fun r P₂ hr => ?_
    rcases hr with ⟨rfl, -⟩ | ⟨b, rfl, rfl⟩
    · exact (triple_printf _).bind fun _ _ _ => triple_pure (Or.inl (by simp))
    · refine (ih (i + 1) (buf.store i b) (by omega)).mono fun r P₃ hr => ?_
      rcases hr with hneg | ⟨bs, rfl, hlen, hbs⟩
      · exact Or.inl hneg
      · refine Or.inr ⟨b :: bs, rfl, by rw [List.length_cons, hlen], ?_⟩
        have hstore : (buf.store i b).slice 0 (i + 1) = buf.slice 0 i ++ [b] := by
          rw [Buf.slice_succ, Nat.zero_add, Buf.byte_store _ (by omega), if_pos rfl]
          refine congrArg (· ++ [b]) (Buf.slice_congr fun j hj => ?_)
          rw [Nat.zero_add, Buf.byte_store _ (by omega), if_neg (by omega)]
        rw [show i + (k + 1) = i + 1 + k by omega, hbs, hstore, List.append_assoc]
        rfl

theorem triple_uartReadExact {n : ℕ} (array : ArrayName) (buf : Buf n) {len : ℕ} (retries : ℕ)
    (h : len ≤ n) :
    LinkTriple other size metaStr P (uartReadExact array buf len retries) fun r P' =>
      r.1 < 0 ∨ r.2.slice 0 len ++ P' = P := by
  refine (triple_uartReadFrom array len retries len 0 buf (by omega)).mono fun r P' hr => ?_
  rcases hr with hneg | ⟨bs, rfl, -, hbs⟩
  · exact Or.inl hneg
  · rw [Nat.zero_add] at hbs
    exact Or.inr (by rw [hbs]; rfl)

/-! ## The reply -/

/-- A header the camera goes on with, and the metadata it read, are encoded at the front of the
bytes `P`. -/
def Accepts (P : List UInt8) (r : Option Header × Buf metaBufSize) : Prop :=
  ∀ hdr, r.1 = some hdr →
    encodeReply hdr.imgSize.toNat (r.2.slice 0 hdr.metaLen.toNat) <+: P

theorem triple_abort (P' : List UInt8) (text : String) (metaBuf : Buf metaBufSize) :
    LinkTriple other size metaStr P' (do printf text; closeUart; pure (none, metaBuf))
      fun r _ => Accepts P r :=
  (triple_printf _).bind fun _ _ _ => triple_closeUart.bind fun _ _ _ =>
    triple_pure fun _ h => nomatch h

theorem triple_receiveMeta (hdr : Header) (hlt : hdr.metaLen.toNat < metaBufSize)
    (metaBuf : Buf metaBufSize) :
    LinkTriple other size metaStr P (receiveMeta hdr metaBuf) fun r _ =>
      Accepts (le32Bytes hdr.imgSize.toNat ++ le16Bytes hdr.metaLen.toNat ++ P) r := by
  refine (triple_uartReadExact _ _ _ hlt.le).bind fun r P₁ hr => ?_
  obtain ⟨ret, buf⟩ := r
  dsimp only
  split
  · exact triple_abort _ _ _
  · rename_i hret
    refine Prog.Triple.bind (Q := fun _ _ => True) ?_ fun _ _ _ => triple_pure fun hdr' hh => ?_
    · exact (triple_inBounds _ _ _).bind fun _ _ _ => (triple_printf _).mono fun _ _ _ => trivial
    · obtain rfl := Option.some.inj hh
      rw [← hr.resolve_left hret, encodeReply, Buf.slice_length, ← List.append_assoc]
      exact List.prefix_append _ _

theorem triple_receiveMetaLen (imgSize : UInt32) (metaBuf : Buf metaBufSize) :
    LinkTriple other size metaStr P (receiveMetaLen imgSize metaBuf) fun r _ =>
      Accepts (le32Bytes imgSize.toNat ++ P) r := by
  refine (triple_uartReadExact _ _ _ le_rfl).bind fun r P₁ hr => ?_
  obtain ⟨ret, ml⟩ := r
  dsimp only
  split
  · exact triple_abort _ _ _
  · rename_i hret
    have hml : le16Bytes (le16 (ml.byte 0) (ml.byte 1)).toNat = ml.slice 0 2 := le16Bytes_le16 _ _
    refine (triple_printf _).bind fun _ P₂ hP₂ => ?_
    split
    · exact triple_abort _ _ _
    · rename_i hlen
      rw [not_or, not_le] at hlen
      refine (triple_receiveMeta ⟨imgSize, _⟩ hlen.2 metaBuf).mono fun r _ h => ?_
      rw [← hr.resolve_left hret, ← hml, ← List.append_assoc, ← hP₂]
      exact h

theorem triple_receiveSize (metaBuf : Buf metaBufSize) :
    LinkTriple other size metaStr P (receiveSize metaBuf) fun r _ => Accepts P r := by
  refine (triple_uartReadExact _ _ _ le_rfl).bind fun r P₁ hr => ?_
  obtain ⟨ret, sz⟩ := r
  dsimp only
  split
  · exact triple_abort _ _ _
  · rename_i hret
    have hsz : le32Bytes (le32 (sz.byte 0) (sz.byte 1) (sz.byte 2) (sz.byte 3)).toNat =
        sz.slice 0 4 := le32Bytes_le32 _ _ _ _
    refine (triple_printf _).bind fun _ P₂ hP₂ => ?_
    split
    · exact triple_abort _ _ _
    · refine (triple_receiveMetaLen _ metaBuf).mono fun r _ h => ?_
      rw [← hr.resolve_left hret, ← hsz, ← hP₂]
      exact h

theorem triple_receiveReply {P' : List UInt8} (hP : P = ackByte :: P')
    (metaBuf : Buf metaBufSize) :
    LinkTriple other size metaStr P (receiveReply metaBuf) fun r _ => Accepts P' r := by
  refine (triple_uartReadByte _).bind fun r P₁ hr => ?_
  split
  · rename_i hack
    refine (triple_printf _).bind fun _ P₂ hP₂ => ?_
    rcases hr with ⟨rfl, -⟩ | ⟨b, -, hb⟩
    · cases hack
    · rw [hP] at hb
      rw [(List.cons.inj hb).2, ← hP₂]
      exact triple_receiveSize metaBuf
  · exact triple_abort _ _ _

/-- **What the camera accepts** is encoded at the front of the peer's reply, with stale
acknowledgements before it. -/
theorem triple_requestImage (metaBuf : Buf metaBufSize) :
    LinkTriple other size metaStr [] (requestImage metaBuf) fun r _ =>
      ∃ k, Accepts (List.replicate k ackByte ++ encodeReply size metaStr) r := by
  refine triple_uartFlush.bind fun _ P₁ hP₁ => ?_
  obtain rfl := List.suffix_nil.mp hP₁
  refine (triple_offLink .spibusInitialize fun _ => rfl).bind fun up P₂ hP₂ => ?_
  subst hP₂
  split
  · refine (triple_printf _).bind fun _ P₃ hP₃ => ?_
    subst hP₃
    refine Prog.Triple.bind (Q := fun _ P' => Stale P') ?_ fun ret P₄ hP₄ => ?_
    · refine (triple_printf _).bind fun _ P₄ hP₄ => ?_
      subst hP₄
      exact triple_handshakeFrom _ _ fun _ h => nomatch h
    split
    · exact triple_closeUart.bind fun _ _ _ => triple_pure ⟨0, fun _ h => nomatch h⟩
    · refine (triple_printf _).bind fun _ P₅ hP₅ => ?_
      refine triple_uartFlush.bind fun _ P₆ hP₆ => ?_
      refine (triple_uartWriteByte _).bind fun _ P₇ hP₇ => ?_
      refine (triple_printf _).bind fun _ P₈ hP₈ => ?_
      -- the stale bytes and the acknowledgement of the capture look alike
      have hstale := List.eq_replicate_of_mem (hP₄.suffix (hP₅ ▸ hP₆))
      generalize P₆.length = k at hstale
      have hP : P₈ = ackByte :: (List.replicate k ackByte ++ encodeReply size metaStr) := by
        rw [hP₈, hP₇, hstale, ← List.cons_append, ← List.replicate_succ, List.replicate_succ',
          List.append_assoc]
        rfl
      exact (triple_receiveReply hP metaBuf).mono fun r _ h => ⟨k, h⟩
  · exact (triple_abort _ _ _).mono fun r _ h => ⟨0, h⟩

end Rules

/-! ## Stale bytes in front of the reply -/

/-- **Stale bytes are always noticed.** An admitted encoding at the front of the peer's reply, with
stale acknowledgements before it, is the peer's own. -/
theorem encodeReply_of_stale {size size' k : ℕ} {metaStr metaStr' : List UInt8}
    (hsize : size < 2 ^ 24) (hmeta : metaStr.length < 2 ^ 16) (hsize' : size' ≤ imgBufSize)
    (hpos : 0 < metaStr'.length) (hlt : metaStr'.length < metaBufSize)
    (h : encodeReply size' metaStr' <+: List.replicate k ackByte ++ encodeReply size metaStr) :
    size' = size ∧ metaStr' = metaStr := by
  have hbuf : imgBufSize < 0xAAAA := by decide
  have hmb : metaBufSize < 256 := by decide
  have hack : ackByte.toNat = 0xAA := by decide
  obtain ⟨rest, h⟩ := h
  match k, h with
  | 0, h =>
    simp only [encodeReply, le32Bytes, le16Bytes, List.replicate_zero, List.nil_append,
      List.cons_append, List.cons.injEq, ← UInt8.toNat_inj, toNat_leByte] at h
    obtain ⟨h0, h1, h2, h3, l0, l1, hm⟩ := h
    have hlen : metaStr'.length = metaStr.length := by omega
    exact ⟨by omega, (List.append_inj (hm.trans (List.append_nil _).symm) hlen).1⟩
  | 1, h =>
    simp only [encodeReply, le32Bytes, le16Bytes, List.replicate_succ, List.replicate_zero,
      List.nil_append, List.cons_append, List.cons.injEq, ← UInt8.toNat_inj, toNat_leByte] at h
    obtain ⟨-, -, -, -, l0, -⟩ := h
    omega
  | k + 2, h =>
    simp only [encodeReply, le32Bytes, le16Bytes, List.replicate_succ, List.cons_append,
      List.cons.injEq, ← UInt8.toNat_inj, toNat_leByte] at h
    obtain ⟨h0, h1, -⟩ := h
    omega

/-- **A delayed acknowledgement never makes the camera accept a wrong header.** Whatever the
schedule, a camera that goes on to the SPI phase has the size, the metadata length and the metadata
that the peer sent. -/
theorem accepted_header_is_sent (other : (c : Call) → c.Resp) {size : ℕ} {metaStr : List UInt8}
    (hsize : size < 2 ^ 24) (hmeta : metaStr.length < 2 ^ 16) (metaBuf : Buf metaBufSize)
    {ls : List (Option Link.Move)} {hdr : Header} {metaBuf' : Buf metaBufSize} {w : Link UInt8}
    (h : run (cameraWithPeer other size metaStr) (requestImage metaBuf, Link.idle) ls =
      some (.ret (some hdr, metaBuf'), w)) :
    hdr.imgSize.toNat = size ∧ hdr.metaLen.toNat = metaStr.length ∧
      metaBuf'.slice 0 hdr.metaLen.toNat = metaStr := by
  have hadm : hdr.Admitted := (all_requestImage metaBuf).result h hdr rfl
  obtain ⟨k, hacc⟩ := triple_requestImage metaBuf Link.idle rfl ls _ w h
  have hlen := Buf.slice_length metaBuf' 0 hdr.metaLen.toNat
  have hpos := hadm.metaLen_pos
  have hlt := hadm.metaLen_lt
  rw [← hlen] at hpos hlt
  obtain ⟨hs, hm⟩ := encodeReply_of_stale hsize hmeta hadm.imgSize_le hpos hlt (hacc hdr rfl)
  exact ⟨hs, by rw [← hm, hlen], hm⟩

/-- Responses of a board that works, for the calls that do not touch the UART. -/
def workingBoard : (c : Call) → c.Resp
  | .rbWrite _ => (0 : Int)
  | .openUart => none
  | .read => none
  | .spibusInitialize => true
  | .spiExchange _ k => Buf.zero k
  | .printf _ | .rbInit | .tcsetattr | .write _ | .tcflush | .close | .spiLock _ | .spiSetMode
  | .spiSetBits _ | .spiSetFrequency _ | .spiSelect _ => ()

/-- A capture whose first handshake attempt times out. Its acknowledgement answers the second
attempt, and the second acknowledgement is flushed before `CMD_CAPTURE`; the reply arrives in three
parts, with polls without an answer between them. -/
def lateAckSchedule : List (Option Link.Move) :=
  [.replicate 63 none, [some .answer, some .arrive], .replicate 5 none,
    [some .answer, some .arrive], .replicate 6 none, [some .answer, some .arrive],
    .replicate 3 none, .replicate 4 (some .arrive), .replicate 6 none, .replicate 4 (some .arrive),
    .replicate 6 none].flatten

/-- The state this capture comes to, of 20000 bytes and the metadata `"ab"`. -/
def lateAckCapture : Option (CamProg (Option Header × Buf metaBufSize) × Link UInt8) :=
  run (cameraWithPeer workingBoard 20000 [0x61, 0x62]) (requestImage (Buf.zero _), Link.idle)
    lateAckSchedule

/-- The header and the metadata are accepted after a retried handshake. -/
theorem accepted_header_late_ack :
    ∃ hdr metaBuf w, lateAckCapture = some (.ret (some hdr, metaBuf), w) ∧
      hdr.imgSize.toNat = 20000 ∧ metaBuf.slice 0 hdr.metaLen.toNat = [0x61, 0x62] := by
  have haccepted : (lateAckCapture.bind fun s => s.1.result?).map (fun r => r.1.isSome) =
      some true := by
    decide +kernel
  obtain ⟨⟨r, metaBuf⟩, hresult, hsome⟩ := Option.map_eq_some_iff.mp haccepted
  obtain ⟨⟨p, w⟩, hrun, hp⟩ := Option.bind_eq_some_iff.mp hresult
  obtain rfl := Prog.result?_eq_some.mp hp
  obtain ⟨hdr, rfl⟩ := Option.isSome_iff_exists.mp hsome
  rw [lateAckCapture] at hrun ⊢
  have hsent := accepted_header_is_sent workingBoard (by decide) (by decide) _ hrun
  exact ⟨hdr, metaBuf, w, hrun, hsent.1, hsent.2.2⟩

end CameraPipeline
