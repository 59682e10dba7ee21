import CameraPipeline.Pipeline.System
import CameraPipeline.Systems.Polling

/-!
# The decoding of the reply to a capture request

The reads after `CMD_CAPTURE` as an arbitrary sequence of bytes and empty reads. The decoding of
the reply, with its six exits and a poll limit for each byte, agrees with one grammar. Its stages
read a number of bytes and check them, so what a stage leaves to the next one is the bytes that
have come and the number of reads made.

## Main definitions

* `Reply`: a reply that passes the checks, with its header, its bytes and its metadata
* `Tally`, `tally`: the reads since `CMD_CAPTURE`, the calls of `close` and `SPI_EXCHANGE`, and the
  writes to the ring since `rb_init`
* `withReply reads o`: the oracle `o`, with the reads after `CMD_CAPTURE` answered by `reads`
* `Decoded`, `Replied`: the outcome of a stage of the decoding, and of all of it

## Main results

* `Reply.unique`: the reads yield at most one reply
* `wp_readStage`: the part the stages of the decoding share
* `wp_receiveReply`: the decoding agrees with the grammar
-/

namespace CameraPipeline

open Data Systems

/-! ## Replies -/

/-- **A reply that passes the checks**, behind its acknowledgement: the bytes of the JPEG size,
those of the metadata length, and as much metadata as they say. -/
structure Reply where
  s0 : UInt8
  s1 : UInt8
  s2 : UInt8
  s3 : UInt8
  l0 : UInt8
  l1 : UInt8
  metaStr : List UInt8
  admitted : Header.Admitted ⟨le32 s0 s1 s2 s3, le16 l0 l1⟩
  length_metaStr : metaStr.length = (le16 l0 l1).toNat

namespace Reply

/-- The header fields of a reply. -/
def header (r : Reply) : Header := ⟨le32 r.s0 r.s1 r.s2 r.s3, le16 r.l0 r.l1⟩

/-- The bytes behind the acknowledgement. -/
def fields (r : Reply) : List UInt8 := [r.s0, r.s1, r.s2, r.s3, r.l0, r.l1] ++ r.metaStr

/-- The bytes of a reply. -/
def bytes (r : Reply) : List UInt8 := ackByte :: r.fields

/-- The metadata, followed by zeros. -/
def metaBuf (r : Reply) : Buf metaBufSize := ⟨fun i => r.metaStr.getD i 0⟩

theorem length_fields (r : Reply) : r.fields.length = 6 + r.metaStr.length := by
  rw [fields, List.length_append]
  rfl

/-- What the first six bytes say about a reply. -/
theorem eq_fields_iff {r : Reply} {s0 s1 s2 s3 l0 l1 : UInt8} {bs : List UInt8} :
    [s0, s1, s2, s3, l0, l1] ++ bs = r.fields ↔
      s0 = r.s0 ∧ s1 = r.s1 ∧ s2 = r.s2 ∧ s3 = r.s3 ∧ l0 = r.l0 ∧ l1 = r.l1 ∧ bs = r.metaStr := by
  simp [fields]

/-- The reads yield at most one reply. -/
theorem unique {reads : ℕ → Option UInt8} {r r' : Reply} {n n' : ℕ}
    (h : Timely reads ackPolls sizePolls r.bytes n)
    (h' : Timely reads ackPolls sizePolls r'.bytes n') : r = r' ∧ n = n' := by
  obtain ⟨m, hack, hr⟩ := h
  obtain ⟨m', hack', hr'⟩ := h'
  obtain ⟨-, rfl⟩ := hack.unique hack'
  obtain ⟨k, hfront, hmeta⟩ := arrives_append.mp hr
  obtain ⟨k', hfront', hmeta'⟩ := arrives_append.mp hr'
  obtain ⟨heq, rfl⟩ := hfront.unique hfront' rfl
  obtain ⟨s0, s1, s2, s3, l0, l1, metaStr, hadm, hlen⟩ := r
  obtain ⟨s0', s1', s2', s3', l0', l1', metaStr', hadm', hlen'⟩ := r'
  simp only [List.cons.injEq, and_true] at heq
  obtain ⟨rfl, rfl, rfl, rfl, rfl, rfl⟩ := heq
  obtain ⟨heq, rfl⟩ := hmeta.unique hmeta' (hlen.trans hlen'.symm)
  dsimp only at heq
  subst heq
  exact ⟨rfl, rfl⟩

end Reply

/-! ## The calls that count -/

/-- The reads since `CMD_CAPTURE` was sent, if it was, the calls of `close` and of `SPI_EXCHANGE`,
and the calls of `rb_write` since `rb_init`, if there was one. -/
structure Tally where
  reads : Option ℕ
  closes : ℕ
  exchanges : ℕ
  writes : Option ℕ

namespace Tally

/-- The tally after one more call. -/
def add (t : Tally) : Call → Tally
  | .read => { t with reads := t.reads.map (· + 1) }
  | .write v => if v = cmdCapture then { t with reads := some 0 } else t
  | .close => { t with closes := t.closes + 1 }
  | .spiExchange _ _ => { t with exchanges := t.exchanges + 1 }
  | .rbInit => { t with writes := some 0 }
  | .rbWrite _ => { t with writes := t.writes.map (· + 1) }
  | _ => t

/-- The same tally, with `n` reads since `CMD_CAPTURE`. -/
def readTo (t : Tally) (n : ℕ) : Tally := { t with reads := some n }

/-- Before `CMD_CAPTURE` a preparatory call does not count. -/
theorem add_of_preparatory {t : Tally} {c : Call} (hc : c.Preparatory) (ht : t.reads = none) :
    t.add c = t := by
  obtain ⟨reads, closes, exchanges, writes⟩ := t
  obtain rfl : reads = none := ht
  cases c with
  | write v => exact if_neg hc
  | rbInit | rbWrite | close | spiLock | spiSetMode | spiSetBits | spiSetFrequency | spiSelect
  | spiExchange => exact hc.elim
  | _ => rfl

end Tally

/-- The tally of some calls. -/
def tally (cs : List Call) : Tally := cs.foldl Tally.add ⟨none, 0, 0, none⟩

theorem tally_snoc (cs : List Call) (c : Call) : tally (cs ++ [c]) = (tally cs).add c := by
  simp [tally]

/-- The oracle `o`, with the reads after `CMD_CAPTURE` answered by `reads`. -/
def withReply (reads : ℕ → Option UInt8) (o : Oracle) : Oracle := fun log c =>
  match c with
  | .read =>
    match (tally (log.map Sigma.fst)).reads with
    | some n => reads n
    | none => o log .read
  | c => o log c

/-! ## Rules for the calls of the decoding -/

section Rules

variable (reads : ℕ → Option UInt8) (o : Oracle)

/-- Weakest preconditions on the tally. -/
abbrev TallyWp {α : Type} (x : CamProg α) (Q : α → Tally → Prop) (t : Tally) : Prop :=
  x.Wp (handle (withReply reads o)) (fun w => tally w.calls) Q t

variable {reads o} {t : Tally} {n : ℕ}

theorem wp_add (c : Call) (hc : c.Ringless) :
    TallyWp reads o (Prog.once c) (fun _ t' => t' = t.add c) t :=
  wp_call tally hc fun log hlog => by rw [tally_snoc, hlog]

theorem wp_printf (text : String) :
    TallyWp reads o (printf text) (fun _ t' => t' = t) t :=
  wp_add (.printf text) trivial

/-- A read after `CMD_CAPTURE`. -/
theorem wp_uartRead :
    TallyWp reads o uartRead (fun v t' => v = reads n ∧ t' = t.readTo (n + 1)) (t.readTo n) := by
  refine wp_call tally (c := .read) trivial fun log hlog => ⟨?_, ?_⟩
  · rw [withReply, hlog]
    rfl
  · rw [tally_snoc, hlog]
    rfl

/-- What `uart_read_byte` gives from read `n` on: the next byte if it comes within the limit. -/
def ByteRead (reads : ℕ → Option UInt8) (t : Tally) (polls n : ℕ) (v : Option UInt8) (t' : Tally) :
    Prop :=
  (∃ b m, v = some b ∧ Next reads polls n b m ∧ t' = t.readTo m) ∨
    (v = none ∧ (∀ b m, ¬ Next reads polls n b m) ∧ ∃ m, t' = t.readTo m)

theorem wp_uartReadByte (polls n : ℕ) :
    TallyWp reads o (uartReadByte polls) (ByteRead reads t polls n) (t.readTo n) := by
  induction polls generalizing n with
  | zero => exact Or.inr ⟨rfl, fun _ _ => not_next_zero, n, rfl⟩
  | succ polls ih =>
    refine wp_uartRead.bind fun v t₁ hv => ?_
    obtain ⟨rfl, rfl⟩ := hv
    cases hn : reads n with
    | some b => exact Or.inl ⟨b, n + 1, rfl, next_succ.mpr (Or.inl ⟨hn, rfl⟩), rfl⟩
    | none =>
      refine (ih (n + 1)).mono fun v t' hv => ?_
      rcases hv with ⟨b, m, rfl, hb, rfl⟩ | ⟨rfl, hnext, ht'⟩
      · exact Or.inl ⟨b, m, rfl, next_succ.mpr (Or.inr ⟨hn, hb⟩), rfl⟩
      · refine Or.inr ⟨rfl, fun b m hb => ?_, ht'⟩
        rcases next_succ.mp hb with ⟨hsome, -⟩ | ⟨-, hb⟩
        · exact absurd (hn.symm.trans hsome) nofun
        · exact hnext b m hb

/-- What `uart_read_exact` gives from read `n` on, when `k` bytes are to go to index `i` on. -/
def BytesRead {size : ℕ} (reads : ℕ → Option UInt8) (t : Tally) (polls n k i : ℕ) (buf : Buf size)
    (r : Int × Buf size) (t' : Tally) : Prop :=
  (∃ bs m, bs.length = k ∧ Arrives reads polls n bs m ∧
    r = (0, buf.blit i (fun j => bs.getD j 0) k) ∧ t' = t.readTo m) ∨
  (r.1 = -1 ∧ (∀ bs m, bs.length = k → ¬ Arrives reads polls n bs m) ∧ ∃ m, t' = t.readTo m)

theorem wp_uartReadFrom {size : ℕ} (array : ArrayName) (len polls k i n : ℕ) (buf : Buf size)
    (h : i + k ≤ size) :
    TallyWp reads o (uartReadFrom array len polls k i buf) (BytesRead reads t polls n k i buf)
      (t.readTo n) := by
  induction k generalizing i n buf with
  | zero => exact Or.inl ⟨[], n, rfl, .nil n, by rw [Buf.blit_nil], rfl⟩
  | succ k ih =>
    rw [uartReadFrom, inBounds_of_lt (by omega), Prog.ret_bind]
    refine (wp_uartReadByte polls n).bind fun v t₁ hv => ?_
    rcases hv with ⟨b, m, rfl, hb, rfl⟩ | ⟨rfl, hnext, m, rfl⟩
    · refine (ih (i + 1) m (buf.store i b) (by omega)).mono fun r t' hr => ?_
      rcases hr with ⟨bs, m', rfl, hbs, rfl, rfl⟩ | ⟨hret, hno, ht'⟩
      · -- the byte stored and those read behind it are one copy
        have hsplit := buf.blit_add i (fun j => (b :: bs).getD j 0) 1 bs.length
        rw [← buf.store_eq_blit i, Nat.add_comm 1] at hsplit
        refine Or.inl ⟨b :: bs, m', rfl, .cons hb hbs, ?_, rfl⟩
        rw [← hsplit]
        refine congrArg (Prod.mk 0) (Buf.blit_congr _ _ fun j _ => ?_)
        rw [Nat.add_comm 1 j]
        rfl
      · -- other bytes would begin with the same one, and the rest of them does not come
        refine Or.inr ⟨hret, fun bs m' hlen harr => ?_, ht'⟩
        cases harr with
        | nil => cases hlen
        | cons hb' hbs =>
          obtain ⟨rfl, rfl⟩ := hb.unique hb'
          exact hno _ _ (Nat.succ.inj hlen) hbs
    · refine (wp_printf _).bind fun _ t₂ ht₂ => ?_
      refine Or.inr ⟨rfl, fun bs m' hlen harr => ?_, m, ht₂⟩
      cases harr with
      | nil => cases hlen
      | cons hb _ => exact hnext _ _ hb

end Rules

/-! ## The stages of the decoding -/

/-- The outcome of the decoding from read `n` on, when the bytes `front` have come behind the
acknowledgement: the fields and the metadata of a reply, when the rest of one comes, or the UART
closed and no header, when none does. -/
def Decoded (reads : ℕ → Option UInt8) (t : Tally) (front : List UInt8) (n : ℕ)
    (r : Option Header × Buf metaBufSize) (t' : Tally) : Prop :=
  (∃ (rep : Reply) (bs : List UInt8) (m : ℕ), front ++ bs = rep.fields ∧
    Arrives reads sizePolls n bs m ∧ r = (some rep.header, rep.metaBuf) ∧ t' = t.readTo m) ∨
  ((∀ (rep : Reply) (bs : List UInt8) (m : ℕ), front ++ bs = rep.fields →
    ¬ Arrives reads sizePolls n bs m) ∧ r.1 = none ∧ ∃ m, t' = (t.readTo m).add .close)

section Stages

variable {reads : ℕ → Option UInt8} {o : Oracle} {t : Tally} {front : List UInt8} {n : ℕ}

/-- Bytes that come move the outcome on. -/
theorem Decoded.advance {xs : List UInt8} {m : ℕ} {r : Option Header × Buf metaBufSize} {t' : Tally}
    (hxs : Arrives reads sizePolls n xs m)
    (hlen : ∀ (rep : Reply) bs, front ++ bs = rep.fields → xs.length ≤ bs.length)
    (h : Decoded reads t (front ++ xs) m r t') : Decoded reads t front n r t' := by
  rcases h with ⟨rep, bs, k, hfields, hbs, hr, ht'⟩ | ⟨hno, hr, ht'⟩
  · refine Or.inl ⟨rep, xs ++ bs, k, ?_, arrives_append.mpr ⟨m, hxs, hbs⟩, hr, ht'⟩
    rw [← List.append_assoc]
    exact hfields
  · refine Or.inr ⟨fun rep bs k hfields harr => ?_, hr, ht'⟩
    obtain ⟨ys, zs, k', rfl, hys, harr, hzs⟩ := harr.take (hlen rep bs hfields)
    obtain ⟨rfl, rfl⟩ := harr.unique hxs hys
    exact hno rep zs k (by rw [List.append_assoc]; exact hfields) hzs

/-- An exit of the decoding. -/
theorem wp_abort (text : String) (metaBuf : Buf metaBufSize) (m : ℕ)
    (hno : ∀ (rep : Reply) bs k, front ++ bs = rep.fields → ¬ Arrives reads sizePolls n bs k) :
    TallyWp reads o (do printf text; closeUart; pure (none, metaBuf)) (Decoded reads t front n)
      (t.readTo m) := by
  refine (wp_printf text).bind fun _ t₁ ht₁ => ?_
  refine (wp_add .close trivial).bind fun _ t₂ ht₂ => ?_
  exact Or.inr ⟨hno, rfl, m, by rw [ht₂, ht₁]⟩

/-- **A stage of the decoding**: the next `k` bytes are read into an array. The stage goes on when
they come, and gives the run up when they do not. -/
theorem wp_readStage {size k : ℕ} {array : ArrayName} {buf : Buf size}
    {f : Int × Buf size → CamProg (Option Header × Buf metaBufSize)} (hk : k ≤ size)
    (hlen : ∀ (rep : Reply) bs, front ++ bs = rep.fields → k ≤ bs.length)
    (hexit : ∀ buf' m,
      (∀ (rep : Reply) bs k', front ++ bs = rep.fields → ¬ Arrives reads sizePolls n bs k') →
        TallyWp reads o (f (-1, buf')) (Decoded reads t front n) (t.readTo m))
    (hf : ∀ xs m, xs.length = k →
      TallyWp reads o (f (0, buf.blit 0 (fun j => xs.getD j 0) k)) (Decoded reads t (front ++ xs) m)
        (t.readTo m)) :
    TallyWp reads o (uartReadExact array buf k sizePolls >>= f) (Decoded reads t front n)
      (t.readTo n) := by
  refine (wp_uartReadFrom array k sizePolls k 0 n buf (by omega)).bind fun r t₁ hr => ?_
  rcases hr with ⟨xs, m, hxs, harr, rfl, rfl⟩ | ⟨hret, hno, m, rfl⟩
  · exact (hf xs m hxs).mono fun r t' h => h.advance harr fun rep bs hbs => hxs ▸ hlen rep bs hbs
  · obtain ⟨ret, buf'⟩ := r
    obtain rfl : ret = -1 := hret
    refine hexit buf' m fun rep bs k' hfields hbs => ?_
    obtain ⟨ys, -, k'', -, hys, harr, -⟩ := hbs.take (hlen rep bs hfields)
    exact hno ys k'' hys harr

/-- Step 5, behind six bytes that pass the checks. -/
theorem wp_receiveMeta {s0 s1 s2 s3 l0 l1 : UInt8}
    (h : Header.Admitted ⟨le32 s0 s1 s2 s3, le16 l0 l1⟩) (metaBuf : Buf metaBufSize) :
    TallyWp reads o (receiveMeta ⟨le32 s0 s1 s2 s3, le16 l0 l1⟩ metaBuf)
      (Decoded reads t [s0, s1, s2, s3, l0, l1] n) (t.readTo n) := by
  have hlt : (le16 l0 l1).toNat < metaBufSize := h.metaLen_lt
  refine wp_readStage hlt.le (fun rep bs hbs => ?_) (fun _ m hno => wp_abort _ _ m hno)
    fun xs m hxs => ?_
  · obtain ⟨-, -, -, -, rfl, rfl, rfl⟩ := Reply.eq_fields_iff.mp hbs
    exact rep.length_metaStr.ge
  · -- the bytes read complete the reply
    replace hxs : xs.length = (le16 l0 l1).toNat := hxs
    let rep : Reply := ⟨s0, s1, s2, s3, l0, l1, xs, h, hxs⟩
    have hrest : ∀ i, (le16 l0 l1).toNat ≤ i → xs.getD i 0 = 0 := fun i hi => by
      rw [List.getD_eq_getElem?_getD, List.getElem?_eq_none (by omega)]
      rfl
    have hbuf : (metaBuf.clear metaBufSize).blit 0 (fun j => xs.getD j 0) (le16 l0 l1).toNat =
        rep.metaBuf := by
      refine Buf.ext_byte fun i hi => ?_
      have hbyte : rep.metaBuf.byte i = xs.getD i 0 := Buf.byte_of_lt _ hi
      rw [Buf.byte_blit _ (by omega), hbyte, Buf.clear_eq_zero, Buf.byte_zero]
      split
      · rfl
      · exact (hrest i (by omega)).symm
    have hzero : rep.metaBuf.byte (metaBufSize - 1) = 0 := by
      rw [Buf.byte_of_lt _ (by decide)]
      exact hrest (metaBufSize - 1) (by omega)
    show TallyWp reads o (printMeta _ >>= fun _ => pure (some rep.header, _)) _ _
    rw [hbuf, printMeta, inBounds_of_lt (length_takeWhile_lt _ hzero), Prog.ret_bind]
    refine (wp_printf _).bind fun _ t' ht' => ?_
    exact Or.inl ⟨rep, [], m, List.append_nil _, .nil m, rfl, ht'⟩

/-- Step 4, behind a size that passes the checks. -/
theorem wp_receiveMetaLen {s0 s1 s2 s3 : UInt8} (hpos : 0 < (le32 s0 s1 s2 s3).toNat)
    (hle : (le32 s0 s1 s2 s3).toNat ≤ imgBufSize) (metaBuf : Buf metaBufSize) :
    TallyWp reads o (receiveMetaLen (le32 s0 s1 s2 s3) metaBuf)
      (Decoded reads t [s0, s1, s2, s3] n) (t.readTo n) := by
  refine wp_readStage le_rfl (fun rep bs hbs => ?_) (fun _ m hno => wp_abort _ _ m hno)
    fun xs m hxs => ?_
  · have hlen := congrArg List.length hbs
    rw [List.length_append, rep.length_fields] at hlen
    simp only [List.length_cons, List.length_nil] at hlen
    omega
  · obtain ⟨l0, l1, rfl⟩ := List.length_eq_two.mp hxs
    refine (wp_printf _).bind fun _ t₁ ht₁ => ?_
    subst ht₁
    show TallyWp reads o (if le16 l0 l1 = 0 ∨ metaBufSize ≤ (le16 l0 l1).toNat then _ else _) _ _
    split
    · -- no reply that passes the checks begins like this
      rename_i hbad
      refine wp_abort _ _ m fun rep bs k hbs _ => ?_
      obtain ⟨-, -, -, -, rfl, rfl, -⟩ := Reply.eq_fields_iff.mp hbs
      exact not_badMetaLen_iff.mpr ⟨rep.admitted.metaLen_pos, rep.admitted.metaLen_lt⟩ hbad
    · rename_i hlen
      obtain ⟨hlpos, hlt⟩ := not_badMetaLen_iff.mp hlen
      exact wp_receiveMeta ⟨hpos, hle, hlpos, hlt⟩ metaBuf

/-- Step 3. -/
theorem wp_receiveSize (metaBuf : Buf metaBufSize) :
    TallyWp reads o (receiveSize metaBuf) (Decoded reads t [] n) (t.readTo n) := by
  refine wp_readStage le_rfl (fun rep bs hbs => ?_) (fun _ m hno => wp_abort _ _ m hno)
    fun xs m hxs => ?_
  · have hlen := congrArg List.length hbs
    rw [List.nil_append, rep.length_fields] at hlen
    omega
  · match xs, hxs with
    | [s0, s1, s2, s3], _ =>
      refine (wp_printf _).bind fun _ t₁ ht₁ => ?_
      subst ht₁
      show TallyWp reads o
        (if le32 s0 s1 s2 s3 = 0 ∨ imgBufSize < (le32 s0 s1 s2 s3).toNat then _ else _) _ _
      split
      · -- a size the check refuses is in no reply
        rename_i hbad
        refine wp_abort _ _ m fun rep bs k hbs _ => ?_
        simp only [Reply.fields, List.nil_append, List.cons_append, List.cons.injEq] at hbs
        obtain ⟨rfl, rfl, rfl, rfl, -⟩ := hbs
        exact not_badSize_iff.mpr ⟨rep.admitted.imgSize_pos, rep.admitted.imgSize_le⟩ hbad
      · rename_i hsize
        obtain ⟨hpos, hle⟩ := not_badSize_iff.mp hsize
        exact wp_receiveMetaLen hpos hle metaBuf

/-- The outcome of the whole decoding. -/
def Replied (reads : ℕ → Option UInt8) (t : Tally) (r : Option Header × Buf metaBufSize)
    (t' : Tally) : Prop :=
  (∃ (rep : Reply) (m : ℕ), Timely reads ackPolls sizePolls rep.bytes m ∧
    r = (some rep.header, rep.metaBuf) ∧ t' = t.readTo m) ∨
  ((∀ (rep : Reply) (m : ℕ), ¬ Timely reads ackPolls sizePolls rep.bytes m) ∧ r.1 = none ∧
    ∃ m, t' = (t.readTo m).add .close)

/-- **The decoding agrees with the grammar.** -/
theorem wp_receiveReply (metaBuf : Buf metaBufSize) :
    TallyWp reads o (receiveReply metaBuf) (Replied reads t) (t.readTo 0) := by
  refine (wp_uartReadByte ackPolls 0).bind fun ack t₁ hack => ?_
  by_cases hok : ack = some ackByte
  · -- the acknowledgement came: the outcome is that of the fields behind it
    rw [if_pos hok]
    rcases hack with ⟨b, m, rfl, hb, rfl⟩ | ⟨rfl, -⟩
    · obtain rfl : b = ackByte := Option.some.inj hok
      refine (wp_printf _).bind fun _ t₂ ht₂ => ?_
      subst ht₂
      refine (wp_receiveSize metaBuf).mono fun r t' hr => ?_
      rcases hr with ⟨rep, bs, k, rfl, hbs, hr, ht'⟩ | ⟨hno, hr, ht'⟩
      · exact Or.inl ⟨rep, k, ⟨m, hb, hbs⟩, hr, ht'⟩
      · refine Or.inr ⟨fun rep k hrep => ?_, hr, ht'⟩
        obtain ⟨m', hb', hbs⟩ := hrep
        obtain ⟨-, rfl⟩ := hb.unique hb'
        exact hno rep _ k rfl hbs
    · cases hok
  · rw [if_neg hok]
    have hno : ∀ (rep : Reply) (m : ℕ), ¬ Timely reads ackPolls sizePolls rep.bytes m := by
      rintro rep m ⟨m', hb', -⟩
      rcases hack with ⟨b, k, rfl, hb, -⟩ | ⟨-, hnext, -⟩
      · exact hok (congrArg some (hb.unique hb').1)
      · exact hnext _ _ hb'
    obtain ⟨m, rfl⟩ : ∃ m, t₁ = t.readTo m := by
      rcases hack with ⟨-, m, -, -, ht₁⟩ | ⟨-, -, ht₁⟩
      · exact ⟨m, ht₁⟩
      · exact ht₁
    refine (wp_printf _).bind fun _ t₂ ht₂ => ?_
    refine (wp_add .close trivial).bind fun _ t₃ ht₃ => ?_
    exact Or.inr ⟨hno, rfl, m, by rw [ht₃, ht₂]⟩

end Stages

end CameraPipeline
