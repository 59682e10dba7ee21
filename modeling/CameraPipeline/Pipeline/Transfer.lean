import CameraPipeline.Pipeline.System

/-!
# The transfer extracts the image

`spi_read_image` against a slave that shifts out a stream of bytes, one for each byte clocked. Both
block loops end, and what they copy is the stream behind the sync bytes, however the size falls
against the block size.

## Main definitions

* `withSlave S o`: the oracle `o` with the stream `S` on the SPI bus
* `Clocking xs n`: the calls `xs` are exchanges of zero bytes that clock `n` bytes
* `transferCalls xs ys`: the calls of one transfer

## Main results

* `wp_spiDiscard`, `wp_spiReadBlocks`: the two loops
* `spiReadImage_extracts_image`: the transfer, over every interleaving with `hello_main`
-/

namespace CameraPipeline

open Data Systems

/-! ## The slave -/

/-- The bytes a call clocks. -/
def Call.clocks : Call → ℕ
  | .spiExchange _ k => k
  | _ => 0

/-- The bytes some calls clock. -/
def clocked (cs : List Call) : ℕ := (cs.map Call.clocks).sum

/-- The oracle `o`, with a slave on the SPI bus that shifts out the stream `S`: an exchange of `k`
bytes shifts in the next `k` bytes. -/
def withSlave (S : ℕ → UInt8) (o : Oracle) : Oracle := fun log c =>
  match c with
  | .spiExchange _ _ => ⟨fun j => S (clocked (log.map Sigma.fst) + j)⟩
  | c => o log c

/-- An exchange that sends only zero bytes, of a length between one and the block size. -/
def Call.IsDummyExchange : Call → Prop
  | .spiExchange tx k => tx = List.replicate k 0 ∧ 1 ≤ k ∧ k ≤ spiXferSize
  | _ => False

/-- The calls are exchanges of zero bytes that clock `n` bytes in all. -/
structure Clocking (xs : List Call) (n : ℕ) : Prop where
  exchange : ∀ c ∈ xs, c.IsDummyExchange
  total : clocked xs = n

/-- The calls of one transfer: the bus locked and set up, the slave selected, the exchanges `xs`
that discard the sync bytes and the exchanges `ys` that read the image, and the slave and the bus
released. -/
def transferCalls (xs ys : List Call) : List Call :=
  [.spiLock true, .spiSetMode, .spiSetBits 8, .spiSetFrequency 4000000, .spiSelect true] ++ xs ++
    [.printf s!"[CAM][SPI] {spiSyncBytes} sync bytes discarded\n"] ++ ys ++
      [.spiSelect false, .spiLock false]

@[simp] theorem clocked_append (xs ys : List Call) :
    clocked (xs ++ ys) = clocked xs + clocked ys := by
  simp [clocked]

@[simp] theorem clocked_singleton (c : Call) : clocked [c] = c.clocks := by
  simp [clocked]

theorem clocking_nil : Clocking [] 0 := ⟨nofun, rfl⟩

theorem Clocking.cons {xs : List Call} {k n : ℕ} (h : Clocking xs n) (hpos : 1 ≤ k)
    (hle : k ≤ spiXferSize) :
    Clocking (.spiExchange (List.replicate k 0) k :: xs) (k + n) := by
  constructor
  · intro c hc
    rcases List.mem_cons.mp hc with rfl | hc
    · exact ⟨rfl, hpos, hle⟩
    · exact h.exchange c hc
  · rw [← List.singleton_append, clocked_append, clocked_singleton, h.total]
    rfl

/-! ## Rules for the calls of the transfer -/

section Rules

variable (S : ℕ → UInt8) (o : Oracle)

/-- Weakest preconditions on the calls so far. -/
abbrev CallsWp {α : Type} (x : CamProg α) (Q : α → List Call → Prop) (cs : List Call) : Prop :=
  x.Wp (handle (withSlave S o)) World.calls Q cs

variable {S o} {cs : List Call}

/-- A call whose response tells nothing. -/
theorem wp_silent (c : Call) (hc : c.Ringless) :
    CallsWp S o (Prog.once c) (fun _ cs' => cs' = cs ++ [c]) cs :=
  wp_call id hc fun _ hlog => congrArg (· ++ [c]) hlog

/-- **One exchange** sends the first bytes of `spi_tx` and shifts the next bytes of the stream into
`spi_rx`. -/
theorem wp_spiExchange (st : Statics) {k : ℕ} (hk : k ≤ spiXferSize) :
    CallsWp S o (spiExchange st k) (fun st' cs' =>
      cs' = cs ++ [.spiExchange (st.spiTx.slice 0 k) k] ∧ st'.spiTx = st.spiTx ∧
        st'.imageBuf = st.imageBuf ∧ ∀ j < k, st'.spiRx.byte j = S (clocked cs + j)) cs := by
  rw [spiExchange, inRange_of_le (by omega), inRange_of_le (by omega), Prog.ret_bind,
    Prog.ret_bind]
  refine Prog.wp_bind (wp_call id (c := .spiExchange _ k) trivial fun log hlog => ?_)
  obtain rfl : log.map Sigma.fst = cs := hlog
  refine ⟨rfl, rfl, rfl, fun j hj => ?_⟩
  show (st.spiRx.blit 0 _ k).byte j = _
  rw [Buf.byte_blit _ (by omega), if_pos ⟨Nat.zero_le j, by omega⟩, Nat.sub_zero,
    Buf.byte_of_lt _ hj]
  rfl

end Rules

/-! ## The loops -/

section Loops

variable {S : ℕ → UInt8} {o : Oracle}

/-- **The first loop** clocks the bytes asked for, and keeps `image_buf`. -/
theorem wp_spiDiscard (st : Statics) (remaining : UInt32) (htx : st.spiTx = Buf.zero _)
    (cs : List Call) :
    CallsWp S o (spiDiscard st remaining) (fun st' cs' =>
      (∃ xs, cs' = cs ++ xs ∧ Clocking xs remaining.toNat) ∧ st'.spiTx = Buf.zero _ ∧
        st'.imageBuf = st.imageBuf) cs := by
  induction st, remaining using spiDiscard.induct generalizing cs with
  | case1 st remaining h ih =>
    rw [spiDiscard, if_pos h]
    refine (wp_spiExchange _ (spiXfer_le_size remaining)).bind fun st₁ cs₁ hst₁ => ?_
    obtain ⟨rfl, htx₁, himage₁, -⟩ := hst₁
    dsimp only at htx₁ himage₁
    refine (ih st₁ (htx₁.trans htx) _).mono fun st₂ cs₂ hst₂ => ?_
    obtain ⟨⟨xs, rfl, hxs⟩, htx₂, himage₂⟩ := hst₂
    refine ⟨⟨_, List.append_assoc _ _ _, ?_⟩, htx₂, himage₂.trans himage₁⟩
    rw [htx, Buf.slice_zeroes, ← spiXfer_add_rest remaining]
    exact hxs.cons (one_le_spiXfer h) (spiXfer_le_size remaining)
  | case2 st remaining h =>
    rw [spiDiscard, if_neg h]
    have hzero := toNat_eq_zero_of_not_pos h
    refine ⟨⟨[], (List.append_nil cs).symm, ?_⟩, htx, rfl⟩
    rw [hzero]
    exact clocking_nil

/-- **The second loop** copies the stream into `image_buf` at `offset`. -/
theorem wp_spiReadBlocks (st : Statics) (remaining offset : UInt32) (htx : st.spiTx = Buf.zero _)
    (hn : offset.toNat + remaining.toNat ≤ imgBufSize) (cs : List Call) :
    CallsWp S o (spiReadBlocks st remaining offset) (fun st' cs' =>
      (∃ ys, cs' = cs ++ ys ∧ Clocking ys remaining.toNat) ∧
        st'.imageBuf =
          st.imageBuf.blit offset.toNat (fun j => S (clocked cs + j)) remaining.toNat) cs := by
  induction st, remaining, offset using spiReadBlocks.induct generalizing cs with
  | case1 st remaining offset h xfer ih =>
    have hrest := spiXfer_add_rest remaining
    have hle := spiXfer_le_size remaining
    have hadd := toNat_add_spiXfer hn
    have hxfer : xfer = (spiXfer remaining).toNat := rfl
    rw [spiReadBlocks, if_pos h]
    refine (wp_spiExchange _ (spiXfer_le_size remaining)).bind fun st₁ cs₁ hst₁ => ?_
    obtain ⟨rfl, htx₁, himage₁, hrx₁⟩ := hst₁
    dsimp only at htx₁ himage₁
    rw [inRange_of_le (by omega), inRange_of_le (by omega)]
    refine (ih st₁ (htx₁.trans htx) (by omega) _).mono fun st₂ cs₂ hst₂ => ?_
    obtain ⟨⟨ys, rfl, hys⟩, himage₂⟩ := hst₂
    refine ⟨⟨_, List.append_assoc _ _ _, ?_⟩, ?_⟩
    · rw [htx, Buf.slice_zeroes, ← hrest]
      exact hys.cons (one_le_spiXfer h) (spiXfer_le_size remaining)
    · -- this block is the first part of the copy, and the rest goes on where it ends
      have hblock : st₁.imageBuf.blit offset.toNat st₁.spiRx.byte xfer =
          st.imageBuf.blit offset.toNat (fun j => S (clocked cs + j)) xfer := by
        rw [himage₁]
        exact Buf.blit_congr _ _ hrx₁
      rw [himage₂, hadd, hblock, ← hrest, hxfer, ← Buf.blit_add]
      refine Buf.blit_congr _ _ fun j _ => ?_
      rw [clocked_append, clocked_singleton, Nat.add_assoc]
      rfl
  | case2 st remaining offset h =>
    rw [spiReadBlocks, if_neg h]
    have hzero := toNat_eq_zero_of_not_pos h
    refine ⟨⟨[], (List.append_nil cs).symm, ?_⟩, ?_⟩
    · rw [hzero]
      exact clocking_nil
    · rw [hzero, Buf.blit_nil]

/-- **The whole transfer.** -/
theorem wp_spiReadImage (st : Statics) {n : UInt32} (hn : n.toNat ≤ imgBufSize) (cs : List Call) :
    CallsWp S o (spiReadImage st n) (fun r cs' =>
      r.1 = 0 ∧ ∃ xs ys, cs' = cs ++ transferCalls xs ys ∧ Clocking xs spiSyncBytes ∧
        Clocking ys n.toNat ∧
          r.2.imageBuf =
            st.imageBuf.blit 0 (fun j => S (clocked cs + spiSyncBytes + j)) n.toNat) cs := by
  have hsync : (UInt32.ofNat spiSyncBytes).toNat = spiSyncBytes := by decide
  have htx : st.spiTx.clear spiXferSize = Buf.zero spiXferSize := st.spiTx.clear_eq_zero
  unfold spiReadImage
  refine (wp_silent (.spiLock true) trivial).bind fun _ cs₁ hcs₁ => ?_
  refine (wp_silent .spiSetMode trivial).bind fun _ cs₂ hcs₂ => ?_
  refine (wp_silent (.spiSetBits 8) trivial).bind fun _ cs₃ hcs₃ => ?_
  refine (wp_silent (.spiSetFrequency 4000000) trivial).bind fun _ cs₄ hcs₄ => ?_
  refine (wp_silent (.spiSelect true) trivial).bind fun _ cs₅ hcs₅ => ?_
  refine (wp_spiDiscard _ _ htx cs₅).bind fun st₁ cs₆ hst₁ => ?_
  obtain ⟨⟨xs, hcs₆, hxs⟩, htx₁, himage₁⟩ := hst₁
  rw [hsync] at hxs
  refine (wp_silent (.printf _) trivial).bind fun _ cs₇ hcs₇ => ?_
  refine (wp_spiReadBlocks st₁ n 0 htx₁ (by simpa using hn) cs₇).bind fun st₂ cs₈ hst₂ => ?_
  obtain ⟨⟨ys, hcs₈, hys⟩, himage₂⟩ := hst₂
  refine (wp_silent (.spiSelect false) trivial).bind fun _ cs₉ hcs₉ => ?_
  refine (wp_silent (.spiLock false) trivial).bind fun _ cs' hcs' => ?_
  refine ⟨rfl, xs, ys, ?_, hxs, hys, ?_⟩
  · subst hcs₁ hcs₂ hcs₃ hcs₄ hcs₅ hcs₆ hcs₇ hcs₈ hcs₉ hcs'
    simp only [transferCalls, List.append_assoc, List.cons_append, List.nil_append]
  · -- of the calls before the second loop only the exchanges of the first one clock bytes
    have hclocked : clocked cs₇ = clocked cs + spiSyncBytes := by
      subst hcs₁ hcs₂ hcs₃ hcs₄ hcs₅ hcs₆ hcs₇
      simp only [clocked_append, clocked_singleton, hxs.total, Call.clocks, Nat.add_zero]
    rw [himage₂, himage₁, hclocked]
    rfl

end Loops

/-- **The transfer extracts exactly the image.** Whatever the slave shifts out, whatever the buffers
held, and however the call is interleaved with `hello_main`, both loops end and the call returns.
All its exchanges stand between one selection of the slave and its release, under the bus lock, and
each sends between one and `SPI_XFER_SIZE` zero bytes. The first loop clocks `SPI_SYNC_BYTES` bytes
and the second one `n`. The first `n` bytes of `image_buf` are the stream behind the sync bytes, and
the others are unchanged. -/
theorem spiReadImage_extracts_image (o : Oracle) (S : ℕ → UInt8) (st : Statics) {n : UInt32}
    (hn : n.toNat ≤ imgBufSize) {w w' : World} {ls : List (Option Unit)}
    {p : CamProg (Int × Statics)}
    (hrun : run (pipeline (withSlave S o)) (spiReadImage st n, w) ls = some (p, w')) :
    ∃ k st' w'' xs ys,
      run (pipeline (withSlave S o)) (p, w') (List.replicate k none) = some (.ret (0, st'), w'') ∧
      w''.calls = w.calls ++ transferCalls xs ys ∧
      Clocking xs spiSyncBytes ∧ Clocking ys n.toNat ∧
      (∀ i < n.toNat, st'.imageBuf.byte i = S (clocked w.calls + spiSyncBytes + i)) ∧
      ∀ i, n.toNat ≤ i → st'.imageBuf.byte i = st.imageBuf.byte i := by
  have hwp := (wp_spiReadImage (S := S) (o := o) st hn w.calls).run (fixed_view id) hrun
  obtain ⟨k, ⟨ret, st'⟩, w'', hret, rfl, xs, ys, hcalls, hxs, hys, himage⟩ := hwp.returns helloTurn
  refine ⟨k, st', w'', xs, ys, hret, hcalls, hxs, hys, fun i hi => ?_, fun i hi => ?_⟩
  · rw [himage, Buf.byte_blit _ (by omega), if_pos ⟨Nat.zero_le i, by omega⟩, Nat.sub_zero]
  · rw [himage, Buf.byte_blit _ (by omega), if_neg (by omega)]

/-- Three bytes of a slave that counts up from 10 behind the sync bytes. -/
theorem spiReadImage_extracts_three :
    ∃ k st' w'',
      run (pipeline (withSlave (fun i => UInt8.ofNat (i - 1014)) (scripted [])))
          (spiReadImage Statics.zero 3, World.start 0) (List.replicate k none) =
        some (.ret (0, st'), w'') ∧
      clocked w''.calls = 1027 ∧ st'.imageBuf.slice 0 4 = [10, 11, 12, 0] := by
  obtain ⟨k, st', w'', xs, ys, hret, hcalls, hxs, hys, hread, hrest⟩ :=
    spiReadImage_extracts_image (scripted []) (fun i => UInt8.ofNat (i - 1014)) Statics.zero
      (n := 3) (by decide) (w := World.start 0) (show run _ _ [] = some _ from rfl)
  refine ⟨k, st', w'', hret, ?_, ?_⟩
  · rw [hcalls, transferCalls]
    simp only [clocked_append, hxs.total, hys.total]
    rfl
  · have hstart : clocked (World.start 0).calls = 0 := rfl
    have hslice : st'.imageBuf.slice 0 4 =
        [st'.imageBuf.byte 0, st'.imageBuf.byte 1, st'.imageBuf.byte 2, st'.imageBuf.byte 3] := rfl
    rw [hslice, hread 0 (by decide), hread 1 (by decide), hread 2 (by decide),
      hrest 3 (by decide), hstart]
    exact congrArg _ (congrArg _ (congrArg _ (congrArg (· :: []) (Buf.byte_zero _ _))))

end CameraPipeline
