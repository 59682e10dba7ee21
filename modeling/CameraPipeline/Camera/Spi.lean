import CameraPipeline.Camera.Calls

/-!
# The SPI transfer

`spi_read_image`: the sync bytes are clocked in and discarded, then the image is read block by block
through `spi_rx` into `image_buf`.

## Main definitions

* `spiXfer remaining`: the length of the next block
* `spiExchange`: one `SPI_EXCHANGE` between `spi_tx` and `spi_rx`
* `spiDiscard`, `spiReadBlocks`: the two loops
* `spiReadImage`: the transfer
-/

namespace CameraPipeline

open Data Systems

/-! ## Blocks -/

/-- `(remaining < SPI_XFER_SIZE) ? remaining : SPI_XFER_SIZE`. -/
def spiXfer (remaining : UInt32) : UInt32 :=
  if remaining < .ofNat spiXferSize then remaining else .ofNat spiXferSize

theorem toNat_spiXfer (remaining : UInt32) :
    (spiXfer remaining).toNat = min remaining.toNat spiXferSize := by
  have hsize : (UInt32.ofNat spiXferSize).toNat = spiXferSize := by decide
  unfold spiXfer
  split
  · rename_i h
    rw [UInt32.lt_iff_toNat_lt, hsize] at h
    omega
  · rename_i h
    rw [UInt32.lt_iff_toNat_lt, hsize] at h
    omega

theorem toNat_sub_spiXfer (remaining : UInt32) :
    (remaining - spiXfer remaining).toNat = remaining.toNat - (spiXfer remaining).toNat := by
  refine UInt32.toNat_sub_of_le _ _ (UInt32.le_iff_toNat_le.mpr ?_)
  rw [toNat_spiXfer]
  exact Nat.min_le_left _ _

theorem spiXfer_le_size (remaining : UInt32) : (spiXfer remaining).toNat ≤ spiXferSize := by
  rw [toNat_spiXfer]
  exact Nat.min_le_right _ _

theorem one_le_spiXfer {remaining : UInt32} (h : 0 < remaining) :
    1 ≤ (spiXfer remaining).toNat := by
  rw [UInt32.lt_iff_toNat_lt, UInt32.toNat_zero] at h
  have hpos : 1 ≤ spiXferSize := by decide
  rw [toNat_spiXfer]
  omega

theorem toNat_eq_zero_of_not_pos {remaining : UInt32} (h : ¬ 0 < remaining) :
    remaining.toNat = 0 := by
  rw [UInt32.lt_iff_toNat_lt, UInt32.toNat_zero] at h
  omega

/-- A block and what it leaves make up what was to be read. -/
theorem spiXfer_add_rest (remaining : UInt32) :
    (spiXfer remaining).toNat + (remaining - spiXfer remaining).toNat = remaining.toNat := by
  have hle := toNat_spiXfer remaining
  rw [toNat_sub_spiXfer]
  omega

/-- The offset does not wrap inside `image_buf`. -/
theorem toNat_add_spiXfer {remaining offset : UInt32}
    (h : offset.toNat + remaining.toNat ≤ imgBufSize) :
    (offset + spiXfer remaining).toNat = offset.toNat + (spiXfer remaining).toNat := by
  have hbuf : imgBufSize < 2 ^ 32 := by decide
  have hrest := spiXfer_add_rest remaining
  rw [UInt32.toNat_add, Nat.mod_eq_of_lt (by omega)]

theorem toNat_sub_spiXfer_lt {remaining : UInt32} (h : 0 < remaining) :
    (remaining - spiXfer remaining).toNat < remaining.toNat := by
  have hpos := one_le_spiXfer h
  have hrest := spiXfer_add_rest remaining
  omega

/-! ## The loops -/

/-- `SPI_EXCHANGE(dev, spi_tx, spi_rx, k)`: what the slave shifts out replaces the first `k` bytes
of `spi_rx`. -/
def spiExchange (st : Statics) (k : ℕ) : CamProg Statics := do
  inRange .spiTx spiXferSize 0 k
  inRange .spiRx spiXferSize 0 k
  let rx ← Prog.once (Call.spiExchange (st.spiTx.slice 0 k) k)
  pure { st with spiRx := st.spiRx.blit 0 rx.byte k }

/-- The loop that discards the sync bytes. -/
def spiDiscard (st : Statics) (remaining : UInt32) : CamProg Statics :=
  if 0 < remaining then do
    let st ← spiExchange { st with spiRx := st.spiRx.clear spiXferSize } (spiXfer remaining).toNat
    spiDiscard st (remaining - spiXfer remaining)
  else pure st
termination_by remaining.toNat
decreasing_by exact toNat_sub_spiXfer_lt ‹_›

/-- The loop that reads the JPEG data into `image_buf` at `offset`, by a `memcpy` from `spi_rx` for
each block. -/
def spiReadBlocks (st : Statics) (remaining offset : UInt32) : CamProg Statics :=
  if 0 < remaining then do
    let xfer := (spiXfer remaining).toNat
    let st ← spiExchange { st with spiRx := st.spiRx.clear spiXferSize } xfer
    inRange .spiRx spiXferSize 0 xfer
    inRange .imageBuf imgBufSize offset.toNat xfer
    let st := { st with imageBuf := st.imageBuf.blit offset.toNat st.spiRx.byte xfer }
    spiReadBlocks st (remaining - spiXfer remaining) (offset + spiXfer remaining)
  else pure st
termination_by remaining.toNat
decreasing_by exact toNat_sub_spiXfer_lt ‹_›

/-- `spi_read_image(spi, image_buf, img_size)`: the return value and the buffers afterwards. The
dummy bytes sent are zero. -/
def spiReadImage (st : Statics) (imgSize : UInt32) : CamProg (Int × Statics) := do
  let st := { st with spiTx := st.spiTx.clear spiXferSize }
  Prog.once (Call.spiLock true)
  Prog.once Call.spiSetMode
  Prog.once (Call.spiSetBits 8)
  Prog.once (Call.spiSetFrequency 4000000)
  Prog.once (Call.spiSelect true)
  let st ← spiDiscard st (.ofNat spiSyncBytes)
  printf s!"[CAM][SPI] {spiSyncBytes} sync bytes discarded\n"
  let st ← spiReadBlocks st imgSize 0
  Prog.once (Call.spiSelect false)
  Prog.once (Call.spiLock false)
  pure (0, st)

end CameraPipeline
