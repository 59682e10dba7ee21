import CameraPipeline.Camera.Spi
import CameraPipeline.Camera.Uart

/-!
# The camera task

The marker checks, the push of the metadata and data chunks, and `camera_MSN2_main` itself. The
chunk size of the slicing is a parameter, as `CHUNK_SIZE` is a macro; the task uses it at
`CHUNK_SIZE`.

## Main definitions

* `checkMarkers`: the JPEG header and trailer checks and their messages
* `sliceTotal`, `sliceOff`, `sliceLen`, `sliceChunk`: the slicing of an image into chunks
* `pushPhase`: steps 8 and 9, the metadata chunk and the data chunks
* `beginRun`, `finishRun`: the run up to the metadata string, and from there on
* `cameraMSN2Main`: the entry point
-/

namespace CameraPipeline

open Data Systems

/-! ## The marker checks -/

/-- `image_buf[i]`. -/
def imageByte (image : Buf imgBufSize) (i : UInt32) : CamProg UInt8 := do
  inBounds .imageBuf imgBufSize i.toNat
  pure (image.byte i.toNat)

/-- `hdr_ok`, each comparison made only after the one before it held. -/
def headerOk (image : Buf imgBufSize) : CamProg Bool := do
  if (← imageByte image 0) = 0xFF then
    if (← imageByte image 1) = 0xD8 then
      pure ((← imageByte image 2) == 0xFF)
    else pure false
  else pure false

/-- `trl_ok`, each comparison made only after the one before it held. -/
def trailerOk (image : Buf imgBufSize) (imgSize : UInt32) : CamProg Bool := do
  if 2 ≤ imgSize then
    if (← imageByte image (imgSize - 2)) = 0xFF then
      pure ((← imageByte image (imgSize - 1)) == 0xD9)
    else pure false
  else pure false

/-- The message on the JPEG header. -/
def reportHeader (image : Buf imgBufSize) (ok : Bool) : CamProg Unit := do
  if ok then printf "[CAM] JPEG header OK  : FF D8 FF\n"
  else
    let b0 ← imageByte image 0
    let b1 ← imageByte image 1
    let b2 ← imageByte image 2
    printf s!"[CAM] WARN bad header : {hex02 b0} {hex02 b1} {hex02 b2}\n"

/-- The message on the JPEG trailer; the warning indexes the image again. -/
def reportTrailer (image : Buf imgBufSize) (imgSize : UInt32) (ok : Bool) : CamProg Unit := do
  if ok then printf "[CAM] JPEG trailer OK : FF D9\n"
  else
    let b0 ← imageByte image (imgSize - 2)
    let b1 ← imageByte image (imgSize - 1)
    printf s!"[CAM] WARN bad trailer: {hex02 b0} {hex02 b1}\n"

/-- The marker checks, both evaluated before either message. -/
def checkMarkers (image : Buf imgBufSize) (imgSize : UInt32) : CamProg Unit := do
  let hdrOk ← headerOk image
  let trlOk ← trailerOk image imgSize
  reportHeader image hdrOk
  reportTrailer image imgSize trlOk

/-! ## The chunks -/

/-- The metadata chunk of step 8. -/
def metaChunk (metaBuf : Buf metaBufSize) (metaLen : UInt16) : ImageChunk chunkSize :=
  { data := (Buf.zero chunkSize).blit 0 metaBuf.byte metaLen.toNat
    len := metaLen
    frameId := 1
    isLast := 0
    isMeta := 1 }

section Slicing

variable (C : ℕ)

/-- `total = (img_size + CHUNK_SIZE - 1) / CHUNK_SIZE`. -/
def sliceTotal (imgSize : UInt32) : UInt32 := (imgSize + .ofNat C - 1) / .ofNat C

/-- `off = ci * CHUNK_SIZE`. -/
def sliceOff (ci : UInt32) : UInt32 := ci * .ofNat C

/-- `len = img_size - off`, clamped to `CHUNK_SIZE`. -/
def sliceLen (imgSize ci : UInt32) : UInt32 :=
  let len := imgSize - sliceOff C ci
  if .ofNat C < len then .ofNat C else len

/-- Data chunk `ci` of step 9. -/
def sliceChunk {n : ℕ} (image : Buf n) (imgSize ci : UInt32) : ImageChunk C :=
  { data := (Buf.zero C).blit 0 (fun k => image.byte ((sliceOff C ci).toNat + k))
      (sliceLen C imgSize ci).toNat
    len := (sliceLen C imgSize ci).toUInt16
    frameId := 1
    isLast := if ci = sliceTotal C imgSize - 1 then 1 else 0
    isMeta := 0 }

end Slicing

/-- `rb_push`: `rb_write` until it succeeds. -/
def rbPush (c : ImageChunk chunkSize) : CamProg Unit := do
  let _ ← Prog.poll (Call.rbWrite c) (fun r => r != 0)
  pure ()

/-- Step 8: the metadata chunk, filled by a `memcpy` of `meta_len` bytes. -/
def pushMetaChunk (metaBuf : Buf metaBufSize) (metaLen : UInt16) : CamProg Unit := do
  inRange .metaBuf metaBufSize 0 metaLen.toNat
  inRange .chunkData chunkSize 0 metaLen.toNat
  rbPush (metaChunk metaBuf metaLen)
  printf "[CAM] meta chunk pushed\n"

/-- The body of the slicing loop: the chunk is filled by a `memcpy` of `len` bytes at `off`. -/
def pushDataChunk (image : Buf imgBufSize) (imgSize ci : UInt32) : CamProg Unit := do
  inRange .imageBuf imgBufSize (sliceOff chunkSize ci).toNat (sliceLen chunkSize imgSize ci).toNat
  inRange .chunkData chunkSize 0 (sliceLen chunkSize imgSize ci).toNat
  rbPush (sliceChunk chunkSize image imgSize ci)

/-- The slicing loop from `ci` on, with `k` chunks left. -/
def pushDataFrom (image : Buf imgBufSize) (imgSize : UInt32) : ℕ → UInt32 → CamProg Unit
  | 0, _ => pure ()
  | k + 1, ci => do
    pushDataChunk image imgSize ci
    pushDataFrom image imgSize k (ci + 1)

/-- Step 9: the data chunks. -/
def pushDataChunks (image : Buf imgBufSize) (imgSize : UInt32) : CamProg Unit := do
  let total := sliceTotal chunkSize imgSize
  printf s!"[CAM] pushing {total.toNat} JPEG chunks...\n"
  pushDataFrom image imgSize total.toNat 0
  printf s!"[CAM] all {total.toNat} chunks pushed — DONE\n"

/-- Steps 8 and 9, and the end of the run. -/
def pushPhase (st : Statics) (hdr : Header) : CamProg Int := do
  pushMetaChunk st.metaBuf hdr.metaLen
  pushDataChunks st.imageBuf hdr.imgSize
  closeUart
  pure 0

/-! ## The entry point -/

/-- Step 6 and the transfer of step 7: the image over SPI, after a `memset` of its place in
`image_buf`. Nobody looks at what `spi_read_image` returns. -/
def fetchImage (st : Statics) (imgSize : UInt32) : CamProg Statics := do
  printf s!"[CAM] waiting {spiCsDelayUs / 1000} ms before SPI CS...\n"
  printf s!"[CAM][SPI] reading {imgSize.toNat} JPEG bytes (+ {spiSyncBytes} sync discarded)...\n"
  inRange .imageBuf imgBufSize 0 imgSize.toNat
  let (_, st) ← spiReadImage { st with imageBuf := st.imageBuf.clear imgSize.toNat } imgSize
  pure st

/-- The run up to the metadata string: the header, or `none` when the run returned `-1`. -/
def beginRun (metaBuf : Buf metaBufSize) : CamProg (Option Header × Buf metaBufSize) := do
  printf "\n================ CAMERA START ================\n"
  Prog.once Call.rbInit
  match ← (Prog.once Call.openUart : CamProg (Option String)) with
  | some error =>
    printf s!"[CAM] UART open failed: {error}\n"
    pure (none, metaBuf)
  | none =>
    uartConfigure
    requestImage metaBuf

/-- The run from the metadata string on. -/
def finishRun (st : Statics) (hdr : Header) : CamProg (Int × Statics) := do
  let st ← fetchImage st hdr.imgSize
  checkMarkers st.imageBuf hdr.imgSize
  let ret ← pushPhase st hdr
  pure (ret, st)

/-- The rest of the run, from the result of its beginning. -/
def continueRun (st : Statics) : Option Header × Buf metaBufSize → CamProg (Int × Statics)
  | (none, metaBuf) => pure (-1, { st with metaBuf := metaBuf })
  | (some hdr, metaBuf) => finishRun { st with metaBuf := metaBuf } hdr

/-- `camera_MSN2_main`: the return value, and the static buffers it leaves. -/
def cameraMSN2Main (st : Statics) : CamProg (Int × Statics) := do
  continueRun st (← beginRun st.metaBuf)

end CameraPipeline
