import CameraPipeline.Camera.Calls
import CameraPipeline.Data.LittleEndian

/-!
# The UART side of the camera

`camera_MSN2.c` up to the end of the metadata read: the byte-wise reads with their poll budgets,
the handshake, and the decoding of the reply to `CMD_CAPTURE`. Every exit of the reply's decoding
closes the UART and gives up the run.

## Main definitions

* `uartReadByte`, `uartReadExact`, `uartFlush`, `uartHandshake`: the helpers
* `receiveReply`: steps 2 to 5 of the capture, from the acknowledgement to the metadata string
* `requestImage`: from the first `uart_flush` to the end of the metadata read
-/

namespace CameraPipeline

open Data Systems

/-- `uart_write_byte`. -/
def uartWriteByte (v : UInt8) : CamProg Unit := Prog.once (Call.write v)

/-- `uart_read_byte` with `retries` polls: the byte, or `none` for `-1`. -/
def uartReadByte : ℕ → CamProg (Option UInt8)
  | 0 => pure none
  | t + 1 => do
    match ← uartRead with
    | some v => pure (some v)
    | none => uartReadByte t

/-- The loop of `uart_read_exact` at index `i`, with `k` bytes still to read. -/
def uartReadFrom {n : ℕ} (array : ArrayName) (len retries : ℕ) :
    ℕ → ℕ → Buf n → CamProg (Int × Buf n)
  | 0, _, buf => pure (0, buf)
  | k + 1, i, buf => do
    inBounds array n i
    match ← uartReadByte retries with
    | some v => uartReadFrom array len retries k (i + 1) (buf.store i v)
    | none =>
      printf s!"[CAM] uart_read_exact timeout at byte {i}/{len}\n"
      pure (-1, buf)

/-- `uart_read_exact`: the return value and the buffer afterwards. -/
def uartReadExact {n : ℕ} (array : ArrayName) (buf : Buf n) (len retries : ℕ) :
    CamProg (Int × Buf n) :=
  uartReadFrom array len retries len 0 buf

/-- `uart_flush`: read until nothing comes, then drop what the driver holds. -/
def uartFlush : CamProg Unit := do
  let _ ← Prog.poll Call.read Option.isSome
  Prog.once Call.tcflush

/-- `uart_configure`. -/
def uartConfigure : CamProg Unit := do
  Prog.once Call.tcsetattr
  printf "[CAM][UART] 115200 8N1 non-blocking\n"

/-- The polls of one handshake attempt; `true` when the acknowledgement came. Any other byte counts
as a poll without an answer. -/
def handshakePoll : ℕ → CamProg Bool
  | 0 => pure false
  | p + 1 => do
    if (← uartReadByte 1) = some ackByte then
      uartFlush
      printf "[CAM][UART] HANDSHAKE OK\n"
      pure true
    else handshakePoll p

/-- The attempts of the handshake from number `attempt` on, with `k` left. -/
def handshakeFrom : ℕ → ℕ → CamProg Int
  | 0, _ => do
    printf "[CAM][UART] HANDSHAKE FAILED\n"
    pure (-1)
  | k + 1, attempt => do
    uartFlush
    uartWriteByte cmdHandshake
    printf s!"[CAM] TX handshake attempt {attempt + 1}\n"
    if ← handshakePoll handshakePolls then pure 0 else handshakeFrom k (attempt + 1)

/-- `uart_handshake`. -/
def uartHandshake : CamProg Int := do
  printf "[CAM][UART] handshake start\n"
  handshakeFrom handshakeTries 0

/-- The header fields the camera goes on to the SPI phase with. -/
structure Header where
  imgSize : UInt32
  metaLen : UInt16

/-- `printf("%s", meta_buf)`: the bytes up to the first zero, which must lie in the array. -/
def printMeta (metaBuf : Buf metaBufSize) : CamProg Unit := do
  let bytes := (metaBuf.slice 0 metaBufSize).takeWhile (· ≠ 0)
  inBounds .metaBuf metaBufSize bytes.length
  let text := String.ofList (bytes.map fun b => Char.ofNat b.toNat)
  printf s!"[CAM] meta      = \"{text}\"\n"

/-- Step 5: the metadata string, read into `meta_buf` after a `memset` of all of it. -/
def receiveMeta (hdr : Header) (metaBuf : Buf metaBufSize) :
    CamProg (Option Header × Buf metaBufSize) := do
  let metaBuf := metaBuf.clear metaBufSize
  let (ret, metaBuf) ← uartReadExact .metaBuf metaBuf hdr.metaLen.toNat sizePolls
  if ret < 0 then
    printf "[CAM] meta read failed\n"
    closeUart
    pure (none, metaBuf)
  else
    printMeta metaBuf
    pure (some hdr, metaBuf)

/-- Step 4: the metadata length, two bytes little-endian. -/
def receiveMetaLen (imgSize : UInt32) (metaBuf : Buf metaBufSize) :
    CamProg (Option Header × Buf metaBufSize) := do
  let (ret, ml) ← uartReadExact .ml (Buf.zero 2) 2 sizePolls
  if ret < 0 then
    printf "[CAM] meta length read failed\n"
    closeUart
    pure (none, metaBuf)
  else
    let metaLen := le16 (ml.byte 0) (ml.byte 1)
    printf s!"[CAM] meta len  = {metaLen.toNat} B\n"
    if metaLen = 0 ∨ metaBufSize ≤ metaLen.toNat then
      printf s!"[CAM] meta length invalid ({metaLen.toNat}) — abort\n"
      closeUart
      pure (none, metaBuf)
    else receiveMeta ⟨imgSize, metaLen⟩ metaBuf

/-- Step 3: the JPEG size, four bytes little-endian. -/
def receiveSize (metaBuf : Buf metaBufSize) : CamProg (Option Header × Buf metaBufSize) := do
  let (ret, sz) ← uartReadExact .sz (Buf.zero 4) 4 sizePolls
  if ret < 0 then
    printf "[CAM] JPEG size read failed\n"
    closeUart
    pure (none, metaBuf)
  else
    let imgSize := le32 (sz.byte 0) (sz.byte 1) (sz.byte 2) (sz.byte 3)
    printf s!"[CAM] JPEG size = {imgSize.toNat} B\n"
    if imgSize = 0 ∨ imgBufSize < imgSize.toNat then
      printf "[CAM] Bad JPEG size — abort\n"
      closeUart
      pure (none, metaBuf)
    else receiveMetaLen imgSize metaBuf

/-- Step 2, the acknowledgement, and the steps after it. The message shows the local `ack`, which is
zero when no byte came. -/
def receiveReply (metaBuf : Buf metaBufSize) : CamProg (Option Header × Buf metaBufSize) := do
  let ack ← uartReadByte ackPolls
  if ack = some ackByte then
    printf "[CAM] ACK OK\n"
    receiveSize metaBuf
  else
    printf s!"[CAM] ACK failed (got 0x{hex02 (ack.getD 0)})\n"
    closeUart
    pure (none, metaBuf)

/-- From the first `uart_flush` of `camera_MSN2_main` to the end of the metadata read: the header,
or `none` when the run returned `-1`, and `meta_buf` afterwards. The flush before `CMD_CAPTURE`
drops what has arrived by then. -/
def requestImage (metaBuf : Buf metaBufSize) : CamProg (Option Header × Buf metaBufSize) := do
  uartFlush
  if ← Prog.once Call.spibusInitialize then
    printf "[CAM] SPI3 ready\n"
    if (← uartHandshake) < 0 then
      closeUart
      pure (none, metaBuf)
    else
      printf "\n========== CAPTURE START ==========\n"
      uartFlush
      uartWriteByte cmdCapture
      printf "[CAM] CMD_CAPTURE sent — waiting ACK...\n"
      receiveReply metaBuf
  else
    printf "[CAM] SPI init failed\n"
    closeUart
    pure (none, metaBuf)

end CameraPipeline
