import CameraPipeline.RingBuffer.Basic
import CameraPipeline.Systems.Program
import CameraPipeline.Data.Hex

/-!
# What the camera task calls

The calls of `camera_MSN2.c` to the console, the UART, the SPI bus and the ring buffer, and the
array accesses it makes between them. The camera is an interaction program over these calls: an
index outside its array is a fault, and stops the program there. `usleep` only passes time, which
every schedule may do between two calls, and is left out.

## Main definitions

* `Call`, `Call.Resp`: the calls and their responses
* `CamProg`: programs over these calls
* `Statics`: the static buffers, which outlive a run
* `inBounds`, `inRange`: the check of one index, and of a run of indices
-/

namespace CameraPipeline

open Data Systems

/-- `CMD_HANDSHAKE`. -/
def cmdHandshake : UInt8 := 0x01

/-- `CMD_CAPTURE`. -/
def cmdCapture : UInt8 := 0x02

/-- `ACK_BYTE`. -/
def ackByte : UInt8 := 0xAA

/-- `IMG_BUF_SIZE`. -/
abbrev imgBufSize : ℕ := 40000

/-- `SPI_XFER_SIZE`. -/
abbrev spiXferSize : ℕ := chunkSize

/-- `SPI_SYNC_BYTES`. -/
abbrev spiSyncBytes : ℕ := 1024

/-- `META_BUF_SIZE`. -/
abbrev metaBufSize : ℕ := 128

/-- `HANDSHAKE_TRIES`. -/
def handshakeTries : ℕ := 5

/-- `HANDSHAKE_POLLS`. -/
def handshakePolls : ℕ := 50

/-- `ACK_POLLS`. -/
def ackPolls : ℕ := 300

/-- `SIZE_POLLS`. -/
def sizePolls : ℕ := 50

/-- `SPI_CS_DELAY_US`. -/
def spiCsDelayUs : ℕ := 25000

/-- The calls the camera makes. -/
inductive Call
  | printf (text : String)
  | rbInit
  | rbWrite (c : ImageChunk chunkSize)
  | openUart
  | tcsetattr
  | read
  | write (v : UInt8)
  | tcflush
  | close
  | spibusInitialize
  | spiLock (lock : Bool)
  | spiSetMode
  | spiSetBits (bits : ℕ)
  | spiSetFrequency (hz : ℕ)
  | spiSelect (selected : Bool)
  | spiExchange (tx : List UInt8) (k : ℕ)

/-- The response of a call: the value `rb_write` returns, the error text when `open` fails, the
byte a non-blocking `read` gives if there is one, whether the bus came up, and the bytes shifted
in by an exchange. -/
@[reducible] def Call.Resp : Call → Type
  | .rbWrite _ => Int
  | .openUart => Option String
  | .read => Option UInt8
  | .spibusInitialize => Bool
  | .spiExchange _ k => Buf k
  | _ => Unit

/-- The arrays the camera indexes. -/
inductive ArrayName
  | imageBuf
  | metaBuf
  | spiRx
  | spiTx
  | chunkData
  | sz
  | ml

/-- An access outside an array: the array and the index. -/
structure Fault where
  array : ArrayName
  index : ℕ

/-- Programs of the camera task. -/
abbrev CamProg := Prog Call.Resp Fault

/-- The static buffers of `camera_MSN2.c`, which keep their contents between runs. -/
structure Statics where
  imageBuf : Buf imgBufSize
  spiRx : Buf spiXferSize
  spiTx : Buf spiXferSize
  metaBuf : Buf metaBufSize

/-- The static buffers at boot. -/
def Statics.zero : Statics := ⟨Buf.zero _, Buf.zero _, Buf.zero _, Buf.zero _⟩

/-- The static buffers at boot, but for the markers of a JPEG of `n` bytes in `image_buf`. -/
def Statics.jpeg (n : ℕ) : Statics :=
  { Statics.zero with
    imageBuf := (((((Buf.zero _).store 0 0xFF).store 1 0xD8).store 2 0xFF).store (n - 2) 0xFF).store
      (n - 1) 0xD9 }

/-- `printf`, the text already formatted. -/
def printf (text : String) : CamProg Unit := Prog.once (Call.printf text)

/-- `read(fd, &v, 1)`. -/
def uartRead : CamProg (Option UInt8) := Prog.once Call.read

/-- `close(uart_fd)`. -/
def closeUart : CamProg Unit := Prog.once Call.close

/-- `"%02X"`. -/
def hex02 (v : UInt8) : String := String.ofList (hexByte v)

/-- The check of one index of an array of `size` elements. -/
def inBounds (array : ArrayName) (size i : ℕ) : CamProg Unit :=
  if i < size then pure () else .fault ⟨array, i⟩

/-- The check of the indices `off`, …, `off + len - 1`; it faults at the first one outside. -/
def inRange (array : ArrayName) (size off len : ℕ) : CamProg Unit :=
  if off + len ≤ size then pure () else .fault ⟨array, max off size⟩

theorem inBounds_of_lt {array : ArrayName} {size i : ℕ} (h : i < size) :
    inBounds array size i = .ret () := if_pos h

theorem inRange_of_le {array : ArrayName} {size off len : ℕ} (h : off + len ≤ size) :
    inRange array size off len = .ret () := if_pos h

end CameraPipeline
