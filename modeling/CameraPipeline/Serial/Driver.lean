import CameraPipeline.Data.SlotRing
import CameraPipeline.Lock.Guard
import CameraPipeline.Systems.Atomic

/-!
# The transmit half of the serial driver

`uart_writev`, `uart_tcdrain` and the output half of `TCFLSH` as any number of tasks call them, with
`uart_xmitchars` as the transmit interrupt runs it, for the board's configuration: one CPU, no DMA,
no flow control, no removable device. A task may be preempted, and the interrupt may come, between
any two accesses of the device; what the driver does with interrupts disabled is one action, unless
it makes a task of a higher priority ready, which then runs at once. The program counter of a call
holds its local variables. A signal may end a wait for `xmitsem`, and a pending one ends a call of
`nxmutex_lock` before it waits. No task exits inside a call, and the priorities are fixed.

`uart_readv` echoes a character of the console with `uart_putxmitchar` as well, without taking
`xmit.lock`; that caller is part of the model too.

## Main definitions

* `UartBuffer N`, `UartTx τ N`: `struct uart_buffer_s`, and the transmit half of `uart_dev_t`
* `uartWakeup`, `uartDatasent`, `uartXmitchars`: what the interrupt does
* `postUntilSwitch`, `tcoflush`: what `TCOFLUSH` does, up to the first switch to another task
* `PutPc`, `uartPutxmitchar`: the actions of `uart_putxmitchar`
* `TxPc`, `stepTx`: the actions of the calls
* `Tty`, `tty`: the tasks, the lock, the device and the interrupt, as a labelled automaton
-/

namespace CameraPipeline

open Data Systems

/-! ## Flags, errors and characters -/

/-- `OPOST`: post-process output. -/
def opost : UInt32 := 0x01

/-- `ONLCR`: map NL to CR-NL on output. -/
def onlcr : UInt32 := 0x04

/-- `OCRNL`: map CR to NL on output. -/
def ocrnl : UInt32 := 0x08

/-- `ONLRET`: NL performs the CR function. -/
def onlret : UInt32 := 0x20

/-- `EINTR`. -/
def eintr : Int := 4

/-- `EAGAIN`. -/
def eagain : Int := 11

/-- `ETIMEDOUT`. -/
def etimedout : Int := 110

/-- The character `'\n'`. -/
def newline : UInt8 := 10

/-- The character `'\r'`. -/
def carriageReturn : UInt8 := 13

/-! ## The device -/

/-- `struct uart_buffer_s` without its lock; `N` is its `size`. -/
structure UartBuffer (N : ℕ) where
  head : Fin N
  tail : Fin N
  buffer : Fin N → UInt8

/-- The transmit half of `uart_dev_t`, and of the USART behind it. -/
structure UartTx (τ : Type) (N : ℕ) where
  xmit : UartBuffer N
  xmitsem : Sem τ
  /-- `USART_CR1_TXEIE` -/
  txint : Bool
  /-- what was written to the data register so far -/
  wire : List UInt8

section Device

variable {τ : Type} {N : ℕ} [NeZero N]

/-- The index after `i`, back at 0 when it reaches `size`. -/
def nextIndex (i : Fin N) : Fin N := if h : i.val + 1 < N then ⟨i.val + 1, h⟩ else 0

@[simp] theorem nextIndex_eq (i : Fin N) : nextIndex i = i + 1 := by
  apply Fin.ext
  rw [nextIndex, Fin.val_add, Fin.val_one', Nat.add_mod_mod]
  split
  · rename_i h
    exact (Nat.mod_eq_of_lt h).symm
  · rename_i h
    have he : i.val + 1 = N := by have := i.isLt; omega
    rw [he, Nat.mod_self]
    rfl

/-- What waits in the buffer, oldest first. -/
def UartBuffer.held (b : UartBuffer N) : List UInt8 := Data.held b.buffer b.tail b.head

/-- The device after `uart_register`. -/
def UartTx.init : UartTx τ N := ⟨⟨0, 0, fun _ => 0⟩, ⟨0, 0, []⟩, false, []⟩

/-- `uart_enabletxint` and `uart_disabletxint`: `up_txint`. -/
def UartTx.setTxint (dev : UartTx τ N) (enable : Bool) : UartTx τ N :=
  { dev with txint := enable }

/-- `n` calls of `nxsem_post` in an interrupt handler, and the tasks they make ready. No task runs
meanwhile. -/
def postTimes (pid : τ → UInt32) (sem : Sem τ) : ℕ → Sem τ × List τ
  | 0 => (sem, [])
  | n + 1 =>
    let posted := nxsemPostAlone pid sem
    let rest := postTimes pid posted.1 n
    (rest.1, posted.2.toList ++ rest.2)

/-- How often `uart_wakeup` calls `nxsem_post`: as long as the value it has read is below 1. -/
def wakeupPosts (sem : Sem τ) : ℕ := (1 - semcount sem.val).toNat

/-- `uart_wakeup` in an interrupt handler. -/
def uartWakeup (pid : τ → UInt32) (sem : Sem τ) : Sem τ × List τ :=
  postTimes pid sem (wakeupPosts sem)

/-- `uart_datasent` in an interrupt handler, and the tasks it makes ready. -/
def uartDatasent (pid : τ → UInt32) (dev : UartTx τ N) : UartTx τ N × List τ :=
  let woken := uartWakeup pid dev.xmitsem
  ({ dev with xmitsem := woken.1 }, woken.2)

/-- The loop of `uart_xmitchars`, with `uart_txready` true `ready` times: the buffer, and the
bytes sent. -/
def xmitLoop (xmit : UartBuffer N) : ℕ → UartBuffer N × List UInt8
  | 0 => (xmit, [])
  | ready + 1 =>
    if xmit.head = xmit.tail then (xmit, [])
    else
      let rest := xmitLoop { xmit with tail := nextIndex xmit.tail } ready
      (rest.1, xmit.buffer xmit.tail :: rest.2)

/-- `uart_xmitchars`, and the tasks it makes ready. -/
def uartXmitchars (pid : τ → UInt32) (dev : UartTx τ N) (ready : ℕ) : UartTx τ N × List τ :=
  let loop := xmitLoop dev.xmit ready
  let nbytes := UInt16.ofNat loop.2.length
  let dev := { dev with xmit := loop.1, wire := dev.wire ++ loop.2 }
  let dev := if dev.xmit.head = dev.xmit.tail then dev.setTxint false else dev
  if nbytes ≠ 0 then uartDatasent pid dev else (dev, [])

/-- `n` calls of `nxsem_post` by the task `me`, up to the first one that makes a task of a higher
priority ready: the semaphore, the tasks made ready, and, when such a task runs now, the calls that
are left. -/
def postUntilSwitch (ids : Pids τ) (me : τ) (sem : Sem τ) : ℕ → Sem τ × List τ × Option ℕ
  | 0 => (sem, [], none)
  | n + 1 =>
    let posted := nxsemPostAlone ids.pid sem
    if posted.2.any fun t => ids.prio me < ids.prio t then (posted.1, posted.2.toList, some n)
    else
      let rest := postUntilSwitch ids me posted.1 n
      (rest.1, posted.2.toList ++ rest.2.1, rest.2.2)

/-- The critical section of `TCFLSH` with `TCOFLUSH`, called by the task `me`: up to its end, or up
to the first switch to another task. -/
def tcoflush (ids : Pids τ) (me : τ) (dev : UartTx τ N) : UartTx τ N × List τ × Option ℕ :=
  let woken := postUntilSwitch ids me dev.xmitsem (wakeupPosts dev.xmitsem)
  ({ dev with xmit := { dev.xmit with tail := dev.xmit.head }, xmitsem := woken.1 }, woken.2)

end Device

/-! ## One character -/

/-- Where a call of `uart_putxmitchar` is. -/
inductive PutPc (N : ℕ)
  /-- at the load of `xmit.head` -/
  | top
  /-- at the test whether the buffer is full -/
  | test (nexthead : Fin N)
  /-- at the store to the buffer -/
  | fill (nexthead : Fin N)
  /-- at the store to `xmit.head` -/
  | publish (nexthead : Fin N)
  /-- before the critical section -/
  | full (nexthead : Fin N)
  /-- in `nxsem_wait` -/
  | asleep
  /-- `nxsem_wait` has returned -/
  | woken (ret : Int)
  | done (ret : Int)
  deriving DecidableEq

/-- `nxsem_wait` is over for a task that is asleep, and returns `ret`. -/
def PutPc.wake (ret : Int) {N : ℕ} : PutPc N → PutPc N
  | .asleep => .woken ret
  | p => p

/-- What the call returns, once it does. -/
def PutPc.result {N : ℕ} : PutPc N → Option Int
  | .done ret => some ret
  | _ => none

section Put

variable {τ : Type} {N : ℕ} [NeZero N] (ids : Tasks τ) (me : τ) (ch : UInt8) (oktoblock : Bool)

/-- `uart_enabletxint`, `nxsem_wait(&dev->xmitsem)`, and, when the wait does not block,
`uart_disabletxint`; interrupts are off. Whether the task is asleep then. -/
def waitSent (dev : UartTx τ N) : UartTx τ N × Bool :=
  let waited := nxsemWaitSlow ids.getTcb (ids.pid me) ids.prio me dev.xmitsem false
  match waited.2 with
  | none => ({ dev with xmitsem := waited.1, txint := false }, false)
  | some _ => ({ dev with xmitsem := waited.1, txint := true }, true)

/-- One action of `uart_putxmitchar`. There is none while the task is asleep. The buffer is tested
again inside the critical section, as it may have been emptied since. -/
def uartPutxmitchar (dev : UartTx τ N) : PutPc N → Option (UartTx τ N × PutPc N)
  | .top => some (dev, .test (nextIndex dev.xmit.head))
  | .test nexthead =>
    if nexthead ≠ dev.xmit.tail then some (dev, .fill nexthead)
    else if oktoblock then some (dev, .full nexthead)
    else some (dev, .done (-eagain))
  | .fill nexthead =>
    let buffer := Function.update dev.xmit.buffer dev.xmit.head ch
    some ({ dev with xmit := { dev.xmit with buffer := buffer } }, .publish nexthead)
  | .publish nexthead => some ({ dev with xmit := { dev.xmit with head := nexthead } }, .done 0)
  | .full nexthead =>
    if nexthead ≠ dev.xmit.tail then some (dev, .top)
    else
      let waited := waitSent ids me dev
      some (waited.1, if waited.2 then .asleep else .top)
  | .asleep | .done _ => none
  | .woken ret => some (dev.setTxint false, if ret < 0 then .done (-eintr) else .top)

end Put

/-! ## The calls -/

/-- The arguments of `uart_writev`. -/
structure Write where
  data : List UInt8
  oktoblock : Bool
  deriving DecidableEq

/-- What a task asks of the device. -/
inductive TxOp
  | write (w : Write)
  /-- `TCDRN`, and the drain of `uart_close` -/
  | drain
  /-- `TCFLSH` with `TCOFLUSH` -/
  | flush
  /-- the characters with which `uart_readv` echoes one -/
  | echo (chs : List UInt8)
  deriving DecidableEq

/-- Where a task is with its call. -/
inductive TxPc (N : ℕ)
  | idle
  | entered (op : TxOp)
  /-- in `nxmutex_lock` -/
  | locking (op : TxOp)
  /-- at the first `uart_disabletxint` of `uart_writev` -/
  | begun (w : Write)
  /-- at the loop test of `uart_writev`, with `left` to copy -/
  | loop (w : Write) (left : List UInt8)
  /-- in `uart_putxmitchar` for the `'\r'` before `ch` -/
  | putCr (w : Write) (left : List UInt8) (ch : UInt8) (p : PutPc N)
  /-- in `uart_putxmitchar` for `ch` -/
  | putCh (w : Write) (left : List UInt8) (ch : UInt8) (p : PutPc N)
  /-- behind the loop of `uart_writev` -/
  | closing (w : Write) (ret : Int)
  /-- at the loop test of `uart_tcdrain` -/
  | draining
  /-- in the `nxsem_wait` of `uart_tcdrain` -/
  | drainAsleep
  /-- that `nxsem_wait` has returned -/
  | drainWoken (ret : Int)
  /-- in the busy wait of `uart_tcdrain` -/
  | polling
  /-- in the `uart_wakeup` of `TCOFLUSH`, with `left` calls of `nxsem_post` to go -/
  | flushing (left : ℕ)
  /-- in the `uart_putxmitchar` of `uart_readv` for the first of `chs` -/
  | echoing (chs : List UInt8) (p : PutPc N)
  /-- in `nxmutex_unlock` -/
  | unlocking (op : TxOp) (ret : Int)
  | returning (op : TxOp) (ret : Int)

/-- `nxsem_wait` is over for a task that is asleep, and returns `ret`. -/
def TxPc.wake (ret : Int) {N : ℕ} : TxPc N → TxPc N
  | .putCr w left ch p => .putCr w left ch (p.wake ret)
  | .putCh w left ch p => .putCh w left ch (p.wake ret)
  | .echoing chs p => .echoing chs (p.wake ret)
  | .drainAsleep => .drainWoken ret
  | pc => pc

/-- The task is in `nxsem_wait(&dev->xmitsem)`. -/
def TxPc.asleep {N : ℕ} : TxPc N → Bool
  | .putCr _ _ _ .asleep | .putCh _ _ _ .asleep | .echoing _ .asleep | .drainAsleep => true
  | _ => false

/-- What the call returns, once that is fixed. -/
def TxPc.result {N : ℕ} : TxPc N → Option (TxOp × Int)
  | .closing w ret => some (.write w, ret)
  | .unlocking op ret | .returning op ret => some (op, ret)
  | _ => none

/-- The device, `xmit.lock`, and where every task is with its call. -/
structure Tty (τ : Type) (N : ℕ) where
  guard : Guard τ
  dev : UartTx τ N
  pc : τ → TxPc N

/-- The steps of the system. -/
inductive TtyLabel (τ : Type)
  | call (t : τ) (op : TxOp)
  /-- the call of a task does its next action -/
  | step (t : τ)
  /-- a turn of the busy wait of `uart_tcdrain`: what `uart_txempty` answers, and whether the
  timeout has elapsed -/
  | poll (t : τ) (txempty elapsed : Bool)
  | ret (t : τ)
  /-- the transmit interrupt, which needs `USART_CR1_TXEIE` set, with `uart_txready` true `ready`
  times -/
  | interrupt (ready : ℕ)
  /-- a signal for a task that waits for `xmitsem`, or that is about to wait for `xmit.lock` -/
  | signal (t : τ)

section System

variable {τ : Type} {N : ℕ} [NeZero N] [DecidableEq τ]

omit [NeZero N] in
/-- Task `t` goes on at `pc`. -/
def Tty.goto (s : Tty τ N) (t : τ) (pc : TxPc N) : Tty τ N :=
  { s with pc := Function.update s.pc t pc }

omit [NeZero N] in
@[simp] theorem Tty.pc_goto_self (s : Tty τ N) (t : τ) (pc : TxPc N) : (s.goto t pc).pc t = pc :=
  Function.update_self _ _ _

omit [NeZero N] in
theorem Tty.pc_goto_of_ne (s : Tty τ N) {t u : τ} (pc : TxPc N) (h : u ≠ t) :
    (s.goto t pc).pc u = s.pc u :=
  Function.update_of_ne h _ _

omit [NeZero N] in
/-- The device changes, and the tasks `woken` are made ready. -/
def Tty.sent (s : Tty τ N) (r : UartTx τ N × List τ) : Tty τ N :=
  { s with dev := r.1, pc := fun t => if t ∈ r.2 then (s.pc t).wake 0 else s.pc t }

omit [DecidableEq τ] in
/-- The device after `uart_register`, and no task in a call. -/
def Tty.init : Tty τ N := ⟨Guard.init, UartTx.init, fun _ => .idle⟩

variable (tcOflag : UInt32) (ids : Tasks τ)

/-- What `uart_writev` makes of a character: `OCRNL`. -/
def outputChar (ch : UInt8) : UInt8 :=
  if tcOflag &&& opost ≠ 0 ∧ ch = carriageReturn ∧ tcOflag &&& ocrnl ≠ 0 then newline else ch

/-- Whether `uart_writev` puts a `'\r'` before a character: `ONLCR` and `ONLRET`. -/
def wantsCr (ch : UInt8) : Bool :=
  tcOflag &&& opost != 0 && ch == newline && tcOflag &&& (onlcr ||| onlret) != 0

/-- What `uart_writev` returns when `uart_putxmitchar` fails with `left` not yet written. -/
def shortWrite (w : Write) (left : List UInt8) (ret : Int) : Int :=
  if left.length < w.data.length then w.data.length - left.length else ret

/-- One action of the call that task `t` is in. -/
def stepTx (s : Tty τ N) (t : τ) : Option (Tty τ N) :=
  match s.pc t with
  | .idle | .returning _ _ | .polling | .drainAsleep => none
  | .entered op =>
    match op with
    | .write _ | .drain => some { s.goto t (.locking op) with guard := s.guard.lock t }
    | .flush =>
      let r := tcoflush ids.toPids t s.dev
      some ((s.sent (r.1, r.2.1)).goto t (r.2.2.elim (.returning op 0) .flushing))
    | .echo chs => some (s.goto t (.echoing chs .top))
  | .locking op =>
    if (s.guard.pc t).phase = .inside then
      match op with
      | .write w => some (s.goto t (.begun w))
      | _ => some (s.goto t .draining)
    else (s.guard.step ids.toPids ids.getTcb t).map fun g => { s with guard := g }
  | .begun w => some { s.goto t (.loop w w.data) with dev := s.dev.setTxint false }
  | .loop w left =>
    match left with
    | [] => some (s.goto t (.closing w w.data.length))
    | c :: _ =>
      let ch := outputChar tcOflag c
      if wantsCr tcOflag ch then some (s.goto t (.putCr w left ch .top))
      else some (s.goto t (.putCh w left ch .top))
  | .putCr w left ch p =>
    match p.result with
    | none =>
      (uartPutxmitchar ids t carriageReturn w.oktoblock s.dev p).map fun r =>
        { s.goto t (.putCr w left ch r.2) with dev := r.1 }
    | some ret =>
      if ret < 0 then some (s.goto t (.closing w (shortWrite w left ret)))
      else some (s.goto t (.putCh w left ch .top))
  | .putCh w left ch p =>
    match p.result with
    | none =>
      (uartPutxmitchar ids t ch w.oktoblock s.dev p).map fun r =>
        { s.goto t (.putCh w left ch r.2) with dev := r.1 }
    | some ret =>
      if ret < 0 then some (s.goto t (.closing w (shortWrite w left ret)))
      else some (s.goto t (.loop w left.tail))
  | .closing w ret =>
    let dev := if s.dev.xmit.head ≠ s.dev.xmit.tail then s.dev.setTxint true else s.dev
    some { s.goto t (.unlocking (.write w) ret) with dev := dev, guard := s.guard.unlock t }
  | .draining =>
    if s.dev.xmit.head = s.dev.xmit.tail then some (s.goto t .polling)
    else
      let waited := waitSent ids t s.dev
      some { s.goto t (if waited.2 then .drainAsleep else .draining) with dev := waited.1 }
  | .drainWoken ret =>
    let s := { s with dev := s.dev.setTxint false }
    if ret < 0 then some { s.goto t (.unlocking .drain ret) with guard := s.guard.unlock t }
    else some (s.goto t .draining)
  | .flushing left =>
    let r := postUntilSwitch ids.toPids t s.dev.xmitsem left
    some ((s.sent ({ s.dev with xmitsem := r.1 }, r.2.1)).goto t
      (r.2.2.elim (.returning .flush 0) .flushing))
  | .echoing chs p =>
    match chs, p.result with
    | [], _ => some { s.goto t (.returning (.echo chs) 0) with dev := s.dev.setTxint true }
    | ch :: _, none =>
      (uartPutxmitchar ids t ch true s.dev p).map fun r =>
        { s.goto t (.echoing chs r.2) with dev := r.1 }
    | _ :: rest, some _ => some (s.goto t (.echoing rest .top))
  | .unlocking op ret =>
    if (s.guard.pc t).phase = .out then some (s.goto t (.returning op ret))
    else (s.guard.step ids.toPids ids.getTcb t).map fun g => { s with guard := g }

/-- **The system**: any number of tasks call the driver, in any order, and each is preempted and
interrupted between any two actions. -/
def tty (s : Tty τ N) : TtyLabel τ → Option (Tty τ N)
  | .call t op =>
    match s.pc t with
    | .idle => some (s.goto t (.entered op))
    | _ => none
  | .step t => stepTx tcOflag ids s t
  | .poll t txempty elapsed =>
    match s.pc t with
    | .polling =>
      if txempty then some { s.goto t (.unlocking .drain 0) with guard := s.guard.unlock t }
      else if elapsed then
        some { s.goto t (.unlocking .drain (-etimedout)) with guard := s.guard.unlock t }
      else some s
    | _ => none
  | .ret t =>
    match s.pc t with
    | .returning _ _ => some (s.goto t .idle)
    | _ => none
  | .interrupt ready =>
    if s.dev.txint then some (s.sent (uartXmitchars ids.pid s.dev ready)) else none
  | .signal t =>
    if (s.pc t).asleep then
      some { s.goto t ((s.pc t).wake (-eintr)) with
        dev := { s.dev with xmitsem := nxsemWaitIrq s.dev.xmitsem t } }
    else
      match s.pc t, s.guard.pc t with
      | .locking op, .locking (.enter _) =>
        some { s.goto t (.returning op (-eintr)) with guard := s.guard.goto t .out }
      | _, _ => none

end System

end CameraPipeline
