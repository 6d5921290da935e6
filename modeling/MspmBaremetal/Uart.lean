import MspmBaremetal.Ringbuf

/-!
# The UART transmit path of `hal_uart`

The UART0 transmit registers, `hal_uart0_tx_init`, and the accesses of
`hal_uart0_tx_write` and `UART0_IRQHandler` one at a time, in program order.
The handler preempts the thread whenever PRIMASK lets it and runs to its end;
the transmit FIFO drains at any time.
-/

namespace MspmBaremetal.Uart

/-! ## Registers -/

/-- `UART_CPU_INT_*_TXINT`, the same bit of IMASK, ISET and ICLR. -/
def txintBit : BitVec 32 := 0x00000800

/-- `UART_STAT_TXFF_MASK`. -/
def statTxff : BitVec 32 := 0x00000080

/-- `UART_CPU_INT_IIDX_STAT_TXIFG`. -/
def iidxTxifg : BitVec 32 := 0x0000000C

/-- The transmit FIFO's size and the level its interrupt is raised at. -/
structure Hardware where
  depth : Nat
  trigger : Nat
  trigger_lt : trigger < depth

structure Registers where
  ctl0 : BitVec 32
  clksel : BitVec 32
  clkdiv : BitVec 32
  lcrh : BitVec 32
  ibrd : BitVec 32
  fbrd : BitVec 32
  ifls : BitVec 32
  pincm : BitVec 32 → BitVec 32
  imask : BitVec 32
  /-- The TXINT flag of RIS. -/
  txint : Bool
  /-- The number of bytes in the transmit FIFO. -/
  level : Nat

namespace Registers

def stat (hw : Hardware) (r : Registers) : BitVec 32 := if hw.depth ≤ r.level then statTxff else 0

/-- TXINT is pending and unmasked. -/
def requests (r : Registers) : Bool := r.txint && (r.imask &&& txintBit != 0)

/-- The value a read of IIDX returns; it clears the flag it reports. -/
def readIidx (r : Registers) : BitVec 32 × Registers :=
  if r.requests then (iidxTxifg, { r with txint := false }) else (0, r)

/-- A byte written while the FIFO is full is lost. -/
def writeTxdata (hw : Hardware) (r : Registers) : Registers :=
  if hw.depth ≤ r.level then r else { r with level := r.level + 1 }

/-- One byte leaves the FIFO; reaching the trigger level raises TXINT. -/
def drain (hw : Hardware) (r : Registers) : Registers :=
  { r with level := r.level - 1, txint := r.txint || r.level - 1 == hw.trigger }

end Registers

/-! ## Initialisation -/

/-- `hal_uart_baud_divisor`. -/
def baudDivisor (clockHz baudRate : BitVec 32) : Option (BitVec 32) :=
  if baudRate = 0 then none
  else
    let scaled : BitVec 64 := (clockHz.setWidth 64 * 8 / baudRate.setWidth 64 + 1) / 2
    if scaled < 64 ∨ scaled > 0x003fffff then none else some (scaled.setWidth 32)

structure TxConfig where
  clockHz : BitVec 32
  baudRate : BitVec 32
  txPincmIndex : BitVec 32
  txPincmFunction : BitVec 32

/-- `hal_uart0_tx_init`; the reset through RSTCTL empties the FIFO. `none` is
the result `false`, which leaves every register as it was. -/
def txInit (config : Option TxConfig) (queue : Option Ringbuf) (r : Registers) :
    Option Registers := do
  let config ← config
  let queue ← queue
  if config.clockHz = 0 ∨ config.txPincmIndex ≥ 251 ∨ config.txPincmFunction &&& ~~~0x3F ≠ 0 ∨
      queue.capacity = 0 then none
  else do
    let divisor ← baudDivisor config.clockHz config.baudRate
    return { r with
      pincm := Function.update r.pincm config.txPincmIndex (config.txPincmFunction ||| 0x80)
      clksel := 0x8, clkdiv := 0, lcrh := 0x30, ibrd := divisor / 64, fbrd := divisor &&& 63,
      ifls := 0x2, txint := false, imask := 0, ctl0 := 0x1 ||| 0x10 ||| 0x20000 ||| 0, level := 0 }

/-! ## The thread and the interrupt handler -/

/-- Where `hal_uart0_tx_write` stands before its next access: in
`lib_ringbuf_try_push` of one byte of `data`, or in `hal_uart0_tx_enable_interrupt`. -/
inductive Thread where
  | idle
  | pushing (data : List (BitVec 8)) (accepted : Nat) (push : Ringbuf.Producer)
  | getPrimask (data : List (BitVec 8)) (accepted : Nat)
  | disableIrq (data : List (BitVec 8)) (accepted : Nat) (saved : Bool)
  | readImask (data : List (BitVec 8)) (accepted : Nat) (saved : Bool)
  | writeImask (data : List (BitVec 8)) (accepted : Nat) (saved : Bool) (imask : BitVec 32)
  | setTxint (data : List (BitVec 8)) (accepted : Nat) (saved : Bool)
  | setPrimask (data : List (BitVec 8)) (accepted : Nat) (saved : Bool)
  deriving DecidableEq, Repr

/-- Where `UART0_IRQHandler` stands before its next access: in the loop of
`hal_uart0_tx_service`, or in `hal_uart0_tx_disable_interrupt`. -/
inductive Handler where
  | inactive
  | readIidx
  | readStat
  | popping (pop : Ringbuf.Consumer)
  | writeTxdata (byte : BitVec 8)
  | getPrimask
  | disableIrq (saved : Bool)
  | readImask (saved : Bool)
  | writeImask (saved : Bool) (imask : BitVec 32)
  | setPrimask (saved : Bool)
  deriving DecidableEq, Repr

structure System where
  registers : Registers
  primask : Bool
  initialized : Bool
  ring : Ringbuf
  thread : Thread
  handler : Handler

inductive Event where
  | ring (event : FifoEvent (BitVec 8))
  | wrote (byte : BitVec 8)
  | returned (data : List (BitVec 8)) (accepted : Nat)
  deriving DecidableEq, Repr

/-- After the loop of `hal_uart0_tx_write`. -/
def Thread.leaveLoop (data : List (BitVec 8)) (accepted : Nat) : Thread × List Event :=
  if accepted ≠ 0 then (.getPrimask data accepted, []) else (.idle, [.returned data accepted])

/-- The loop test `accepted < length`. -/
def Thread.loop (data : List (BitVec 8)) (accepted : Nat) : Thread × List Event :=
  if h : accepted < data.length then (.pushing data accepted (.loadWriteIndex data[accepted]), [])
  else leaveLoop data accepted

/-- What follows an access of `lib_ringbuf_try_push`. -/
def Thread.afterPush (data : List (BitVec 8)) (accepted : Nat) :
    Ringbuf.Producer → Thread × List Event
  | .returned true => loop data (accepted + 1)
  | .returned false => leaveLoop data accepted
  | push => (.pushing data accepted push, [])

/-- What follows an access of `lib_ringbuf_try_pop`. -/
def Handler.afterPop : Ringbuf.Consumer → Handler
  | .returned (some byte) => .writeTxdata byte
  | .returned none => .getPrimask
  | pop => .popping pop

/-- The thread's next access; none between calls. -/
def Thread.step (s : System) : Option (System × List Event) :=
  match s.thread with
  | .idle => none
  | .pushing data accepted push => do
    let (ring, push, es) ← push.step s.ring
    let (thread, done) := afterPush data accepted push
    return ({ s with ring, thread }, es.map .ring ++ done)
  | .getPrimask data accepted =>
    some ({ s with thread := .disableIrq data accepted s.primask }, [])
  | .disableIrq data accepted saved =>
    some ({ s with primask := true, thread := .readImask data accepted saved }, [])
  | .readImask data accepted saved =>
    some ({ s with thread := .writeImask data accepted saved s.registers.imask }, [])
  | .writeImask data accepted saved imask =>
    some ({ s with registers := { s.registers with imask := imask ||| txintBit },
                   thread := .setTxint data accepted saved }, [])
  | .setTxint data accepted saved =>
    some ({ s with registers := { s.registers with txint := true },
                   thread := .setPrimask data accepted saved }, [])
  | .setPrimask data accepted saved =>
    some ({ s with primask := saved, thread := .idle }, [.returned data accepted])

/-- The handler's next access; none while it does not run. -/
def Handler.step (hw : Hardware) (s : System) : Option (System × List Event) :=
  match s.handler with
  | .inactive => none
  | .readIidx =>
    let (interrupt, registers) := s.registers.readIidx
    some ({ s with registers,
                   handler := if interrupt &&& 0xFF = iidxTxifg then .readStat else .inactive }, [])
  | .readStat =>
    some ({ s with handler := if s.registers.stat hw &&& statTxff = 0 then .popping .loadReadIndex
                              else .inactive }, [])
  | .popping pop => do
    let (ring, pop, es) ← pop.step s.ring
    return ({ s with ring, handler := afterPop pop }, es.map .ring)
  | .writeTxdata byte =>
    some ({ s with registers := s.registers.writeTxdata hw, handler := .readStat }, [.wrote byte])
  | .getPrimask => some ({ s with handler := .disableIrq s.primask }, [])
  | .disableIrq saved => some ({ s with primask := true, handler := .readImask saved }, [])
  | .readImask saved => some ({ s with handler := .writeImask saved s.registers.imask }, [])
  | .writeImask saved imask =>
    some ({ s with registers := { s.registers with imask := imask &&& ~~~txintBit },
                   handler := .setPrimask saved }, [])
  | .setPrimask saved => some ({ s with primask := saved, handler := .inactive }, [])

inductive Choice where
  | write (data : Option (List (BitVec 8)))
  | thread
  | interrupt
  | handler
  | drain

/-- The beginning of `hal_uart0_tx_write`. A null `data` with a nonzero length
returns 0, as does every call before initialisation. -/
def Thread.call (s : System) : Option (List (BitVec 8)) → System × List Event
  | none => (s, [])
  | some data =>
    if s.initialized then
      let (thread, done) := loop data 0
      ({ s with thread }, done)
    else (s, [.returned data 0])

def machine (hw : Hardware) : Machine System Choice Event where
  step s
    | .write data =>
      if s.thread = .idle ∧ s.handler = .inactive ∧ (data.getD []).length < 2 ^ 32 then
        some (Thread.call s data)
      else none
    | .thread => if s.handler = .inactive then Thread.step s else none
    -- an entry the flag no longer asks for reads 0 from IIDX and leaves
    | .interrupt =>
      if s.handler = .inactive ∧ s.primask = false then
        some ({ s with handler := .readIidx }, [])
      else none
    | .handler => Handler.step hw s
    | .drain =>
      if 0 < s.registers.level then
        some ({ s with registers := s.registers.drain hw }, [])
      else none

/-- After `hal_uart0_tx_init`, whose effect on the registers is `registers`, on
a queue whose indices are equal. -/
def System.start (registers : Registers) (primask : Bool) (ring : Ringbuf) (index : BitVec 32) :
    System where
  registers
  primask
  initialized := true
  ring := { ring with writeIndex := index, readIndex := index }
  thread := .idle
  handler := .inactive

end MspmBaremetal.Uart
