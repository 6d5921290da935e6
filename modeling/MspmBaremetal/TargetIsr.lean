import MspmBaremetal.TargetEngine

/-!
# The interrupt handler of `hal_i2c_target`

I2C1's latched flags and `I2C1_IRQHandler`, one register access at a time. The
bus raises flags at any time; the handler reads and clears them in the fixed
order of their indices. `serve` is what one bus event does when it is serviced
at once. The error interrupts are never raised.
-/

namespace MspmBaremetal

/-- What happens on the bus, as far as the target sees it. -/
inductive Bus where
  | start
  | byte (value : BitVec 8)
  | request
  | stop
  deriving DecidableEq, Repr

/-- I2C1. `rxFifo` holds a received byte, `treq` asks for one to transmit;
`reading` is the direction of the last START and `busy` is cleared by STOP. -/
structure Peripheral where
  srxdone : Bool
  stxdone : Bool
  stxempty : Bool
  sstart : Bool
  sstop : Bool
  rxFifo : Option (BitVec 8)
  treq : Bool
  reading : Bool
  busy : Bool
  deriving DecidableEq, Repr

/-- `I2C_CPU_INT_IIDX_STAT`. -/
inductive Interrupt where
  | noIntr
  | srxdone
  | stxdone
  | stxempty
  | sstart
  | sstop
  deriving DecidableEq, Repr

namespace Peripheral

/-- Reading `CPU_INT.IIDX` clears the pending flag with the lowest index. -/
def iidx (hw : Peripheral) : Interrupt × Peripheral :=
  if hw.srxdone then (.srxdone, { hw with srxdone := false })
  else if hw.stxdone then (.stxdone, { hw with stxdone := false })
  else if hw.stxempty then (.stxempty, { hw with stxempty := false })
  else if hw.sstart then (.sstart, { hw with sstart := false })
  else if hw.sstop then (.sstop, { hw with sstop := false })
  else (.noIntr, hw)

end Peripheral

namespace TargetIsr

variable {σ κ : Type*}

/-- Where the handler stands before its next register access. -/
inductive Position where
  | loop
  | rxCheck
  | rxData
  | txSsr
  | txCheck
  | txData (value : BitVec 8)
  deriving DecidableEq, Repr

/-- I2C1, `g_engine`, `g_start_prehandled`, `g_error_count` and the handler. -/
structure State (σ κ : Type*) where
  hw : Peripheral
  engine : TargetEngine σ κ
  startPrehandled : Bool
  errorCount : BitVec 32
  position : Position

inductive Event (σ κ : Type*) where
  | bus (e : Bus)
  | started
  | stopped
  | engine (e : TargetEngine.Event σ κ)

/-- State and events of a part of the handler. -/
abbrev Step (σ κ : Type*) := State σ κ × List (Event σ κ)

variable [DecidableEq σ]

/-- One engine call. -/
def State.call (s : State σ κ) (call : TargetEngine.Call) : Step σ κ :=
  let (engine, es) := s.engine.call call
  ({ s with engine }, es.map .engine)

/-- `hal_i2c_target_handle_start`. -/
def State.handleStart (s : State σ κ) : Step σ κ :=
  let (s, es) := s.call .abort
  (s, .started :: es)

/-- `hal_i2c_target_begin_if_start_pending`. -/
def State.beginIfStartPending (s : State σ κ) : Step σ κ :=
  if s.hw.sstart then
    let (s, es) := s.handleStart
    ({ s with startPrehandled := true }, es)
  else (s, [])

/-- The engine call a data event makes first in a new phase. -/
def ensure (engine : TargetEngine σ κ) (direction : Direction) (begin : TargetEngine.Call) :
    TargetEngine σ κ × List (TargetEngine.Event σ κ) :=
  if engine.direction ≠ direction then engine.call begin else (engine, [])

/-- `hal_i2c_target_receive_byte` up to its read of `SRXDATA`. -/
def State.rxCheck (s : State σ κ) : Step σ κ :=
  let (s, es) := s.beginIfStartPending
  let (engine, fs) := ensure s.engine .receive .beginReceive
  ({ s with engine, position := .rxData }, es ++ fs.map .engine)

/-- The rest of `hal_i2c_target_receive_byte`; an empty FIFO reads as 0. -/
def State.rxData (s : State σ κ) (answer : Bool) : Step σ κ :=
  let value := s.hw.rxFifo.getD 0
  let accepted := (s.engine.receive value answer).2.2
  let (s, es) := s.call (.receive value answer)
  ({ s with hw := { s.hw with rxFifo := none },
            errorCount := if accepted then s.errorCount else s.errorCount + 1,
            position := .loop }, es)

/-- `hal_i2c_target_transmit_byte` up to its write of `STXDATA`, once `TREQ` was
seen. -/
def State.txCheck (s : State σ κ) : Step σ κ :=
  let (s, es) := s.beginIfStartPending
  let (engine, fs) := ensure s.engine .transmit .beginTransmit
  let (engine, gs, value) := engine.transmit
  ({ s with engine, position := .txData value },
    es ++ (fs ++ gs.map TargetEngine.Event.regmap).map .engine)

/-- The body of the handler's loop up to the next register access. -/
def State.dispatch (s : State σ κ) : Step σ κ :=
  let (interrupt, hw) := s.hw.iidx
  let s := { s with hw }
  match interrupt with
  | .noIntr => (s, [])
  | .srxdone => ({ s with position := .rxCheck }, [])
  | .stxdone | .stxempty => ({ s with position := .txSsr }, [])
  | .sstart =>
    if s.startPrehandled then ({ s with startPrehandled := false }, []) else s.handleStart
  | .sstop =>
    let (s, es) := s.call .end
    ({ s with startPrehandled := false }, .stopped :: es)

/-- The handler's next register access, with what follows it. -/
def State.isr (s : State σ κ) (answer : Bool) : Step σ κ :=
  match s.position with
  | .loop => s.dispatch
  | .rxCheck => s.rxCheck
  | .rxData => s.rxData answer
  | .txSsr => ({ s with position := if s.hw.treq then .txCheck else .loop }, [])
  | .txCheck => s.txCheck
  | .txData value =>
    ({ s with hw := { s.hw with treq := false }, position := .loop },
      [.engine (.transmitted value)])

/-- `start` has a direction, `request` the flags it raises; `sent` is the end of
a byte that no further request follows. -/
inductive Choice where
  | start (read : Bool)
  | byte (value : BitVec 8)
  | request (done empty : Bool)
  | sent
  | stop
  | isr (answer : Bool)
  deriving DecidableEq, Repr

/-- The bus events of write and read transactions. No flag is raised again
before it was read, and there is room for one byte. -/
def raise (hw : Peripheral) : Choice → Option (Peripheral × List Bus)
  | .start read =>
    if hw.sstart then none
    else some ({ hw with sstart := true, reading := read, busy := true }, [.start])
  | .byte value =>
    if hw.srxdone || hw.rxFifo.isSome || !hw.busy || hw.reading then none
    else some ({ hw with srxdone := true, rxFifo := some value }, [.byte value])
  | .request done empty =>
    if hw.treq || done && hw.stxdone || empty && hw.stxempty || !(done || empty) || !hw.busy ||
      !hw.reading then none
    else some ({ hw with treq := true, stxdone := hw.stxdone || done,
                         stxempty := hw.stxempty || empty }, [.request])
  | .sent =>
    if hw.stxdone || !hw.reading then none else some ({ hw with stxdone := true }, [])
  | .stop =>
    if hw.sstop || !hw.busy then none
    else some ({ hw with sstop := true, busy := false }, [.stop])
  | .isr _ => none

/-- The bus and the handler, interleaved. -/
def machine (σ κ : Type*) [DecidableEq σ] : Machine (State σ κ) Choice (Event σ κ) where
  step s
    | .isr answer => some (s.isr answer)
    | choice => (raise s.hw choice).map fun (hw, es) => ({ s with hw }, es.map .bus)

/-! ## Prompt service -/

/-- What one bus event does when it is serviced at once. -/
def serve (engine : TargetEngine σ κ) : Bus → TargetEngine σ κ × List (TargetEngine.Event σ κ)
  | .start => engine.call .abort
  | .byte value =>
    let (engine, es) := ensure engine .receive .beginReceive
    let (engine, fs) := engine.call (.receive value true)
    (engine, es ++ fs)
  | .request =>
    let (engine, es) := ensure engine .transmit .beginTransmit
    let (engine, fs) := engine.call .transmit
    (engine, es ++ fs)
  | .stop => engine.call .end

/-- Bus events serviced one after the other. -/
def serveAll (engine : TargetEngine σ κ) :
    List Bus → TargetEngine σ κ × List (TargetEngine.Event σ κ)
  | [] => (engine, [])
  | e :: rest =>
    let (engine, es) := serve engine e
    let (engine, fs) := serveAll engine rest
    (engine, es ++ fs)

/-- `hal_i2c_target_init` on an idle bus, with an engine just initialised. -/
def initial (engine : TargetEngine σ κ) : State σ κ where
  hw := { srxdone := false, stxdone := false, stxempty := false, sstart := false, sstop := false,
          rxFifo := none, treq := false, reading := false, busy := false }
  engine := engine
  startPrehandled := false
  errorCount := 0
  position := .loop

end TargetIsr

end MspmBaremetal
