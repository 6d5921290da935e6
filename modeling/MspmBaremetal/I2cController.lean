import MspmBaremetal.RegisterProgram

/-!
# The polled I2C controller

`hal_i2c_controller`, each function as the register accesses it makes, in
order. The delays between accesses are not modelled.
-/

namespace MspmBaremetal.I2cController

open RegisterProgram

/-- The registers of I2C1 and the pin multiplexer that the driver touches. -/
inductive Register where
  | rstctl
  | pwren
  | pincm (index : BitVec 32)
  | clksel
  | clkdiv
  | timeoutCtl
  | imask
  | ris
  | iclr
  | msa
  | mctr
  | msr
  | mrxdata
  | mtxdata
  | mtpr
  | mcr
  | mbmon
  | mfifoctl
  | mfifosr
  deriving DecidableEq, Repr

abbrev Access := RegisterProgram.Access Register (BitVec 32)

abbrev Program := RegisterProgram Register (BitVec 32)

/-- `hal_i2c_controller_result_t`. -/
inductive Result where
  | ok
  | invalidArgument
  | notInitialized
  | busy
  | addressNack
  | dataNack
  | arbitrationLost
  | sclLowTimeout
  | sdaLow
  | timeout
  | rxUnderflow
  | ioError
  deriving DecidableEq, Repr

/-- `hal_i2c_controller_config_t`. -/
structure Config where
  instanceBase : BitVec 32
  sclPincmIndex : BitVec 32
  sclPincmFunction : BitVec 32
  sdaPincmIndex : BitVec 32
  sdaPincmFunction : BitVec 32
  inputClockHz : BitVec 32
  busHz : BitVec 32
  pollLimit : BitVec 32
  sclLowTimeoutCount : BitVec 8
  deriving DecidableEq, Repr

/-- The file-scope variables of the driver. -/
structure Driver where
  i2c : BitVec 32
  pollLimit : BitVec 32
  activationDelayNops : BitVec 32
  lastStatus : BitVec 32
  initialized : Bool
  deriving DecidableEq, Repr

section Constants

def i2c1Base : BitVec 32 := 0x400F2000
def pincmCount : BitVec 32 := 251
def timingDenominator : BitVec 32 := 10
def maxTransfer : BitVec 8 := 4
def sysFentries : BitVec 32 := 4

def mbmonScl : BitVec 32 := 0x1
def mbmonSda : BitVec 32 := 0x2
def msrBusy : BitVec 32 := 0x1
def msrErr : BitVec 32 := 0x2
def msrAdrack : BitVec 32 := 0x4
def msrDatack : BitVec 32 := 0x8
def msrArblst : BitVec 32 := 0x10
def mctrBurstrun : BitVec 32 := 0x1
def mctrStart : BitVec 32 := 0x2
def mctrStop : BitVec 32 := 0x4
def mctrRdOnTxempty : BitVec 32 := 0x20
def mfifosrRxfifocnt : BitVec 32 := 0xF
def mfifosrTxfifocnt : BitVec 32 := 0xF00
def mfifoctlTxflush : BitVec 32 := 0x80
def mfifoctlRxflush : BitVec 32 := 0x8000
def mrxdataValue : BitVec 32 := 0xFF
def risTimeouta : BitVec 32 := 0x4000

/-- `HAL_I2C_CONTROLLER_EVENT_MASK`: MNACK, MARBLOST, TIMEOUTA and TIMEOUTB. -/
def eventMask : BitVec 32 := 0x80 ||| 0x400 ||| 0x4000 ||| 0x8000

def iomuxPf : BitVec 32 := 0x3F

/-- `PC_CONNECTED`, `INENA_ENABLE` and `HIZ1_ENABLE` of a pin. -/
def iomuxPin : BitVec 32 := 0x80 ||| 0x40000 ||| 0x2000000

end Constants

/-- `hal_i2c_controller_config_is_valid`. -/
def configIsValid : Option Config → Bool
  | none => false
  | some config =>
    let denominator := timingDenominator * config.busHz
    if config.instanceBase ≠ i2c1Base ∨ config.sclPincmIndex ≥ pincmCount ∨
        config.sdaPincmIndex ≥ pincmCount ∨ config.sclPincmFunction &&& ~~~iomuxPf ≠ 0 ∨
        config.sdaPincmFunction &&& ~~~iomuxPf ≠ 0 ∨ config.busHz = 0 ∨ config.pollLimit = 0 ∨
        config.sclLowTimeoutCount ≤ 1 ∨ denominator = 0 ∨
        config.inputClockHz % denominator ≠ 0 then
      false
    else
      let timerDivider := config.inputClockHz / denominator
      decide (timerDivider > 0) && decide (timerDivider ≤ 128)

/-- `hal_i2c_controller_line_state`. -/
def lineState : Program Result := do
  let busMonitor ← load .mbmon
  if busMonitor &&& mbmonScl = 0 then pure .sclLowTimeout
  else if busMonitor &&& mbmonSda = 0 then pure .sdaLow
  else pure .ok

/-- `hal_i2c_controller_status_result`. -/
def statusResult (status : BitVec 32) : Result :=
  if status &&& msrArblst ≠ 0 then .arbitrationLost
  else if status &&& msrAdrack ≠ 0 then .addressNack
  else if status &&& msrDatack ≠ 0 then .dataNack
  else if status &&& msrErr ≠ 0 then .ioError
  else .ok

/-- The test of `hal_i2c_controller_flush_fifos`: nothing received, all of TX free. -/
def Flushed (fifoStatus : BitVec 32) : Prop :=
  fifoStatus &&& mfifosrRxfifocnt = 0 ∧ fifoStatus &&& mfifosrTxfifocnt = sysFentries <<< 8

instance : DecidablePred Flushed := fun _ => inferInstanceAs (Decidable (_ ∧ _))

/-- `hal_i2c_controller_flush_fifos`. -/
def flushFifos (driver : Driver) : Program Bool := do
  store .mfifoctl (mfifoctlTxflush ||| mfifoctlRxflush)
  let polled ← poll (fun () => do
    let fifoStatus ← load .mfifosr
    pure (if Flushed fifoStatus then .inl () else .inr ())) driver.pollLimit.toNat ()
  store .mfifoctl 0
  pure polled.isLeft

/-- `hal_i2c_controller_clear_events`. -/
def clearEvents : Program Unit := store .iclr eventMask

/-- One turn of the loop of `hal_i2c_controller_wait_for_completion`; the state
is `result` and the driver with its `g_last_status`. -/
def pollCompletion (state : Result × Driver) : Program ((Result × Driver) ⊕ (Result × Driver)) := do
  let status ← load .msr
  let events ← load .ris
  let driver := { state.2 with lastStatus := status }
  let result ← (
    if events &&& risTimeouta ≠ 0 then do
      clearEvents
      pure .sclLowTimeout
    else
      pure (if state.1 = .ok ∧ statusResult status ≠ .ok then statusResult status else state.1) :
    Program Result)
  pure (if status &&& msrBusy = 0 then .inl (result, driver) else .inr (result, driver))

/-- `hal_i2c_controller_wait_for_completion`. -/
def waitForCompletion (driver : Driver) : Program (Result × Driver) := do
  match ← poll pollCompletion driver.pollLimit.toNat (.ok, driver) with
  | .inl out => pure out
  | .inr (_, driver) => do
    let control ← load .mctr
    store .mctr (control ||| mctrStop)
    pure (.timeout, driver)

/-- `hal_i2c_controller_prepare`. -/
def prepare (driver : Driver) : Program (Result × Driver) := do
  let lineResult ← lineState
  if lineResult ≠ .ok then pure (lineResult, driver)
  else do
    let status ← load .msr
    let driver := { driver with lastStatus := status }
    if status &&& msrBusy ≠ 0 then pure (.busy, driver)
    else do
      store .mctr 0
      clearEvents
      let flushed ← flushFifos driver
      pure (if flushed then .ok else .timeout, driver)

/-- `hal_i2c_controller_set_address`. -/
def setAddress (address : BitVec 8) (read : Bool) : Program Unit :=
  store .msa (address.setWidth 32 <<< 1 ||| if read then 1 else 0)

/-- The caller's memory, by address. -/
abbrev Memory := Nat → BitVec 8

/-- `hal_i2c_controller_preload_write`. -/
def preloadWrite (memory : Memory) (data : Nat) (length : BitVec 8) : Program Unit :=
  (List.range length.toNat).forM fun index =>
    store .mtxdata ((memory (data + index)).setWidth 32)

/-- `hal_i2c_controller_start`. -/
def start (readLength : BitVec 8) (readAfterWrite : Bool) : Program Unit :=
  store .mctr (readLength.setWidth 32 <<< 16 ||| mctrBurstrun ||| mctrStart ||| mctrStop |||
    if readAfterWrite then mctrRdOnTxempty else 0)

/-- `hal_i2c_controller_read_fifo`, with the memory it leaves. -/
def readFifo (memory : Memory) (data : Nat) (length : BitVec 8) : Program (Bool × Memory) := do
  let fifoStatus ← load .mfifosr
  if fifoStatus &&& mfifosrRxfifocnt < length.setWidth 32 then pure (false, memory)
  else do
    let memory ← (List.range length.toNat).foldlM (fun memory index => do
      let value ← load .mrxdata
      pure (Function.update memory (data + index) ((value &&& mrxdataValue).setWidth 8))) memory
    pure (true, memory)

/-- `hal_i2c_controller_init`. -/
def init (config : Option Config) (driver : Driver) : Program (Bool × Driver) :=
  match config with
  | none => pure (false, driver)
  | some config =>
    if driver.initialized || !configIsValid (some config) then pure (false, driver)
    else do
      let timerDivider := config.inputClockHz / (timingDenominator * config.busHz)
      store .rstctl (0xB1000000 ||| 0x2 ||| 0x1)
      store .pwren (0x26000000 ||| 0x1)
      store (.pincm config.sclPincmIndex) (config.sclPincmFunction ||| iomuxPin)
      store (.pincm config.sdaPincmIndex) (config.sdaPincmFunction ||| iomuxPin)
      store .clksel 0x8
      store .clkdiv 0
      store .mctr 0
      store .mtpr (timerDivider - 1)
      store .timeoutCtl (config.sclLowTimeoutCount.setWidth 32 ||| 0x8000)
      store .imask 0
      clearEvents
      store .mcr 0x4
      let control ← load .mcr
      store .mcr (control ||| 0x1)
      pure (true, { i2c := config.instanceBase
                    pollLimit := config.pollLimit
                    activationDelayNops := config.inputClockHz / config.busHz
                    lastStatus := 0
                    initialized := true })

/-- What a call gives back: its result, the driver's variables and the caller's memory. -/
abbrev Outcome := Result × Driver × Memory

/-- `hal_i2c_controller_write`. -/
def write (driver : Driver) (memory : Memory) (address : BitVec 8) (data : Option Nat)
    (length : BitVec 8) : Program Outcome := do
  if !driver.initialized then pure (.notInitialized, driver, memory)
  else match data with
    | none => pure (.invalidArgument, driver, memory)
    | some data =>
      if address > 0x7f ∨ length = 0 ∨ length > maxTransfer then
        pure (.invalidArgument, driver, memory)
      else do
        let (result, driver) ← prepare driver
        if result ≠ .ok then pure (result, driver, memory)
        else do
          preloadWrite memory data length
          setAddress address false
          start length false
          let (result, driver) ← waitForCompletion driver
          if result ≠ .ok then do
            let _ ← flushFifos driver
            pure (result, driver, memory)
          else pure (result, driver, memory)

/-- `hal_i2c_controller_read`. -/
def read (driver : Driver) (memory : Memory) (address : BitVec 8) (data : Option Nat)
    (length : BitVec 8) : Program Outcome := do
  if !driver.initialized then pure (.notInitialized, driver, memory)
  else match data with
    | none => pure (.invalidArgument, driver, memory)
    | some data =>
      if address > 0x7f ∨ length = 0 ∨ length > maxTransfer then
        pure (.invalidArgument, driver, memory)
      else do
        let (result, driver) ← prepare driver
        if result ≠ .ok then pure (result, driver, memory)
        else do
          setAddress address true
          start length false
          let (result, driver) ← waitForCompletion driver
          if result ≠ .ok then do
            let _ ← flushFifos driver
            pure (result, driver, memory)
          else do
            let (complete, memory) ← readFifo memory data length
            pure (if complete then .ok else .rxUnderflow, driver, memory)

/-- `hal_i2c_controller_write_read`. -/
def writeRead (driver : Driver) (memory : Memory) (address : BitVec 8) (writeData : Option Nat)
    (writeLength : BitVec 8) (readData : Option Nat) (readLength : BitVec 8) :
    Program Outcome := do
  if !driver.initialized then pure (.notInitialized, driver, memory)
  else match writeData, readData with
    | some writeData, some readData =>
      if address > 0x7f ∨ writeLength = 0 ∨ readLength = 0 ∨ writeLength > maxTransfer ∨
          readLength > maxTransfer then
        pure (.invalidArgument, driver, memory)
      else do
        let (result, driver) ← prepare driver
        if result ≠ .ok then pure (result, driver, memory)
        else do
          preloadWrite memory writeData writeLength
          setAddress address true
          start readLength true
          let (result, driver) ← waitForCompletion driver
          if result ≠ .ok then do
            let _ ← flushFifos driver
            pure (result, driver, memory)
          else do
            let (complete, memory) ← readFifo memory readData readLength
            pure (if complete then .ok else .rxUnderflow, driver, memory)
    | _, _ => pure (.invalidArgument, driver, memory)

/-- A call of one of the three operations. -/
inductive Call where
  | write (address : BitVec 8) (data : Option Nat) (length : BitVec 8)
  | read (address : BitVec 8) (data : Option Nat) (length : BitVec 8)
  | writeRead (address : BitVec 8) (writeData : Option Nat) (writeLength : BitVec 8)
      (readData : Option Nat) (readLength : BitVec 8)
  deriving DecidableEq, Repr

def Call.perform (driver : Driver) (memory : Memory) : Call → Program Outcome
  | .write address data length => I2cController.write driver memory address data length
  | .read address data length => I2cController.read driver memory address data length
  | .writeRead address writeData writeLength readData readLength =>
    I2cController.writeRead driver memory address writeData writeLength readData readLength

/-- One call of a session: what it found in memory, what it did and what it left. -/
structure Transaction where
  call : Call
  before : Memory
  trace : List Access
  result : Result
  after : Memory

/-- Calls in a row, each with the memory its caller has prepared, on one stream
of answers to all their reads. -/
def session (driver : Driver) :
    List (Call × Memory) → Stream' (BitVec 32) → List Transaction
  | [], _ => []
  | (call, memory) :: calls, answers =>
    let (trace, (result, driver', memory'), rest) := (call.perform driver memory).run answers
    ⟨call, memory, trace, result, memory'⟩ :: session driver' calls rest

/-- `hal_i2c_controller_last_status`. -/
def lastStatus (driver : Driver) : BitVec 32 := if driver.initialized then driver.lastStatus else 0

end MspmBaremetal.I2cController
