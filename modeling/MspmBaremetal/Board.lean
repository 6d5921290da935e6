import MspmBaremetal.Clock
import MspmBaremetal.I2cController
import MspmBaremetal.I2cTarget
import MspmBaremetal.Uart

/-!
# The board's drivers

`hal_gpio`, `hal_timer`, `hal_wdt` and `board_init.c`, as the register accesses
they make. The interrupt controller, the barriers and the delays after a
peripheral is powered are left out; UART0's registers are kept as a whole.
-/

namespace MspmBaremetal.Board

open RegisterProgram

/-- The registers of a GPIO port. -/
inductive Gpio where
  | rstctl
  | pwren
  | doutset
  | doutclr
  | douttgl
  | doeset
  deriving DecidableEq, Repr

inductive Systick where
  | load
  | val
  | ctrl
  deriving DecidableEq, Repr

/-- The registers of WWDT0. -/
inductive Wwdt where
  | rstctl
  | pwren
  | pdbgctl
  | wwdtctl1
  | wwdtctl0
  | wwdtstat
  | wwdtcntrst
  deriving DecidableEq, Repr

inductive Register where
  | clock (r : Clock.Register)
  | gpio (portBase : BitVec 32) (r : Gpio)
  | pincm (index : BitVec 32)
  | systick (r : Systick)
  | wwdt (r : Wwdt)
  | target (r : I2cTarget.Register)
  | controller (r : I2cController.Register)
  deriving DecidableEq, Repr

abbrev Access := RegisterProgram.Access Register (BitVec 32)

abbrev Program := RegisterProgram Register (BitVec 32)

/-! ## `hal_gpio` -/

/-- `hal_gpio_output_t`. -/
structure Output where
  portBase : BitVec 32
  pinMask : BitVec 32
  pincmIndex : BitVec 32
  deriving DecidableEq, Repr

/-- `hal_gpio_port_reset_enable`. -/
def portResetEnable (portBase : BitVec 32) : Program Unit := do
  store (.gpio portBase .rstctl) (0xB1000000 ||| 0x2 ||| 0x1)
  store (.gpio portBase .pwren) (0x26000000 ||| 0x1)

/-- `hal_gpio_output_init`; `none` is a null pointer. -/
def outputInit : Option Output → Program Bool
  | none => pure false
  | some output =>
    if output.pinMask = 0 ∨ output.pincmIndex ≥ 251 then pure false
    else do
      store (.pincm output.pincmIndex) (0x80 ||| 1)
      store (.gpio output.portBase .doutclr) output.pinMask
      store (.gpio output.portBase .doeset) output.pinMask
      pure true

/-- `hal_gpio_output_set`. -/
def outputSet : Option Output → Bool → Program Unit
  | none, _ => pure ()
  | some output, true => store (.gpio output.portBase .doutset) output.pinMask
  | some output, false => store (.gpio output.portBase .doutclr) output.pinMask

/-- `hal_gpio_output_toggle`. -/
def outputToggle : Option Output → Program Unit
  | none => pure ()
  | some output => store (.gpio output.portBase .douttgl) output.pinMask

/-! ## `hal_timer` and `hal_wdt` -/

/-- `SysTick_Config` of the vendor's headers. -/
def systickConfig (ticks : BitVec 32) : Program (BitVec 32) :=
  if ticks - 1 > 0xFFFFFF then pure 1
  else do
    store (.systick .load) (ticks - 1)
    store (.systick .val) 0
    store (.systick .ctrl) (0x4 ||| 0x2 ||| 0x1)
    pure 0

/-- `hal_timer_init_1ms`, with the `g_now_ms` it leaves. -/
def timerInit1ms (mclkHz nowMs : BitVec 32) : Program (Bool × BitVec 32) :=
  let reload := mclkHz / 1000
  if mclkHz % 1000 ≠ 0 then pure (false, nowMs)
  else do
    let refused ← systickConfig reload
    pure (refused = 0, 0)

/-- `hal_wdt_init`. -/
def wdtInit : Program Bool := do
  store (.wwdt .rstctl) (0xB1000000 ||| 0x2 ||| 0x1)
  store (.wwdt .pwren) (0x26000000 ||| 0x1)
  store (.wwdt .pdbgctl) 0
  store (.wwdt .wwdtctl1) (0xBE000000 ||| 0)
  store (.wwdt .wwdtctl0) (0xC9000000 ||| 0x30 ||| 0 ||| 0 ||| 0)
  let status ← load (.wwdt .wwdtstat)
  pure (status &&& 0x1 = 0x1)

/-- `hal_wdt_kick`. -/
def wdtKick : Program Unit := store (.wwdt .wwdtcntrst) 0x00A7

/-! ## `board_init.c` -/

/-- `board_init_result_t`. -/
inductive InitResult where
  | ok
  | clockFallback
  | gpioFailure
  | uartFailure
  deriving DecidableEq, Repr

def gpioaBase : BitVec 32 := 0x400A0000
def gpiobBase : BitVec 32 := 0x400A2000
def boardMclkHz : BitVec 32 := 32000000
def backchannelBaud : BitVec 32 := 115200
def uartTxQueueCapacity : BitVec 32 := 64

/-- `g_red_led`. -/
def redLed : Output := ⟨gpioaBase, 0x1, 0⟩

/-- `g_uart0_tx` with its clock. -/
def uart0Tx (clockHz : BitVec 32) : Uart.TxConfig := ⟨clockHz, backchannelBaud, 16, 0xE⟩

/-- `g_i2c1_target` with its clock. -/
def i2c1Target (inputClockHz : BitVec 32) : I2cTarget.Config where
  instanceBase := I2cTarget.i2c1Base
  interruptNumber := I2cTarget.i2c1IntIrqn
  sclPincmIndex := 10
  sclPincmFunction := 4
  sdaPincmIndex := 11
  sdaPincmFunction := 4
  inputClockHz := inputClockHz
  busHz := 100000
  ownAddress := 0x42
  sclLowTimeoutCount := 32

/-- `g_i2c1_controller` with its clock. -/
def i2c1Controller (inputClockHz : BitVec 32) : I2cController.Config where
  instanceBase := I2cController.i2c1Base
  sclPincmIndex := 10
  sclPincmFunction := 4
  sdaPincmIndex := 11
  sdaPincmFunction := 4
  inputClockHz := inputClockHz
  busHz := 100000
  pollLimit := 32000
  sclLowTimeoutCount := 32

end Board

/-- The file-scope variables of the drivers and of the board, and UART0. -/
structure Board (σ κ : Type) where
  mclkHz : BitVec 32
  nowMs : BitVec 32
  uart : Uart.Registers
  uartTxStorage : Nat → BitVec 8
  uartTxQueue : Ringbuf
  i2c1Claimed : Bool
  target : I2cTarget.Driver σ κ
  controller : I2cController.Driver

namespace Board

variable {σ κ : Type}

/-- `board_init`. -/
def boardInit (b : Board σ κ) : Program (InitResult × Board σ κ) := do
  let (requestedClockSelected, mclkHz) ← (Clock.init boardMclkHz).within .clock
  let b := { b with mclkHz }
  portResetEnable redLed.portBase
  if !(← outputInit (some redLed)) then pure (.gpioFailure, b)
  else do
    portResetEnable gpiobBase
    match Ringbuf.init (some b.uartTxQueue) (some b.uartTxStorage) uartTxQueueCapacity with
    | none => pure (.uartFailure, b)
    | some uartTxQueue =>
      let b := { b with uartTxQueue }
      match Uart.txInit (some (uart0Tx b.mclkHz)) (some b.uartTxQueue) b.uart with
      | none => pure (.uartFailure, b)
      | some uart =>
        pure (if !requestedClockSelected then .clockFallback else .ok, { b with uart })

/-- `board_led_red_set`. -/
def ledRedSet (on : Bool) : Program Unit := outputSet (some redLed) on

/-- `board_led_red_toggle`. -/
def ledRedToggle : Program Unit := outputToggle (some redLed)

/-- `board_i2c1_claim`. -/
def i2c1Claim (b : Board σ κ) : Bool × Board σ κ :=
  if b.i2c1Claimed then (false, b) else (true, { b with i2c1Claimed := true })

/-- `board_i2c1_target_init`. -/
def i2c1TargetInit (b : Board σ κ) (regmap : Option (Device σ κ)) : Program (Bool × Board σ κ) :=
  match b.i2c1Claim with
  | (false, b) => pure (false, b)
  | (true, b) => do
    let (ready, target) ←
      (I2cTarget.init (some (i2c1Target b.mclkHz)) regmap b.target).within .target
    let b := { b with target }
    if ready then pure (true, b) else pure (false, { b with i2c1Claimed := false })

/-- `board_i2c1_controller_init`. -/
def i2c1ControllerInit (b : Board σ κ) : Program (Bool × Board σ κ) :=
  match b.i2c1Claim with
  | (false, b) => pure (false, b)
  | (true, b) => do
    let (ready, controller) ←
      (I2cController.init (some (i2c1Controller b.mclkHz)) b.controller).within .controller
    let b := { b with controller }
    if ready then pure (true, b) else pure (false, { b with i2c1Claimed := false })

end Board

end MspmBaremetal
