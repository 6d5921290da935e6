import MspmBaremetal.RegisterProgram
import MspmBaremetal.TargetEngine

/-!
# Setting up the I2C target

The configuration check of `hal_i2c_target` and the accesses of
`hal_i2c_target_init` to the peripheral, in order. The calls to the interrupt
controller are not modelled.
-/

namespace MspmBaremetal.I2cTarget

open RegisterProgram

/-- The registers of I2C1 and the pin multiplexer that `hal_i2c_target_init` touches. -/
inductive Register where
  | rstctl
  | pwren
  | pincm (index : BitVec 32)
  | clksel
  | clkdiv
  | mtpr
  | timeoutCtl
  | soar
  | soar2
  | sctr
  | sackctl
  | imask
  | iclr
  deriving DecidableEq, Repr

abbrev Access := RegisterProgram.Access Register (BitVec 32)

abbrev Program := RegisterProgram Register (BitVec 32)

/-- `hal_i2c_target_config_t`. -/
structure Config where
  instanceBase : BitVec 32
  interruptNumber : BitVec 32
  sclPincmIndex : BitVec 32
  sclPincmFunction : BitVec 32
  sdaPincmIndex : BitVec 32
  sdaPincmFunction : BitVec 32
  inputClockHz : BitVec 32
  busHz : BitVec 32
  ownAddress : BitVec 8
  sclLowTimeoutCount : BitVec 8
  deriving DecidableEq, Repr

/-- The file-scope variables of the driver. -/
structure Driver (σ κ : Type) where
  i2c : BitVec 32
  engine : TargetEngine σ κ
  errorCount : BitVec 32
  unexpectedEventCount : BitVec 32
  initialized : Bool
  startPrehandled : Bool

section Constants

def i2c1Base : BitVec 32 := 0x400F2000
def i2c1IntIrqn : BitVec 32 := 25
def pincmCount : BitVec 32 := 251
def timingDenominator : BitVec 32 := 10
def iomuxPf : BitVec 32 := 0x3F

/-- `PC_CONNECTED`, `INENA_ENABLE` and `HIZ1_ENABLE` of a pin. -/
def iomuxPin : BitVec 32 := 0x80 ||| 0x40000 ||| 0x2000000

/-- `HAL_I2C_TARGET_INTERRUPT_MASK`: SRXDONE, STXDONE, STXEMPTY, SSTART, SSTOP,
TIMEOUTA, STX_UNFL, SRX_OVFL, SARBLOST and INTR_OVFL. -/
def interruptMask : BitVec 32 :=
  0x10000 ||| 0x20000 ||| 0x200000 ||| 0x400000 ||| 0x800000 ||| 0x4000 ||| 0x10000000 |||
    0x20000000 ||| 0x40000000 ||| 0x80000000

end Constants

variable {σ κ : Type}

/-- `hal_i2c_target_config_is_valid`. -/
def configIsValid (config : Option Config) (regmap : Option (Device σ κ)) : Bool :=
  match config, regmap with
  | some config, some _ =>
    let denominator := timingDenominator * config.busHz
    if config.instanceBase ≠ i2c1Base ∨ config.interruptNumber ≠ i2c1IntIrqn ∨
        config.ownAddress > 0x7f ∨ config.sclPincmIndex ≥ pincmCount ∨
        config.sdaPincmIndex ≥ pincmCount ∨ config.sclPincmFunction &&& ~~~iomuxPf ≠ 0 ∨
        config.sdaPincmFunction &&& ~~~iomuxPf ≠ 0 ∨ config.busHz = 0 ∨
        config.sclLowTimeoutCount ≤ 1 ∨ denominator = 0 ∨
        config.inputClockHz % denominator ≠ 0 then
      false
    else
      let timerDivider := config.inputClockHz / denominator
      decide (timerDivider > 0) && decide (timerDivider ≤ 128)
  | _, _ => false

/-- `hal_i2c_target_init`. -/
def init (config : Option Config) (regmap : Option (Device σ κ)) (driver : Driver σ κ) :
    Program (Bool × Driver σ κ) :=
  match config with
  | none => pure (false, driver)
  | some config =>
    if driver.initialized || !configIsValid (some config) regmap then pure (false, driver)
    else match TargetEngine.init (some driver.engine) regmap with
      | none => pure (false, driver)
      | some engine => do
        let timerDivider := config.inputClockHz / (timingDenominator * config.busHz)
        store .rstctl (0xB1000000 ||| 0x2 ||| 0x1)
        store .pwren (0x26000000 ||| 0x1)
        store (.pincm config.sclPincmIndex) (config.sclPincmFunction ||| iomuxPin)
        store (.pincm config.sdaPincmIndex) (config.sdaPincmFunction ||| iomuxPin)
        store .clksel 0x8
        store .clkdiv 0
        store .mtpr (timerDivider - 1)
        store .timeoutCtl (config.sclLowTimeoutCount.setWidth 32 ||| 0x8000)
        store .soar (config.ownAddress.setWidth 32 ||| 0x4000)
        store .soar2 0
        store .sctr (0x4 ||| 0x8 ||| 0x20)
        store .sackctl 0
        store .imask 0
        store .iclr interruptMask
        store .imask interruptMask
        let control ← load .sctr
        store .sctr (control ||| 0x1)
        pure (true, { i2c := config.instanceBase
                      engine
                      errorCount := 0
                      unexpectedEventCount := 0
                      initialized := true
                      startPrehandled := false })

end MspmBaremetal.I2cTarget
