import MspmBaremetal.I2cController
import MspmBaremetal.I2cTarget

/-!
# The bus timing that both I2C drivers accept

The controller and the target check the same quotient of clock and bus rate
before they program MTPR. Ten times the bus rate is formed in 32 bits: where it
fits, an accepted timing is exact.
-/

namespace MspmBaremetal.I2cTiming

open RegisterProgram

/-- `denominator`. -/
def denominator (busHz : BitVec 32) : BitVec 32 := 10 * busHz

/-- A clock and a bus rate that the drivers accept. -/
structure Accepted (inputClockHz busHz : BitVec 32) : Prop where
  bus : busHz ≠ 0
  nonzero : denominator busHz ≠ 0
  divides : inputClockHz % denominator busHz = 0
  divider : 0 < inputClockHz / denominator busHz ∧ inputClockHz / denominator busHz ≤ 128

/-- MTPR divides the clock down to ten periods for each bus clock. -/
def Exact (inputClockHz busHz mtpr : BitVec 32) : Prop :=
  inputClockHz.toNat = 10 * busHz.toNat * (mtpr.toNat + 1)

instance (inputClockHz busHz mtpr : BitVec 32) : Decidable (Exact inputClockHz busHz mtpr) :=
  inferInstanceAs (Decidable (_ = _))

variable {inputClockHz busHz : BitVec 32}

/-- The value of MTPR is in range, and exact if ten times the bus rate is formed
without wrapping: a product beyond 32 bits is above every clock. -/
theorem Accepted.exact_iff (h : Accepted inputClockHz busHz) :
    (inputClockHz / denominator busHz - 1).toNat ≤ 127 ∧
      (Exact inputClockHz busHz (inputClockHz / denominator busHz - 1) ↔
        10 * busHz.toNat < 2 ^ 32) := by
  obtain ⟨-, -, divides, some, few⟩ := h
  have whole := congrArg BitVec.toNat divides
  rw [BitVec.toNat_umod, show (0 : BitVec 32).toNat = 0 from rfl] at whole
  rw [BitVec.lt_def, BitVec.toNat_udiv, show (0 : BitVec 32).toNat = 0 from rfl] at some
  rw [BitVec.le_def, BitVec.toNat_udiv, show (128 : BitVec 32).toNat = 128 from rfl] at few
  have product : (denominator busHz).toNat = 10 * busHz.toNat % 2 ^ 32 := by
    rw [denominator, BitVec.toNat_mul]
    rfl
  have parts := Nat.div_add_mod inputClockHz.toNat (denominator busHz).toNat
  have clock := inputClockHz.isLt
  rw [whole, add_zero] at parts
  have periods : (inputClockHz / denominator busHz - 1).toNat =
      inputClockHz.toNat / (denominator busHz).toNat - 1 := by
    rw [BitVec.toNat_sub, BitVec.toNat_udiv, show (1 : BitVec 32).toNat = 1 from rfl]
    omega
  rw [Exact, periods, Nat.sub_add_cancel some]
  generalize inputClockHz.toNat / (denominator busHz).toNat = q at *
  refine ⟨by omega, ?_, ?_⟩
  · intro exact_
    have once : 10 * busHz.toNat * 1 ≤ 10 * busHz.toNat * q := Nat.mul_le_mul_left _ some
    omega
  · intro fits
    rw [← parts, product, Nat.mod_eq_of_lt fits]

/-! ## Both validators -/

/-- What the controller checks besides the timing. -/
structure ControllerFields (config : I2cController.Config) : Prop where
  base : config.instanceBase = I2cController.i2c1Base
  sclIndex : config.sclPincmIndex < I2cController.pincmCount
  sdaIndex : config.sdaPincmIndex < I2cController.pincmCount
  sclFunction : config.sclPincmFunction &&& ~~~I2cController.iomuxPf = 0
  sdaFunction : config.sdaPincmFunction &&& ~~~I2cController.iomuxPf = 0
  pollLimit : config.pollLimit ≠ 0
  timeout : 1 < config.sclLowTimeoutCount

/-- What the target checks besides the timing. -/
structure TargetFields (config : I2cTarget.Config) : Prop where
  base : config.instanceBase = I2cTarget.i2c1Base
  interrupt : config.interruptNumber = I2cTarget.i2c1IntIrqn
  address : config.ownAddress ≤ 0x7f
  sclIndex : config.sclPincmIndex < I2cTarget.pincmCount
  sdaIndex : config.sdaPincmIndex < I2cTarget.pincmCount
  sclFunction : config.sclPincmFunction &&& ~~~I2cTarget.iomuxPf = 0
  sdaFunction : config.sdaPincmFunction &&& ~~~I2cTarget.iomuxPf = 0
  timeout : 1 < config.sclLowTimeoutCount

theorem controller_isValid_iff (config : I2cController.Config) :
    I2cController.configIsValid (some config) = true ↔
      ControllerFields config ∧ Accepted config.inputClockHz config.busHz := by
  rw [I2cController.configIsValid]
  dsimp only
  constructor
  · intro valid
    split at valid
    · cases valid
    next sane =>
      simp only [not_or, not_not, BitVec.not_le, ne_eq, ge_iff_le] at sane
      obtain ⟨base, sclIndex, sdaIndex, sclFunction, sdaFunction, bus, pollLimit, timeout, nonzero,
        divides⟩ := sane
      rw [Bool.and_eq_true, decide_eq_true_eq, decide_eq_true_eq] at valid
      exact ⟨⟨base, sclIndex, sdaIndex, sclFunction, sdaFunction, pollLimit, timeout⟩,
        ⟨bus, nonzero, divides, valid⟩⟩
  · rintro ⟨fields, timing⟩
    rw [if_neg]
    · exact Bool.and_eq_true_iff.mpr ⟨decide_eq_true timing.divider.1, decide_eq_true timing.divider.2⟩
    · simp only [not_or, not_not, BitVec.not_le, ne_eq, ge_iff_le]
      exact ⟨fields.base, fields.sclIndex, fields.sdaIndex, fields.sclFunction, fields.sdaFunction,
        timing.bus, fields.pollLimit, fields.timeout, timing.nonzero, timing.divides⟩

theorem target_isValid_iff {σ κ : Type} (config : I2cTarget.Config) (regmap : Device σ κ) :
    I2cTarget.configIsValid (some config) (some regmap) = true ↔
      TargetFields config ∧ Accepted config.inputClockHz config.busHz := by
  rw [I2cTarget.configIsValid]
  dsimp only
  constructor
  · intro valid
    split at valid
    · cases valid
    next sane =>
      simp only [not_or, not_not, BitVec.not_le, BitVec.not_lt, ne_eq, ge_iff_le, gt_iff_lt] at sane
      obtain ⟨base, interrupt, address, sclIndex, sdaIndex, sclFunction, sdaFunction, bus, timeout,
        nonzero, divides⟩ := sane
      rw [Bool.and_eq_true, decide_eq_true_eq, decide_eq_true_eq] at valid
      exact ⟨⟨base, interrupt, address, sclIndex, sdaIndex, sclFunction, sdaFunction, timeout⟩,
        ⟨bus, nonzero, divides, valid⟩⟩
  · rintro ⟨fields, timing⟩
    rw [if_neg]
    · exact Bool.and_eq_true_iff.mpr ⟨decide_eq_true timing.divider.1, decide_eq_true timing.divider.2⟩
    · simp only [not_or, not_not, BitVec.not_le, BitVec.not_lt, ne_eq, ge_iff_le, gt_iff_lt]
      exact ⟨fields.base, fields.interrupt, fields.address, fields.sclIndex, fields.sdaIndex,
        fields.sclFunction, fields.sdaFunction, timing.bus, fields.timeout, timing.nonzero,
        timing.divides⟩

/-! ## What the initialisations program -/

/-- The controller's MTPR after a successful `hal_i2c_controller_init`. -/
theorem controller_mtpr {config : I2cController.Config} {driver driver' : I2cController.Driver}
    {t : List I2cController.Access}
    (h : (I2cController.init (some config) driver).Makes t (true, driver')) :
    I2cController.configIsValid (some config) = true ∧
      writesOf .mtpr t = [config.inputClockHz / denominator config.busHz - 1] := by
  simp only [I2cController.init] at h
  split at h
  · simp at h
  next accepted =>
    simp only [makes_store_bind, makes_load_bind, I2cController.clearEvents, makes_pure] at h
    obtain ⟨_, rfl, _, rfl, _, rfl, _, rfl, _, rfl, _, rfl, _, rfl, _, rfl, _, rfl, _, rfl, _, rfl,
      _, rfl, control, _, rfl, _, rfl, rfl, -⟩ := h
    rw [Bool.not_eq_true, Bool.or_eq_false_iff, Bool.not_eq_false'] at accepted
    refine ⟨accepted.2, ?_⟩
    simp [denominator, I2cController.timingDenominator]

/-- The target's MTPR after a successful `hal_i2c_target_init`. -/
theorem target_mtpr {σ κ : Type} {config : I2cTarget.Config} {regmap : Option (Device σ κ)}
    {driver driver' : I2cTarget.Driver σ κ} {t : List I2cTarget.Access}
    (h : (I2cTarget.init (some config) regmap driver).Makes t (true, driver')) :
    (∃ device, regmap = some device ∧
      I2cTarget.configIsValid (some config) (some device) = true) ∧
      writesOf .mtpr t = [config.inputClockHz / denominator config.busHz - 1] := by
  simp only [I2cTarget.init] at h
  split at h
  · simp at h
  next accepted =>
    rw [Bool.not_eq_true, Bool.or_eq_false_iff, Bool.not_eq_false'] at accepted
    cases regmap with
    | none => simp [I2cTarget.configIsValid] at accepted
    | some device =>
      simp only [TargetEngine.init, makes_store_bind, makes_load_bind, makes_pure] at h
      obtain ⟨_, rfl, _, rfl, _, rfl, _, rfl, _, rfl, _, rfl, _, rfl, _, rfl, _, rfl, _, rfl, _, rfl,
        _, rfl, _, rfl, _, rfl, _, rfl, control, _, rfl, _, rfl, rfl, -⟩ := h
      refine ⟨⟨device, rfl, accepted.2⟩, ?_⟩
      simp [denominator, I2cTarget.timingDenominator]

/-! ## Divisions -/

/-- A division as C defines it. -/
def divide (a b : BitVec 32) : Option (BitVec 32) := if b = 0 then none else some (a / b)

def remainder (a b : BitVec 32) : Option (BitVec 32) := if b = 0 then none else some (a % b)

/-- The last two tests of the condition in both validators, after the others
have `rejected`, and what follows. -/
def timingIsValid (rejected : Bool) (inputClockHz denominator : BitVec 32) : Option Bool := do
  if rejected ∨ denominator = 0 then return false
  if (← remainder inputClockHz denominator) ≠ 0 then return false
  let timerDivider ← divide inputClockHz denominator
  return decide (timerDivider > 0) && decide (timerDivider ≤ 128)

theorem timingIsValid_eq (rejected : Bool) (inputClockHz denominator : BitVec 32) :
    timingIsValid rejected inputClockHz denominator =
      some (if rejected ∨ denominator = 0 ∨ inputClockHz % denominator ≠ 0 then false
        else decide (inputClockHz / denominator > 0) && decide (inputClockHz / denominator ≤ 128)) := by
  rw [timingIsValid]
  by_cases early : rejected ∨ denominator = 0
  · rw [if_pos early, if_pos (or_assoc.mp (.inl early))]
    rfl
  · have nonzero : ¬denominator = 0 := fun zero => early (.inr zero)
    rw [if_neg early, remainder, if_neg nonzero, Option.bind_eq_bind, Option.bind_some]
    by_cases whole : inputClockHz % denominator ≠ 0
    · rw [if_pos whole, if_pos (or_assoc.mp (.inr whole))]
      rfl
    · have passed : ¬(rejected ∨ denominator = 0 ∨ inputClockHz % denominator ≠ 0) := fun bad =>
        not_or.mpr ⟨early, whole⟩ (or_assoc.mpr bad)
      rw [if_neg whole, if_neg passed, divide, if_neg nonzero]
      rfl

/-- The tests of the controller's condition before the last two. -/
def controllerRejects (config : I2cController.Config) : Bool :=
  config.instanceBase ≠ I2cController.i2c1Base ∨
    config.sclPincmIndex ≥ I2cController.pincmCount ∨
    config.sdaPincmIndex ≥ I2cController.pincmCount ∨
    config.sclPincmFunction &&& ~~~I2cController.iomuxPf ≠ 0 ∨
    config.sdaPincmFunction &&& ~~~I2cController.iomuxPf ≠ 0 ∨ config.busHz = 0 ∨
    config.pollLimit = 0 ∨ config.sclLowTimeoutCount ≤ 1

/-- The tests of the target's condition before the last two. -/
def targetRejects (config : I2cTarget.Config) : Bool :=
  config.instanceBase ≠ I2cTarget.i2c1Base ∨ config.interruptNumber ≠ I2cTarget.i2c1IntIrqn ∨
    config.ownAddress > 0x7f ∨ config.sclPincmIndex ≥ I2cTarget.pincmCount ∨
    config.sdaPincmIndex ≥ I2cTarget.pincmCount ∨
    config.sclPincmFunction &&& ~~~I2cTarget.iomuxPf ≠ 0 ∨
    config.sdaPincmFunction &&& ~~~I2cTarget.iomuxPf ≠ 0 ∨ config.busHz = 0 ∨
    config.sclLowTimeoutCount ≤ 1

/-- Both validators come to their result without a division by zero, and for
what they accept the divisors of the initialisations are not zero. -/
structure DivisionsDefined : Prop where
  controller : ∀ config,
    timingIsValid (controllerRejects config) config.inputClockHz (denominator config.busHz) =
      some (I2cController.configIsValid (some config))
  target : ∀ {σ κ : Type} config (regmap : Device σ κ),
    timingIsValid (targetRejects config) config.inputClockHz (denominator config.busHz) =
      some (I2cTarget.configIsValid (some config) (some regmap))
  initialised : ∀ inputClockHz busHz, Accepted inputClockHz busHz →
    divide inputClockHz (denominator busHz) = some (inputClockHz / denominator busHz) ∧
      divide inputClockHz busHz = some (inputClockHz / busHz)

theorem divisionsDefined : DivisionsDefined where
  controller config := by
    rw [timingIsValid_eq, I2cController.configIsValid, controllerRejects]
    simp only [decide_eq_true_eq, or_assoc]
    rfl
  target config regmap := by
    rw [timingIsValid_eq, I2cTarget.configIsValid, targetRejects]
    simp only [decide_eq_true_eq, or_assoc]
    rfl
  initialised inputClockHz busHz timing :=
    ⟨if_neg timing.nonzero, if_neg timing.bus⟩

/-! ## Exactness -/

/-- Where a configuration of the controller and one of the target are valid apart
from their timing, both validators accept the same timings; no division by zero
is executed; and what is programmed for an accepted timing is exact just if ten
times the bus rate fits into 32 bits. -/
theorem timing_exact_iff {σ κ : Type} (controller : I2cController.Config)
    (target : I2cTarget.Config) :
    DivisionsDefined ∧
      (∀ regmap : Device σ κ, ControllerFields controller → TargetFields target →
        controller.inputClockHz = target.inputClockHz → controller.busHz = target.busHz →
        I2cController.configIsValid (some controller) =
          I2cTarget.configIsValid (some target) (some regmap)) ∧
      (∀ driver t driver',
        (I2cController.init (some controller) driver).Makes t (true, driver') →
        ∃ mtpr, writesOf .mtpr t = [mtpr] ∧ mtpr.toNat ≤ 127 ∧
          (Exact controller.inputClockHz controller.busHz mtpr ↔
            10 * controller.busHz.toNat < 2 ^ 32)) ∧
      ∀ (regmap : Option (Device σ κ)) driver t driver',
        (I2cTarget.init (some target) regmap driver).Makes t (true, driver') →
        ∃ mtpr, writesOf .mtpr t = [mtpr] ∧ mtpr.toNat ≤ 127 ∧
          (Exact target.inputClockHz target.busHz mtpr ↔ 10 * target.busHz.toNat < 2 ^ 32) := by
  refine ⟨divisionsDefined, ?_, ?_, ?_⟩
  · intro regmap controllerFields targetFields clock bus
    rw [Bool.eq_iff_iff, controller_isValid_iff, target_isValid_iff, clock, bus]
    simp [controllerFields, targetFields]
  · intro driver t driver' initialised
    obtain ⟨valid, programmed⟩ := controller_mtpr initialised
    obtain ⟨-, timing⟩ := (controller_isValid_iff controller).mp valid
    exact ⟨_, programmed, timing.exact_iff⟩
  · intro regmap driver t driver' initialised
    obtain ⟨⟨device, -, valid⟩, programmed⟩ := target_mtpr initialised
    obtain ⟨-, timing⟩ := (target_isValid_iff target device).mp valid
    exact ⟨_, programmed, timing.exact_iff⟩

/-- A controller on I2C1 with this timing. -/
def timed (inputClockHz busHz : BitVec 32) : I2cController.Config :=
  ⟨I2cController.i2c1Base, 0, 0, 1, 0, inputClockHz, busHz, 1, 2⟩

/-- A target on I2C1 with this timing. -/
def timedTarget (inputClockHz busHz : BitVec 32) : I2cTarget.Config :=
  ⟨I2cTarget.i2c1Base, I2cTarget.i2c1IntIrqn, 0, 0, 1, 0, inputClockHz, busHz, 0x42, 2⟩

/-- The controller before its initialisation. -/
def off : I2cController.Driver := ⟨0, 0, 0, 0, false⟩

/-- 400 kHz from 24 MHz. -/
theorem timing_exact_iff_400khz : ∃ t driver' mtpr,
    (I2cController.init (some (timed 24000000 400000)) off).Makes t (true, driver') ∧
      writesOf .mtpr t = [mtpr] ∧ Exact 24000000 400000 mtpr := by
  obtain ⟨t, driver', initialised⟩ : ∃ t driver',
      (I2cController.init (some (timed 24000000 400000)) off).Makes t (true, driver') :=
    ⟨_, _, run_makes _ (Stream'.const 0)⟩
  have both := timing_exact_iff (σ := Empty) (κ := Empty) (timed 24000000 400000)
    (timedTarget 24000000 400000)
  obtain ⟨mtpr, programmed, -, exact_⟩ := both.2.2.1 off t driver' initialised
  exact ⟨t, driver', mtpr, initialised, programmed, exact_.mpr (by decide)⟩

/-- Ten times 429496730 wraps to 4, so that a clock of 4 Hz passes for it. -/
theorem wrapped_timing_accepted : ¬∀ config driver t driver',
    (I2cController.init (some config) driver).Makes t (true, driver') →
      ∃ mtpr, writesOf .mtpr t = [mtpr] ∧ Exact config.inputClockHz config.busHz mtpr := by
  intro always
  obtain ⟨t, driver', initialised⟩ : ∃ t driver',
      (I2cController.init (some (timed 4 429496730)) off).Makes t (true, driver') :=
    ⟨_, _, run_makes _ (Stream'.const 0)⟩
  obtain ⟨mtpr, programmed, exact_⟩ := always _ _ _ _ initialised
  rw [(controller_mtpr initialised).2, List.cons.injEq] at programmed
  rw [← programmed.1] at exact_
  exact absurd exact_ (by decide)

end MspmBaremetal.I2cTiming
