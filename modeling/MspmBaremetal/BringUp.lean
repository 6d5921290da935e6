import MspmBaremetal.BaudDivisor
import MspmBaremetal.Diagnostics
import MspmBaremetal.I2c1

/-!
# Bringing up the demo

`main` of `i2c_regmap_demo` up to its loop, on any hardware. Only the watchdog
can keep it from its loop, and every rate is right for the clock that was
selected, the fallback included.
-/

namespace MspmBaremetal

open RegisterProgram

namespace Board

variable {σ κ : Type} {b b' : Board σ κ} {t : List Access}

/-- However 32 MHz was tried, the clock is the one reported. -/
theorem fallback_makes {tried : Clock.Program Bool} {mclkHz : BitVec 32} {selected : Bool}
    {t : List (RegisterProgram.Access Clock.Register (BitVec 32))}
    (h : Makes (do
      if ← tried then pure (true, Clock.maxHz)
      else do
        let _ ← Clock.setSysoscFrequency Clock.sysosccfgFreq4M Clock.clkstatusSysosc4M
        pure (false, Clock.safeHz)) t (selected, mclkHz)) :
    mclkHz = if selected then Clock.maxHz else Clock.safeHz := by
  rw [makes_bind] at h
  obtain ⟨_, base, _, -, -, h⟩ := h
  cases base with
  | true =>
    obtain ⟨-, same⟩ := h
    obtain ⟨rfl, rfl⟩ := Prod.mk.inj same
    rfl
  | false =>
    simp only [Bool.false_eq_true, if_false, makes_bind, makes_pure] at h
    obtain ⟨_, _, _, -, -, -, same⟩ := h
    obtain ⟨rfl, rfl⟩ := Prod.mk.inj same
    rfl

theorem clock_makes {requestedHz mclkHz : BitVec 32} {selected : Bool}
    {t : List (RegisterProgram.Access Clock.Register (BitVec 32))}
    (h : (Clock.init requestedHz).Makes t (selected, mclkHz)) :
    mclkHz = if selected then Clock.maxHz else Clock.safeHz := by
  rw [Clock.init, makes_bind] at h
  obtain ⟨_, _, _, -, -, h⟩ := h
  split at h
  · exact fallback_makes h
  · exact fallback_makes h

/-- The UART accepts its configuration at either clock. -/
theorem uart_accepts {mclkHz : BitVec 32} (clocked : Clocked mclkHz) (queue : Ringbuf)
    (capacity : queue.capacity = uartTxQueueCapacity) (r : Uart.Registers) :
    ∃ r', Uart.txInit (some (uart0Tx mclkHz)) (some queue) r = some r' ∧
      ((64 * r'.ibrd.toNat + r'.fbrd.toNat : Nat) : Int) =
        Uart.nearestDivisor mclkHz.toNat backchannelBaud.toNat := by
  obtain ⟨r', accepted⟩ : ∃ r', Uart.txInit (some (uart0Tx mclkHz)) (some queue) r = some r' := by
    simp only [Uart.txInit, Option.bind_eq_bind, Option.bind_some, capacity]
    rcases clocked with rfl | rfl
    all_goals exact ⟨_, rfl⟩
  obtain ⟨divisor, divided, ibrd, fbrd⟩ := Uart.txInit_divisor accepted
  refine ⟨r', accepted, ?_⟩
  rw [ibrd, fbrd, ← Uart.scaledDivisor_toNat]
  rcases clocked with rfl | rfl
  all_goals
    cases divided
    decide

/-- What `board_init` leaves: the fallback is reported, and nothing fails. -/
structure Initialised (b b' : Board σ κ) (t : List Access) (result : InitResult) : Prop where
  clock : result = .ok ∧ b'.mclkHz = 32000000 ∨ result = .clockFallback ∧ b'.mclkHz = 4000000
  uart : ((64 * b'.uart.ibrd.toNat + b'.uart.fbrd.toNat : Nat) : Int) =
    Uart.nearestDivisor b'.mclkHz.toNat backchannelBaud.toNat
  queue : b'.uartTxQueue = ⟨b.uartTxStorage, 64, 63, 0, 0, 0⟩
  i2c1 : b'.i2c1Claimed = b.i2c1Claimed ∧ b'.target = b.target ∧ b'.controller = b.controller
  lit : writesOf (.gpio gpioaBase .doutset) t = []
  untouched : readsOf (.wwdt .wwdtstat) t = [] ∧ writesOf (.systick .load) t = [] ∧
    writesOf (.target .mtpr) t = []

theorem Initialised.clocked {result : InitResult} (h : Initialised b b' t result) :
    Clocked b'.mclkHz := by
  rcases h.clock with ⟨-, clock⟩ | ⟨-, clock⟩
  · exact .inl clock
  · exact .inr clock

/-- No application stops at `board_init`. -/
theorem Initialised.passed {result : InitResult} (h : Initialised b b' t result) :
    ¬(result = .gpioFailure ∨ result = .uartFailure) := by
  rcases h.clock with ⟨rfl, -⟩ | ⟨rfl, -⟩
  all_goals decide

/-- The empty queue of the backchannel. -/
def emptyQueue (storage : Nat → BitVec 8) : Ringbuf := ⟨storage, 64, 63, 0, 0, 0⟩

theorem boardInit_makes {result : InitResult} (h : b.boardInit.Makes t (result, b')) :
    Initialised b b' t result := by
  rw [boardInit, makes_bind] at h
  obtain ⟨_, ⟨selected, mclkHz⟩, t₂, rfl, clocked, h⟩ := h
  rw [makes_within] at clocked
  obtain ⟨t₁, rfl, clocked⟩ := clocked
  have clock := clock_makes clocked
  have either : Clocked mclkHz := by
    cases selected
    · exact .inr clock
    · exact .inl clock
  obtain ⟨uart, accepted, divisor⟩ :=
    uart_accepts either (emptyQueue b.uartTxStorage) rfl b.uart
  obtain ⟨_, rfl, _, rfl, _, rfl, _, rfl, _, rfl, _, rfl, _, rfl, h⟩ := h
  have filled : Ringbuf.init (some b.uartTxQueue) (some b.uartTxStorage) uartTxQueueCapacity =
      some (emptyQueue b.uartTxStorage) := rfl
  simp only [RegisterProgram.bind, filled, accepted] at h
  obtain ⟨rfl, same⟩ := h
  obtain ⟨rfl, rfl⟩ := Prod.mk.inj same
  constructor
  case clock =>
    cases selected
    · exact .inr ⟨rfl, clock⟩
    · exact .inl ⟨rfl, clock⟩
  case uart => exact divisor
  case queue => rfl
  case i2c1 => exact ⟨rfl, rfl, rfl⟩
  case lit => simp [writesOf_within_of_ne, redLed]
  case untouched => simp [writesOf_within_of_ne, readsOf_within_of_ne]

theorem timer_makes {ok : Bool} {mclkHz nowMs now : BitVec 32} (clocked : Clocked mclkHz)
    (h : (timerInit1ms mclkHz nowMs).Makes t (ok, now)) : ok = true ∧ now = 0 ∧
      t = [.write (.systick .load) (mclkHz / 1000 - 1), .write (.systick .val) 0,
        .write (.systick .ctrl) 0x7] ∧
      ((mclkHz / 1000 - 1).toNat + 1) * 1000 = mclkHz.toNat := by
  rcases clocked with rfl | rfl
  all_goals
    obtain ⟨_, rfl, _, rfl, _, rfl, rfl, same⟩ := h
    obtain ⟨rfl, rfl⟩ := Prod.mk.inj same
    exact ⟨rfl, rfl, rfl, rfl⟩

/-- The watchdog is initialised exactly if it reports that it runs. -/
theorem wdt_makes {running : Bool} (h : wdtInit.Makes t (running : Bool)) :
    ∃ status, readsOf (.wwdt .wwdtstat) t = [status] ∧ (running = true ↔ status &&& 0x1 = 0x1) ∧
      writesOf (.systick .load) t = [] ∧ writesOf (.target .mtpr) t = [] ∧
      writesOf (.gpio gpioaBase .doutset) t = [] := by
  obtain ⟨_, rfl, _, rfl, _, rfl, _, rfl, _, rfl, status, _, rfl, rfl, rfl⟩ := h
  exact ⟨status, rfl, decide_eq_true_iff, rfl, rfl, rfl⟩

/-- The claim is granted and kept. -/
theorem i2c1TargetInit_granted {regmap : Device σ κ} (clocked : Clocked b.mclkHz)
    (free : b.i2c1Claimed = false) (off : b.target.initialized = false) {ready : Bool}
    (h : (b.i2c1TargetInit (some regmap)).Makes t (ready, b')) :
    ready = true ∧ b' = { b with
      i2c1Claimed := true
      target := ⟨I2cTarget.i2c1Base, ⟨regmap, 0, 0, .idle⟩, 0, 0, true, false⟩ } ∧
      ∃ t₁, t = t₁.map (.within .target) ∧
        writesOf .mtpr t₁ = [b.mclkHz / I2cTiming.denominator 100000 - 1] := by
  obtain ⟨taken, -⟩ | ⟨-, t₁, target, rfl, initialised, rfl⟩ := i2c1TargetInit_makes h
  · rw [free] at taken
    cases taken
  · obtain ⟨rfl, rfl⟩ := I2cTarget.init_accepts (i2c1Target_valid clocked regmap).1 off initialised
    exact ⟨rfl, rfl, t₁, rfl, (I2cTiming.target_mtpr initialised).2⟩

end Board

namespace RegmapDemo

open Board (Program)

/-- `i2c_regmap_demo_init`, with `board_i2c1_target_init`. -/
def initTarget (buildinfo : BuildInfo) (old : Nat → BitVec 8) (record : Crash.Record)
    (stack : Nat → BitVec 8) (b : Board PageName Empty) : Program (Bool × Board PageName Empty) :=
  match init (ι := Unit) (deviceInfo buildinfo old) record stack with
  | none => pure (false, b)
  | some sys => b.i2c1TargetInit (some ⟨sys.world.heap, sys.world.regmap ()⟩)

/-- `i2c_regmap_demo_fail`, which then waits for interrupts for ever. -/
def fail (b : Board PageName Empty) : Program (Bool × Board PageName Empty) := do
  Board.ledRedSet true
  pure (false, b)

/-- `main` up to its loop; `false` if it never gets there. -/
def start (buildinfo : BuildInfo) (old : Nat → BitVec 8) (record : Crash.Record)
    (stack : Nat → BitVec 8) (b : Board PageName Empty) :
    Program (Bool × Board PageName Empty) := do
  let (initResult, b) ← b.boardInit
  if initResult = .gpioFailure ∨ initResult = .uartFailure then fail b
  else do
    let (timed, nowMs) ← Board.timerInit1ms b.mclkHz b.nowMs
    let b := { b with nowMs }
    if !timed then fail b
    else do
      let (ready, b) ← initTarget buildinfo old record stack b
      if !ready then fail b
      else if !(← Board.wdtInit) then fail b
      else pure (true, b)

/-- Every rate is the one meant, at whichever clock was selected. -/
structure Timed (b : Board PageName Empty) (t : List Board.Access) : Prop where
  clock : b.mclkHz = 32000000 ∨ b.mclkHz = 4000000
  baud : ((64 * b.uart.ibrd.toNat + b.uart.fbrd.toNat : Nat) : Int) =
    Uart.nearestDivisor b.mclkHz.toNat 115200
  tick : ∃ reload, writesOf (.systick .load) t = [reload] ∧
    (reload.toNat + 1) * 1000 = b.mclkHz.toNat
  bus : ∃ mtpr, writesOf (.target .mtpr) t = [mtpr] ∧
    10 * 100000 * (mtpr.toNat + 1) = b.mclkHz.toNat

section Start

variable {value : List Char} {major minor : Nat} {old : Nat → BitVec 8} {record : Crash.Record}
  {stack : Nat → BitVec 8} {b b' : Board PageName Empty} {t : List Board.Access} {up : Bool}

theorem finish_makes {running : Bool}
    (h : Makes (if !running then fail b else pure (true, b)) t (up, b')) : up = running ∧ b' = b ∧
      t = if running then [] else [.write (.gpio Board.gpioaBase .doutset) 0x1] := by
  cases running with
  | true =>
    obtain ⟨rfl, same⟩ := h
    exact ⟨(Prod.mk.inj same).1, (Prod.mk.inj same).2, rfl⟩
  | false =>
    obtain ⟨_, rfl, rfl, same⟩ := h
    exact ⟨(Prod.mk.inj same).1, (Prod.mk.inj same).2, rfl⟩

theorem start_makes (accepted : ImageTool.parseBcdVersion value = .ok (major, minor))
    (free : b.i2c1Claimed = false) (off : b.target.initialized = false)
    (h : (start (.ofVersion major minor) old record stack b).Makes t (up, b')) :
    ∃ sys : System Unit, init (deviceInfo (.ofVersion major minor) old) record stack = some sys ∧
      b'.target = ⟨I2cTarget.i2c1Base, targetEngine sys (), 0, 0, true, false⟩ ∧ Timed b' t ∧
      (∃ status, readsOf (.wwdt .wwdtstat) t = [status] ∧
        (up = true ↔ status &&& 0x1 = 0x1)) ∧
      writesOf (.gpio Board.gpioaBase .doutset) t = if up then [] else [1] := by
  obtain ⟨info, written, -⟩ := deviceInfo_valid (BuildInfo.ofVersion_valid accepted) old
  obtain ⟨sys, started⟩ := init_some (ι := Unit) info record stack
  rw [← written] at started
  refine ⟨sys, started, ?_⟩
  rw [start, makes_bind] at h
  obtain ⟨t₁, ⟨initResult, b₁⟩, _, rfl, initialised, h⟩ := h
  have board := Board.boardInit_makes initialised
  have clocked := board.clocked
  obtain ⟨claimed, target, controller⟩ := board.i2c1
  dsimp only at h
  rw [if_neg board.passed, makes_bind] at h
  obtain ⟨t₂, ⟨timed, nowMs⟩, _, rfl, ticking, h⟩ := h
  obtain ⟨rfl, rfl, rfl, tick⟩ := Board.timer_makes clocked ticking
  simp only [Bool.not_true, Bool.false_eq_true, if_false, makes_bind, initTarget, started] at h
  obtain ⟨t₃, ⟨ready, b₂⟩, _, rfl, claim, h⟩ := h
  obtain ⟨rfl, rfl, t₃, rfl, bus⟩ := Board.i2c1TargetInit_granted (b := { b₁ with nowMs := 0 })
    clocked (claimed.trans free) (by rw [target, off]) claim
  simp only [Bool.not_true, Bool.false_eq_true, if_false, makes_bind] at h
  obtain ⟨t₄, running, t₅, rfl, watched, h⟩ := h
  obtain ⟨status, read, runs, unticked, unprogrammed, dark⟩ := Board.wdt_makes watched
  obtain ⟨rfl, rfl, rfl⟩ := finish_makes h
  obtain ⟨unread, noReload, noTimer⟩ := board.untouched
  refine ⟨rfl, ⟨clocked, board.uart, ?_, ?_⟩, ⟨status, ?_, runs⟩, ?_⟩
  · refine ⟨_, ?_, tick⟩
    simp only [writesOf_append, noReload, unticked]
    rw [writesOf_within_of_ne fun _ => Board.Register.noConfusion]
    split <;> rfl
  · refine ⟨_, ?_, (Board.i2c1Target_valid clocked ⟨sys.world.heap, sys.world.regmap ()⟩).2⟩
    simp only [writesOf_append, noTimer, unprogrammed]
    rw [writesOf_within fun _ _ => Board.Register.target.inj, bus]
    split <;> rfl
  · simp only [readsOf_append, unread, read]
    rw [readsOf_within_of_ne fun _ => Board.Register.noConfusion]
    split <;> rfl
  · simp only [writesOf_append, board.lit, dark]
    rw [writesOf_within_of_ne fun _ => Board.Register.noConfusion]
    split <;> rfl

/-- Whatever the hardware answers, the demo's rates are right, and it reaches its
loop exactly if the watchdog reports that it runs; the red LED tells otherwise. -/
theorem bring_up (accepted : ImageTool.parseBcdVersion value = .ok (major, minor))
    (free : b.i2c1Claimed = false) (off : b.target.initialized = false)
    (h : (start (.ofVersion major minor) old record stack b).Makes t (up, b')) :
    Timed b' t ∧
      (∃ status, readsOf (.wwdt .wwdtstat) t = [status] ∧
        (up = true ↔ status &&& 0x1 = 0x1)) ∧
      writesOf (.gpio Board.gpioaBase .doutset) t = if up then [] else [1] := by
  obtain ⟨_, -, -, timed, watched, lit⟩ := start_makes accepted free off h
  exact ⟨timed, watched, lit⟩

/-- The variables as `Reset_Handler` leaves them. -/
def atReset : Board PageName Empty where
  mclkHz := Clock.safeHz
  nowMs := 0
  uart := ⟨0, 0, 0, 0, 0, 0, 0, fun _ => 0, 0, false, 0⟩
  uartTxStorage := fun _ => 0
  uartTxQueue := ⟨fun _ => 0, 0, 0, 0, 0, 0⟩
  i2c1Claimed := false
  target := ⟨0, ⟨⟨initialHeap (fun _ => 0) fun _ => 0, ⟨[], 0, none, false⟩⟩, 0, 0, .idle⟩, 0, 0, false, false⟩
  controller := ⟨0, 0, 0, 0, false⟩

/-- The version of the witnesses. -/
theorem sampleVersion : ImageTool.parseBcdVersion ['0', '1', '.', '2', '9'] = .ok (0x01, 0x29) := by
  decide

/-- The start of the witnesses. -/
def sampleStart (record : Crash.Record) : Program (Bool × Board PageName Empty) :=
  start (.ofVersion 0x01 0x29) (fun _ => 0) record (fun _ => 0) atReset

/-- 32 MHz at the first status, and a watchdog that runs. -/
def sampleStatuses : Stream' (BitVec 32) := fun n => if n = 5 then 1 else 0

def noRecord : Crash.Record := ⟨0, 0, 0, 0, 0, 0, 0, 0, 0⟩

theorem sampleStart_up (record : Crash.Record) (answers : Stream' (BitVec 32)) {up : Bool}
    {mclkHz : BitVec 32} (shown : (((sampleStart record).run answers).2.1.1,
      ((sampleStart record).run answers).2.1.2.mclkHz) = (up, mclkHz)) :
    ∃ t b', (sampleStart record).Makes t (up, b') ∧ b'.mclkHz = mclkHz := by
  obtain ⟨rfl, rfl⟩ := Prod.mk.inj shown
  exact ⟨_, _, run_makes (sampleStart record) answers, rfl⟩

/-- 32 MHz may never be reached. -/
theorem clock_falls_back :
    ∃ t, (Clock.init Board.boardMclkHz).Makes t (false, Clock.safeHz) := by
  obtain ⟨t, selected, rest, ran, passed⟩ := Clock.setSysoscFrequency_onBank (fun _ => 0)
    (Stream'.const 1) Clock.sysosccfgFreqBase Clock.clkstatusSysosc32M
  have missed : selected = false := by
    apply Bool.eq_false_iff.mpr
    intro shown
    obtain ⟨k, -, ready⟩ := passed.mp shown
    change Clock.ready Clock.clkstatusSysosc32M 1 = true at ready
    exact absurd ready (by decide)
  have tried := onBank_makes Clock.isStatus
    (Clock.setSysoscFrequency Clock.sysosccfgFreqBase Clock.clkstatusSysosc32M) (fun _ => 0)
    (Stream'.const 1)
  rw [ran, missed] at tried
  have slowed := run_makes
    (Clock.setSysoscFrequency Clock.sysosccfgFreq4M Clock.clkstatusSysosc4M) (Stream'.const 1)
  exact ⟨_, (makes_bind _ _ _ _).mpr ⟨_, _, _, rfl,
    run_makes Clock.selectSysoscDiv1 (Stream'.const 1), (makes_bind _ _ _ _).mpr ⟨_, _, _, rfl, tried,
      (makes_bind _ _ _ _).mpr ⟨_, _, _, rfl, slowed, rfl, rfl⟩⟩⟩⟩

/-- The demo comes up at 4 MHz if the watchdog runs. -/
theorem sampleStart_fallback :
    ∃ t b', (sampleStart noRecord).Makes t (true, b') ∧ b'.mclkHz = 4000000 := by
  obtain ⟨t, clocked⟩ := clock_falls_back
  have board : atReset.boardInit.Makes _ _ := (makes_bind _ _ _ _).mpr
    ⟨_, _, _, rfl, (makes_within _ _ _ _).mpr ⟨t, rfl, clocked⟩, run_makes _ (Stream'.const 1)⟩
  have starts : (sampleStart noRecord).Makes _ _ :=
    (makes_bind _ _ _ _).mpr ⟨_, _, _, rfl, board, run_makes _ (Stream'.const 1)⟩
  exact ⟨_, _, starts, rfl⟩

/-- A running watchdog at 32 MHz and at the fallback, and one that does not run. -/
theorem bring_up_sample :
    (∃ t b', (sampleStart noRecord).Makes t (true, b') ∧ b'.mclkHz = 32000000 ∧ Timed b' t ∧
      writesOf (.gpio Board.gpioaBase .doutset) t = []) ∧
    (∃ t b', (sampleStart noRecord).Makes t (true, b') ∧ b'.mclkHz = 4000000 ∧ Timed b' t ∧
      writesOf (.gpio Board.gpioaBase .doutset) t = []) ∧
    ∃ t b', (sampleStart noRecord).Makes t (false, b') ∧ Timed b' t ∧
      writesOf (.gpio Board.gpioaBase .doutset) t = [1] := by
  obtain ⟨t₁, b₁, runs, fast⟩ := @sampleStart_up noRecord sampleStatuses true 32000000
    (by decide +kernel)
  obtain ⟨t₂, b₂, falls, slow⟩ := sampleStart_fallback
  obtain ⟨t₃, b₃, stops, -⟩ := @sampleStart_up noRecord (Stream'.const 0) false 32000000
    (by decide +kernel)
  obtain ⟨timed₁, -, dark₁⟩ := bring_up sampleVersion rfl rfl runs
  obtain ⟨timed₂, -, dark₂⟩ := bring_up sampleVersion rfl rfl falls
  obtain ⟨timed₃, -, lit⟩ := bring_up sampleVersion rfl rfl stops
  exact ⟨⟨t₁, b₁, runs, fast, timed₁, dark₁⟩, ⟨t₂, b₂, falls, slow, timed₂, dark₂⟩,
    t₃, b₃, stops, timed₃, lit⟩

end Start

/-! ## What the demo serves -/

section Serves

open Startup Crash

variable {info : Nat → BitVec 8} {record : Record} {stack : Nat → BitVec 8} {sys : System Unit}

end Serves

end RegmapDemo

end MspmBaremetal
