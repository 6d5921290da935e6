import MspmBaremetal.TargetHandler
import MspmBaremetal.Eeprom
import MspmBaremetal.ReadLatch
import MspmBaremetal.I2cTiming

/-!
# Runs of the target's interrupt handler

From a successful `hal_i2c_target_init` on, and whatever I2C1 answers: the error
counters count the interrupts they are for, the driver is the EEPROM of its
register map byte for byte, and a STOP or an error lets every publish through.
-/

namespace MspmBaremetal.I2cTarget

open RegisterProgram Handler

variable {σ κ : Type}

/-- `hal_i2c_target_error_count`. -/
def errorCount (d : Driver σ κ) : BitVec 32 := if d.initialized then d.errorCount else 0

/-- `hal_i2c_target_unexpected_event_count`. -/
def unexpectedEventCount (d : Driver σ κ) : BitVec 32 :=
  if d.initialized then d.unexpectedEventCount else 0

namespace Handler

/-- No interrupt was served since a STOP or an error. -/
def quiet (tr : List (Event σ κ)) : Bool :=
  ((causes tr).filter (· ≠ .noIntr)).getLast?.all Cause.closes

/-- The bytes that a controller of the EEPROM sends, and those it reads. -/
def taken (es : List (Eeprom.Event σ κ)) : List (BitVec 8) :=
  es.filterMap fun
    | .called (.receive value _) => some value
    | _ => none

def given (es : List (Eeprom.Event σ κ)) : List (BitVec 8) :=
  es.filterMap fun
    | .transmitted value => some value
    | _ => none

theorem accesses_append (tr es : List (Event σ κ)) :
    accesses (tr ++ es) = accesses tr ++ accesses es := List.filterMap_append

theorem engineEvents_append (tr es : List (Event σ κ)) :
    engineEvents (tr ++ es) = engineEvents tr ++ engineEvents es := List.filterMap_append

theorem causes_append (tr es : List (Event σ κ)) : causes (tr ++ es) = causes tr ++ causes es := by
  rw [causes, accesses_append, readsOf_append, List.map_append]
  rfl

theorem accesses_turn (t : List Access) (es : List (TargetEngine.Event σ κ)) :
    accesses (t.map .access ++ es.map .engine) = t := by
  simp [accesses, List.filterMap_append, List.filterMap_map]

theorem engineEvents_turn (t : List Access) (es : List (TargetEngine.Event σ κ)) :
    engineEvents (t.map .access ++ es.map .engine) = es := by
  simp [engineEvents, List.filterMap_append, List.filterMap_map]

end Handler

variable [DecidableEq σ] {d d' d₀ driver : Driver σ κ} {tr es : List (Handler.Event σ κ)}

/-! ## A step and a run -/

theorem publish_acts (d : Driver σ κ) (s : σ) (data : Option (Nat → BitVec 8)) (length : BitVec 16) :
    Acts d [] [] ({ d with engine := { d.engine with
        regmap := (d.engine.regmap.publish s data length).1 } },
      (d.engine.regmap.publish s data length).2.1.map .regmap) := by
  constructor
  case engine =>
    have step : (TargetEngine.machine σ κ).step d.engine (.publish s data length) =
        some ({ d.engine with regmap := (d.engine.regmap.publish s data length).1 },
          (d.engine.regmap.publish s data length).2.1.map .regmap) := rfl
    simpa using Machine.Run.start.next step
  case accepted => simp
  case given => exact received_regmap _
  case sent =>
    rw [TargetEngine.transmitted_regmap]
    rfl
  all_goals simp

/-- A step serves at most one interrupt. -/
theorem step_acts {c : Handler.Choice σ} (step : (Handler.machine σ κ).step d c = some (d', es)) :
    Acts d (accesses es) (causes es) (d', engineEvents es) ∧
      (quiet es = true → (causes es).filter (· ≠ .noIntr) ≠ [] → d'.engine.direction = .idle) ∧
      ((causes es).filter (· ≠ .noIntr) = [] → d'.engine.direction = d.engine.direction) := by
  cases c with
  | turn answers queued =>
    simp only [Handler.machine] at step
    split at step
    · obtain ⟨rfl, rfl⟩ := Prod.mk.inj (Option.some.inj step)
      obtain ⟨c, acts, closed, returned⟩ := turn_acts (run_makes (d.turn queued) answers)
      have served : causes (((d.turn queued).run answers).1.map .access ++
          ((d.turn queued).run answers).2.1.2.map (.engine : _ → Handler.Event σ κ)) = [c] := by
        rw [causes, accesses_turn]
        exact acts.interrupts
      rw [accesses_turn, engineEvents_turn, quiet, served]
      refine ⟨acts, ?_⟩
      by_cases nothing : c = .noIntr
      · subst nothing
        exact ⟨fun _ some => absurd rfl some, fun _ => by rw [returned rfl]⟩
      · simp [nothing]
        exact closed
    · obtain ⟨rfl, rfl⟩ := Prod.mk.inj (Option.some.inj step)
      exact ⟨.refl d, fun _ some => absurd rfl some, fun _ => rfl⟩
  | publish s data length =>
    simp only [Handler.machine, Option.some.injEq, Prod.mk.injEq] at step
    obtain ⟨rfl, rfl⟩ := step
    have only := engineEvents_turn (σ := σ) (κ := κ) []
      ((d.engine.regmap.publish s data length).2.1.map .regmap)
    have none := accesses_turn (σ := σ) (κ := κ) []
      ((d.engine.regmap.publish s data length).2.1.map .regmap)
    rw [List.map_nil, List.nil_append, List.map_map] at only none
    rw [causes, none, only]
    exact ⟨publish_acts d s data length, fun _ some => absurd rfl some, fun _ => rfl⟩

theorem run_acts (run : (Handler.machine σ κ).Run d₀ tr d) :
    Acts d₀ (accesses tr) (causes tr) (d, engineEvents tr) := by
  apply run.invariant (P := fun tr d => Acts d₀ (accesses tr) (causes tr) (d, engineEvents tr))
    (.refl d₀)
  intro tr d c es d' h step
  rw [accesses_append, causes_append, engineEvents_append]
  exact h.trans (step_acts step).1

theorem run_quiet (start : d₀.engine.direction = .idle) (run : (Handler.machine σ κ).Run d₀ tr d)
    (last : quiet tr = true) : d.engine.direction = .idle := by
  revert last
  apply run.invariant (P := fun tr d => quiet tr = true → d.engine.direction = .idle) fun _ => start
  intro tr d c es d' h step last
  obtain ⟨-, closed, same⟩ := step_acts step
  rw [quiet, causes_append, List.filter_append] at last
  by_cases none : (causes es).filter (· ≠ .noIntr) = []
  · rw [none, List.append_nil] at last
    rw [same none]
    exact h last
  · rw [List.getLast?_append_of_ne_nil _ none] at last
    exact closed last none

/-! ## A driver with one page -/

/-- The driver before and after its initialisation for 100 kHz from 32 MHz. -/
def offDriver : Driver Unit Unit := ⟨0, TargetEngine.sample, 0, 0, false, false⟩

def sampleDriver : Driver Unit Unit := ⟨i2c1Base, TargetEngine.sample, 0, 0, true, false⟩

def sampleMap : Regmap Unit Unit := ⟨TargetEngine.samplePages, 0, none, false⟩

theorem sampleMap_accepted : Regmap.init TargetEngine.sampleHeap (some sampleMap)
    (some TargetEngine.samplePages) = some sampleMap := rfl

theorem sampleDriver_ready : ∃ t, (init (some (I2cTiming.timedTarget 32000000 100000))
    (some ⟨TargetEngine.sampleHeap, sampleMap⟩) offDriver).Makes t (true, sampleDriver) :=
  ⟨_, run_makes _ (Stream'.const 0)⟩

def turnWith {σ : Type} (answers : List (BitVec 32)) : Handler.Choice σ :=
  .turn (fun k => answers.getD k 0) true

/-- A write of the page's address, the first byte of a read, and two errors. -/
theorem sampleDriver_run : ∃ tr d, (Handler.machine Unit Unit).Run sampleDriver tr d ∧
    causes tr = [.sstart, .srxdone, .srxdone, .sstart, .stxdone, .timeoutA, .unexpected, .noIntr] ∧
    writesOf .stxdata (accesses tr) = [0x10] := by
  obtain ⟨d, tr, run, shown⟩ := Machine.exec_shows (Handler.machine Unit Unit) sampleDriver
    [turnWith [0x17], turnWith [0x11, 0, 0x01], turnWith [0x11, 0, 0x02], turnWith [0x17],
      turnWith [0x12, 0x2, 0], turnWith [0x0f], turnWith [0x05], turnWith [0]]
    (fun reached => (causes reached.2, writesOf .stxdata (accesses reached.2)))
    ([.sstart, .srxdone, .srxdone, .sstart, .stxdone, .timeoutA, .unexpected, .noIntr], [0x10])
    (by decide +kernel)
  obtain ⟨served, sent⟩ := Prod.mk.inj shown
  exact ⟨tr, d, run, served, sent⟩

/-! ## From the initialisation on -/

section Ready

variable {config : Option Config} {regmap : Option (Device σ κ)} {t : List I2cTarget.Access}

omit [DecidableEq σ] in
theorem init_ready (ready : (init config regmap driver).Makes t (true, d₀)) :
    d₀.initialized = true ∧ d₀.errorCount = 0 ∧ d₀.unexpectedEventCount = 0 ∧
      TargetEngine.init (some driver.engine) regmap = some d₀.engine := by
  cases config with
  | none => simp [init] at ready
  | some config =>
    simp only [init] at ready
    split at ready
    · simp at ready
    · split at ready
      · simp at ready
      next engine started =>
        simp only [makes_store_bind, makes_load_bind, makes_pure] at ready
        obtain ⟨_, rfl, _, rfl, _, rfl, _, rfl, _, rfl, _, rfl, _, rfl, _, rfl, _, rfl, _, rfl, _, rfl,
          _, rfl, _, rfl, _, rfl, _, rfl, control, _, rfl, _, rfl, rfl, same⟩ := ready
        obtain rfl : d₀ = _ := (Prod.mk.inj same).2
        exact ⟨rfl, rfl, rfl, started⟩

/-- Each error interrupt is counted, and each one that the driver does not know in
both counters; a received byte never is, for the engine refuses none. -/
theorem errors_counted (ready : (init config regmap driver).Makes t (true, d₀))
    (run : (Handler.machine σ κ).Run d₀ tr d) :
    errorCount d = BitVec.ofNat 32 ((causes tr).countP Cause.aborts) ∧
      unexpectedEventCount d = BitVec.ofNat 32 ((causes tr).count .unexpected) ∧
      .received false ∉ engineEvents tr := by
  obtain ⟨initialized, noErrors, noUnexpected, -⟩ := init_ready ready
  have acts := run_acts run
  have still : d.initialized = true := acts.initialized.trans initialized
  have errors := acts.errorCount
  have unexpected := acts.unexpectedEventCount
  rw [noErrors, show (0 : BitVec 32) = 0#32 from rfl, BitVec.zero_add] at errors
  rw [noUnexpected, show (0 : BitVec 32) = 0#32 from rfl, BitVec.zero_add] at unexpected
  exact ⟨(if_pos still).trans errors, (if_pos still).trans unexpected, acts.accepted⟩

theorem errors_counted_sample : ∃ tr d, (Handler.machine Unit Unit).Run sampleDriver tr d ∧
    errorCount d = 2 ∧ unexpectedEventCount d = 1 := by
  obtain ⟨tr, d, run, served, -⟩ := sampleDriver_run
  obtain ⟨t, ready⟩ := sampleDriver_ready
  obtain ⟨errors, unexpected, -⟩ := errors_counted ready run
  rw [served] at errors unexpected
  exact ⟨tr, d, run, errors, unexpected⟩

variable {heap : σ → Snapshot} {pages : List (Page σ κ)} {givenMap : Option (Regmap σ κ)}
  {r : Regmap σ κ}

omit [DecidableEq σ] in
theorem ready_initial (accepted : Regmap.init heap givenMap (some pages) = some r)
    (ready : (init config (some ⟨heap, r⟩) driver).Makes t (true, d₀)) :
    TargetEngine.Initial heap pages d₀.engine :=
  ⟨r, givenMap, some driver.engine, accepted, (init_ready ready).2.2.2⟩

/-- After a STOP or an error no snapshot refuses a publish. -/
theorem handler_releases (accepted : Regmap.init heap givenMap (some pages) = some r)
    (sole : TargetEngine.SoleReader heap pages)
    (ready : (init config (some ⟨heap, r⟩) driver).Makes t (true, d₀))
    (run : (Handler.machine σ κ).Run d₀ tr d) (last : quiet tr = true) :
    ∀ s ∈ TargetEngine.snapshots pages, ∀ data, TargetEngine.accepted d.engine s data = true := by
  intro s mem data
  have initial := ready_initial accepted ready
  have idle := run_quiet (by rw [initial.eq.2]) run last
  have accounted := TargetEngine.run_accounted initial sole (run_acts run).engine
  have alone : TargetEngine.Sole (TargetEngine.initialReaders heap) pages := by
    intro s mem b
    obtain ⟨page, listed, source⟩ := TargetEngine.mem_snapshots.mp mem
    simp [TargetEngine.initialReaders, sole page listed s source b]
  by_contra refused
  obtain ⟨transmitting, -⟩ :=
    (accounted.accepted_iff alone mem data).mp (Bool.eq_false_of_not_eq_true refused)
  rw [idle] at transmitting
  cases transmitting

theorem handler_releases_sample : ∃ tr d, (Handler.machine Unit Unit).Run sampleDriver tr d ∧
    ∀ data, TargetEngine.accepted d.engine () data = true := by
  obtain ⟨tr, d, run, served, -⟩ := sampleDriver_run
  obtain ⟨t, ready⟩ := sampleDriver_ready
  exact ⟨tr, d, run, handler_releases sampleMap_accepted TargetEngine.sample_soleReader ready run
    (by rw [quiet, served]; rfl) () (by decide)⟩

end Ready

end MspmBaremetal.I2cTarget
