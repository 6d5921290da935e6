import MspmBaremetal.Board
import MspmBaremetal.ControllerTransfers
import MspmBaremetal.TargetHandlerRuns

/-!
# Who drives I2C1

The target and the controller share one peripheral. In every order of their
initialisations, of the target's interrupts and of the controller's transfers,
`board_i2c1_claim` lets only one of them touch it.
-/

namespace MspmBaremetal

open RegisterProgram

variable {σ κ : Type}

/-! ## One initialisation -/

namespace I2cTarget

variable {config : Config} {regmap : Option (Device σ κ)} {d d' : Driver σ κ} {ready : Bool}
  {t : List I2cTarget.Access}

theorem init_refuses (refused : d.initialized = true ∨ configIsValid (some config) regmap = false)
    (h : (init (some config) regmap d).Makes t (ready, d')) : ready = false ∧ d' = d ∧ t = [] := by
  have guard : (d.initialized || !configIsValid (some config) regmap) = true := by
    simpa using refused
  simp only [init, guard, if_true, makes_pure] at h
  obtain ⟨rfl, same⟩ := h
  exact ⟨(Prod.mk.inj same).1, (Prod.mk.inj same).2, rfl⟩

theorem init_accepts {regmap : Device σ κ} (valid : configIsValid (some config) (some regmap) = true)
    (off : d.initialized = false) (h : (init (some config) (some regmap) d).Makes t (ready, d')) :
    ready = true ∧ d' = ⟨config.instanceBase, ⟨regmap, 0, 0, .idle⟩, 0, 0, true, false⟩ := by
  rw [init, off, valid] at h
  obtain ⟨_, rfl, _, rfl, _, rfl, _, rfl, _, rfl, _, rfl, _, rfl, _, rfl, _, rfl, _, rfl, _, rfl,
    _, rfl, _, rfl, _, rfl, _, rfl, control, _, rfl, _, rfl, rfl, same⟩ := h
  obtain ⟨rfl, rfl⟩ := Prod.mk.inj same
  exact ⟨rfl, rfl⟩

/-- A refused initialisation touches nothing. -/
theorem init_cases (h : (init (some config) regmap d).Makes t (ready, d')) :
    ready = true ∧ d'.initialized = true ∨ ready = false ∧ d' = d ∧ t = [] := by
  cases off : d.initialized with
  | true => exact .inr (init_refuses (.inl off) h)
  | false =>
    cases valid : configIsValid (some config) regmap with
    | false => exact .inr (init_refuses (.inr valid) h)
    | true =>
      cases regmap with
      | none => cases valid
      | some regmap =>
        obtain ⟨accepted, rfl⟩ := init_accepts valid off h
        exact .inl ⟨accepted, rfl⟩

/-- An interrupt before the initialisation touches nothing. -/
theorem off_untouched [DecidableEq σ] {choice : Handler.Choice σ} {es : List (Handler.Event σ κ)}
    (off : d.initialized = false) (step : (Handler.machine σ κ).step d choice = some (d', es)) :
    Handler.accesses es = [] := by
  cases choice with
  | turn answers queued =>
    simp only [Handler.machine, off, Bool.false_eq_true, if_false, Option.some.injEq] at step
    rw [← (Prod.mk.inj step).2]
    rfl
  | publish s data length =>
    simp only [Handler.machine, Option.some.injEq, Prod.mk.injEq] at step
    rw [← step.2, ← List.map_map]
    exact Handler.accesses_turn [] _

end I2cTarget

namespace I2cController

variable {config : Config} {d d' : Driver} {ready : Bool} {t : List I2cController.Access}

theorem init_refuses (refused : d.initialized = true ∨ configIsValid (some config) = false)
    (h : (init (some config) d).Makes t (ready, d')) : ready = false ∧ d' = d ∧ t = [] := by
  have guard : (d.initialized || !configIsValid (some config)) = true := by simpa using refused
  simp only [init, guard, if_true, makes_pure] at h
  obtain ⟨rfl, same⟩ := h
  exact ⟨(Prod.mk.inj same).1, (Prod.mk.inj same).2, rfl⟩

theorem init_accepts (valid : configIsValid (some config) = true) (off : d.initialized = false)
    (h : (init (some config) d).Makes t (ready, d')) : ready = true ∧ d'.initialized = true := by
  rw [init, off, valid] at h
  obtain ⟨_, rfl, _, rfl, _, rfl, _, rfl, _, rfl, _, rfl, _, rfl, _, rfl, _, rfl, _, rfl, _, rfl,
    _, rfl, control, _, rfl, _, rfl, rfl, same⟩ := h
  obtain ⟨rfl, rfl⟩ := Prod.mk.inj same
  exact ⟨rfl, rfl⟩

theorem init_cases (h : (init (some config) d).Makes t (ready, d')) :
    ready = true ∧ d'.initialized = true ∨ ready = false ∧ d' = d ∧ t = [] := by
  cases off : d.initialized with
  | true => exact .inr (init_refuses (.inl off) h)
  | false =>
    cases valid : configIsValid (some config) with
    | false => exact .inr (init_refuses (.inr valid) h)
    | true => exact .inl (init_accepts valid off h)

theorem perform_refuses {call : Call} {memory memory' : Memory} {result : Result}
    (off : d.initialized = false)
    (h : (call.perform d memory).Makes t (result, d', memory')) : d' = d ∧ t = [] := by
  have refused : call.perform d memory = pure (.notInitialized, d, memory) := by
    cases call with
    | write => simp [Call.perform, write, off]
    | read => simp [Call.perform, read, off]
    | writeRead => simp [Call.perform, writeRead, off]
  rw [refused, makes_pure] at h
  obtain ⟨rfl, same⟩ := h
  exact ⟨(Prod.mk.inj (Prod.mk.inj same).2).1, rfl⟩

end I2cController

namespace Board

/-- The clocks that `hal_clock_init` can leave. -/
def Clocked (mclkHz : BitVec 32) : Prop := mclkHz = 32000000 ∨ mclkHz = 4000000

theorem i2c1Target_valid {mclkHz : BitVec 32} (clocked : Clocked mclkHz) (regmap : Device σ κ) :
    I2cTarget.configIsValid (some (i2c1Target mclkHz)) (some regmap) = true ∧
      10 * 100000 * ((mclkHz / I2cTiming.denominator 100000 - 1).toNat + 1) = mclkHz.toNat := by
  rcases clocked with rfl | rfl
  all_goals exact ⟨rfl, rfl⟩

theorem i2c1Controller_valid {mclkHz : BitVec 32} (clocked : Clocked mclkHz) :
    I2cController.configIsValid (some (i2c1Controller mclkHz)) = true := by
  rcases clocked with rfl | rfl
  all_goals rfl

variable {b b' : Board σ κ} {t : List Access} {ready : Bool}

/-- The claim is given up unless the driver is initialised. -/
theorem claim_settles {granted : Bool} (taken : b.i2c1Claimed = true)
    (h : (if granted then pure (true, b) else pure (false, { b with i2c1Claimed := false }) :
      Program (Bool × Board σ κ)).Makes t (ready, b')) :
    t = [] ∧ ready = granted ∧ b' = { b with i2c1Claimed := granted } := by
  cases granted with
  | true =>
    obtain ⟨rfl, same⟩ := h
    obtain ⟨rfl, rfl⟩ := Prod.mk.inj same
    refine ⟨rfl, rfl, ?_⟩
    rw [← taken]
  | false =>
    obtain ⟨rfl, same⟩ := h
    obtain ⟨rfl, rfl⟩ := Prod.mk.inj same
    exact ⟨rfl, rfl, rfl⟩

/-- The claim is kept exactly if the target is initialised. -/
theorem i2c1TargetInit_makes {regmap : Option (Device σ κ)}
    (h : (b.i2c1TargetInit regmap).Makes t (ready, b')) :
    b.i2c1Claimed = true ∧ ready = false ∧ b' = b ∧ t = [] ∨
    b.i2c1Claimed = false ∧ ∃ t₀ target, t = t₀.map (.within .target) ∧
      (I2cTarget.init (some (i2c1Target b.mclkHz)) regmap b.target).Makes t₀ (ready, target) ∧
      b' = { b with target, i2c1Claimed := ready } := by
  rw [i2c1TargetInit, i2c1Claim] at h
  cases claimed : b.i2c1Claimed with
  | true =>
    simp only [claimed, if_true, makes_pure] at h
    obtain ⟨rfl, same⟩ := h
    exact .inl ⟨rfl, (Prod.mk.inj same).1, (Prod.mk.inj same).2, rfl⟩
  | false =>
    simp only [claimed, Bool.false_eq_true, if_false, makes_bind, makes_within] at h
    obtain ⟨_, ⟨granted, target⟩, _, rfl, ⟨t₀, rfl, initialised⟩, h⟩ := h
    obtain ⟨rfl, rfl, rfl⟩ := claim_settles rfl h
    exact .inr ⟨rfl, t₀, target, List.append_nil _, initialised, rfl⟩

theorem i2c1ControllerInit_makes (h : b.i2c1ControllerInit.Makes t (ready, b')) :
    b.i2c1Claimed = true ∧ ready = false ∧ b' = b ∧ t = [] ∨
    b.i2c1Claimed = false ∧ ∃ t₀ controller, t = t₀.map (.within .controller) ∧
      (I2cController.init (some (i2c1Controller b.mclkHz)) b.controller).Makes t₀
        (ready, controller) ∧
      b' = { b with controller, i2c1Claimed := ready } := by
  rw [i2c1ControllerInit, i2c1Claim] at h
  cases claimed : b.i2c1Claimed with
  | true =>
    simp only [claimed, if_true, makes_pure] at h
    obtain ⟨rfl, same⟩ := h
    exact .inl ⟨rfl, (Prod.mk.inj same).1, (Prod.mk.inj same).2, rfl⟩
  | false =>
    simp only [claimed, Bool.false_eq_true, if_false, makes_bind, makes_within] at h
    obtain ⟨_, ⟨granted, controller⟩, _, rfl, ⟨t₀, rfl, initialised⟩, h⟩ := h
    obtain ⟨rfl, rfl, rfl⟩ := claim_settles rfl h
    exact .inr ⟨rfl, t₀, controller, List.append_nil _, initialised, rfl⟩

end Board

/-! ## Any order of calls and interrupts -/

namespace I2c1

inductive Personality where
  | target
  | controller
  deriving DecidableEq, Repr

/-- `board_i2c1_target_init` and `board_i2c1_controller_init`. -/
inductive Call (σ κ : Type) where
  | target (regmap : Option (Device σ κ))
  | controller

def Call.personality : Call σ κ → Personality
  | .target _ => .target
  | .controller => .controller

/-- A call with a null register map is not. -/
def Call.isComplete : Call σ κ → Bool
  | .target regmap => regmap.isSome
  | .controller => true

/-- What the application and its interrupts do with I2C1; `answers` are what the
registers read. -/
inductive Choice (σ κ : Type) where
  | init (call : Call σ κ) (answers : Stream' (BitVec 32))
  | transfer (call : I2cController.Call) (memory : I2cController.Memory)
      (answers : Stream' (BitVec 32))
  | serve (choice : I2cTarget.Handler.Choice σ)

inductive Event (σ κ : Type) where
  | init (call : Call σ κ) (ready : Bool) (t : List Board.Access)
  | transfer (t : List I2cController.Access)
  | served (t : List I2cTarget.Handler.Access)

def Event.granted : Event σ κ → Bool
  | .init _ ready _ => ready
  | _ => false

/-- As whom an event accesses the registers of I2C1, if it does. -/
def Event.driver : Event σ κ → Option Personality
  | .init call _ t => if t = [] then none else some call.personality
  | .transfer t => if t = [] then none else some .controller
  | .served t => if t = [] then none else some .target

def Call.program (b : Board σ κ) : Call σ κ → Board.Program (Bool × Board σ κ)
  | .target regmap => b.i2c1TargetInit regmap
  | .controller => b.i2c1ControllerInit

def machine (σ κ : Type) [DecidableEq σ] : Machine (Board σ κ) (Choice σ κ) (Event σ κ) where
  step b
    | .init call answers =>
      let (t, (ready, next), _) := (call.program b).run answers
      some (next, [.init call ready t])
    | .transfer call memory answers =>
      let (t, (_, controller, _), _) := (call.perform b.controller memory).run answers
      some ({ b with controller }, [.transfer t])
    | .serve choice =>
      ((I2cTarget.Handler.machine σ κ).step b.target choice).map fun (target, es) =>
        ({ b with target }, [.served (I2cTarget.Handler.accesses es)])

def initialized (b : Board σ κ) : Personality → Bool
  | .target => b.target.initialized
  | .controller => b.controller.initialized

/-- Nobody has claimed I2C1 yet. -/
def Fresh (b : Board σ κ) : Prop := b.i2c1Claimed = false ∧ ∀ p, initialized b p = false

/-- The claim, the drivers and the past agree on who owns I2C1. -/
structure Owned (tr : List (Event σ κ)) (b : Board σ κ) : Prop where
  one : ∀ p q, initialized b p = true → initialized b q = true → p = q
  claimed : b.i2c1Claimed = true ↔ ∃ p, initialized b p = true
  granted : b.i2c1Claimed = true ↔ ∃ e ∈ tr, e.granted = true
  drives : ∀ e ∈ tr, ∀ p, e.driver = some p → initialized b p = true

variable {b b₀ b' : Board σ κ} {tr es l r : List (Event σ κ)} {call : Call σ κ} {ready : Bool}
  {t : List Board.Access}

theorem Fresh.owned (fresh : Fresh b) : Owned [] b := by
  obtain ⟨free, off⟩ := fresh
  constructor
  case one => simp [off]
  case claimed => simp [free, off]
  case granted => simp [free]
  case drives => simp

/-- A granted call initialises its driver; a refused one leaves all as it was. -/
theorem init_spec (h : (call.program b).Makes t (ready, b')) :
    (ready = true ∧ b.i2c1Claimed = false ∧ b'.i2c1Claimed = true ∧
      ∀ p, initialized b' p = true ↔ p = call.personality ∨ initialized b p = true) ∨
    ready = false ∧ b' = b ∧ t = [] := by
  cases call with
  | target regmap =>
    obtain ⟨-, rfl, rfl, rfl⟩ | ⟨free, t₀, target, rfl, initialised, rfl⟩ :=
      Board.i2c1TargetInit_makes h
    · exact .inr ⟨rfl, rfl, rfl⟩
    · obtain ⟨rfl, on⟩ | ⟨rfl, rfl, rfl⟩ := I2cTarget.init_cases initialised
      · refine .inl ⟨rfl, free, rfl, ?_⟩
        intro p
        cases p <;> simp [initialized, Call.personality, on]
      · refine .inr ⟨rfl, ?_, rfl⟩
        rw [← free]
  | controller =>
    obtain ⟨-, rfl, rfl, rfl⟩ | ⟨free, t₀, controller, rfl, initialised, rfl⟩ :=
      Board.i2c1ControllerInit_makes h
    · exact .inr ⟨rfl, rfl, rfl⟩
    · obtain ⟨rfl, on⟩ | ⟨rfl, rfl, rfl⟩ := I2cController.init_cases initialised
      · refine .inl ⟨rfl, free, rfl, ?_⟩
        intro p
        cases p <;> simp [initialized, Call.personality, on]
      · refine .inr ⟨rfl, ?_, rfl⟩
        rw [← free]

theorem init_mclkHz (h : (call.program b).Makes t (ready, b')) : b'.mclkHz = b.mclkHz := by
  cases call with
  | target regmap =>
    obtain ⟨-, -, rfl, -⟩ | ⟨-, _, _, -, -, rfl⟩ := Board.i2c1TargetInit_makes h
    all_goals rfl
  | controller =>
    obtain ⟨-, -, rfl, -⟩ | ⟨-, _, _, -, -, rfl⟩ := Board.i2c1ControllerInit_makes h
    all_goals rfl

/-- With the clock set, a call is granted exactly if the claim is free and the
call complete. -/
theorem init_granted (clocked : Board.Clocked b.mclkHz) (owned : Owned tr b)
    (h : (call.program b).Makes t (ready, b')) :
    ready = true ↔ b.i2c1Claimed = false ∧ call.isComplete = true := by
  constructor
  · rintro rfl
    obtain ⟨-, free, -⟩ | ⟨refused, -⟩ := init_spec h
    · refine ⟨free, ?_⟩
      cases call with
      | controller => rfl
      | target regmap =>
        cases regmap with
        | some regmap => rfl
        | none =>
          obtain ⟨-, refused, -⟩ | ⟨-, _, _, -, initialised, -⟩ := Board.i2c1TargetInit_makes h
          · cases refused
          · obtain ⟨refused, -⟩ := I2cTarget.init_refuses (.inr rfl) initialised
            cases refused
    · cases refused
  · rintro ⟨free, complete⟩
    have off : ∀ p, initialized b p = false := by
      intro p
      by_contra on
      rw [owned.claimed.mpr ⟨p, Bool.eq_true_of_not_eq_false on⟩] at free
      cases free
    cases call with
    | controller =>
      obtain ⟨taken, -⟩ | ⟨-, _, _, -, initialised, -⟩ := Board.i2c1ControllerInit_makes h
      · rw [taken] at free
        cases free
      · exact (I2cController.init_accepts (Board.i2c1Controller_valid clocked) (off .controller)
          initialised).1
    | target regmap =>
      cases regmap with
      | none => cases complete
      | some regmap =>
        obtain ⟨taken, -⟩ | ⟨-, _, _, -, initialised, -⟩ := Board.i2c1TargetInit_makes h
        · rw [taken] at free
          cases free
        · exact (I2cTarget.init_accepts (Board.i2c1Target_valid clocked regmap).1 (off .target)
            initialised).1

variable [DecidableEq σ]

/-- All a step can do: it grants the claim, refuses it, or leaves it alone and
touches I2C1 only as an initialised driver. -/
theorem step_cases {choice : Choice σ κ} (step : (machine σ κ).step b choice = some (b', es)) :
    b'.mclkHz = b.mclkHz ∧ ∃ e, es = [e] ∧
      ((∃ call ready t, e = .init call ready t ∧ (call.program b).Makes t (ready, b')) ∨
      e.granted = false ∧ b'.i2c1Claimed = b.i2c1Claimed ∧ initialized b' = initialized b ∧
        (∀ call ready t, e ≠ .init call ready t) ∧
        ∀ p, e.driver = some p → initialized b p = true) := by
  cases choice with
  | init call answers =>
    obtain ⟨rfl, rfl⟩ := Prod.mk.inj (Option.some.inj step)
    have made := run_makes (call.program b) answers
    exact ⟨init_mclkHz made, _, rfl, .inl ⟨call, _, _, rfl, made⟩⟩
  | transfer call memory answers =>
    obtain ⟨rfl, rfl⟩ := Prod.mk.inj (Option.some.inj step)
    refine ⟨rfl, _, rfl, .inr ⟨rfl, rfl, ?_, nofun, ?_⟩⟩
    all_goals
      have made := run_makes (call.perform b.controller memory) answers
      cases on : b.controller.initialized
    · obtain ⟨same, -⟩ := I2cController.perform_refuses on made
      funext p
      cases p
      · rfl
      · exact congrArg I2cController.Driver.initialized same
    · obtain ⟨still, -⟩ := I2cController.perform_makes on made
      funext p
      cases p
      · rfl
      · exact still.trans on.symm
    · obtain ⟨-, untouched⟩ := I2cController.perform_refuses on made
      simp [Event.driver, untouched]
    · intro p driven
      simp only [Event.driver, Option.ite_none_left_eq_some, Option.some.injEq] at driven
      rw [← driven.2]
      exact on
  | serve choice =>
    simp only [machine, Option.map_eq_some_iff, Prod.mk.injEq] at step
    obtain ⟨⟨target, es⟩, served, rfl, rfl⟩ := step
    have still := (I2cTarget.step_acts served).1.initialized
    refine ⟨rfl, _, rfl, .inr ⟨rfl, rfl, ?_, nofun, ?_⟩⟩
    · funext p
      cases p
      · exact still
      · rfl
    · intro p driven
      simp only [Event.driver, Option.ite_none_left_eq_some, Option.some.injEq] at driven
      obtain ⟨touched, rfl⟩ := driven
      by_contra off
      exact touched (I2cTarget.off_untouched (Bool.eq_false_of_not_eq_true off) served)

theorem Owned.step {choice : Choice σ κ} (owned : Owned tr b)
    (step : (machine σ κ).step b choice = some (b', es)) : Owned (tr ++ es) b' := by
  obtain ⟨-, e, rfl, ⟨call, ready, t, rfl, made⟩ | ⟨ungranted, claim, same, -, drives⟩⟩ :=
    step_cases step
  · obtain ⟨rfl, free, taken, owners⟩ | ⟨rfl, rfl, rfl⟩ := init_spec made
    · have nobody : ∀ p, ¬initialized b p = true := by
        intro p on
        rw [owned.claimed.mpr ⟨p, on⟩] at free
        cases free
      have owner : ∀ p, initialized b' p = true ↔ p = call.personality := by
        intro p
        rw [owners p]
        exact or_iff_left (nobody p)
      constructor
      case one =>
        intro p q hp hq
        rw [(owner p).mp hp, (owner q).mp hq]
      case claimed => simp [taken, owner]
      case granted => simp [taken, Event.granted]
      case drives =>
        intro e mem p driven
        rcases List.mem_append.mp mem with before | now
        · exact absurd (owned.drives e before p driven) (nobody p)
        · cases List.mem_singleton.mp now
          simp only [Event.driver, Option.ite_none_left_eq_some, Option.some.injEq] at driven
          exact (owner p).mpr driven.2.symm
    · constructor
      case one => exact owned.one
      case claimed => exact owned.claimed
      case granted =>
        rw [owned.granted]
        simp [or_and_right, exists_or, Event.granted]
      case drives =>
        intro e mem p driven
        rcases List.mem_append.mp mem with before | now
        · exact owned.drives e before p driven
        · cases List.mem_singleton.mp now
          cases driven
  · constructor
    case one => rw [same]; exact owned.one
    case claimed => rw [same, claim]; exact owned.claimed
    case granted =>
      rw [claim, owned.granted]
      simp [or_and_right, exists_or, ungranted]
    case drives =>
      intro e mem p driven
      rw [same]
      rcases List.mem_append.mp mem with before | now
      · exact owned.drives e before p driven
      · cases List.mem_singleton.mp now
        exact drives p driven

theorem run_owned (fresh : Fresh b₀) (run : (machine σ κ).Run b₀ tr b) :
    Owned tr b ∧ b.mclkHz = b₀.mclkHz := by
  apply run.invariant (P := fun tr b => Owned tr b ∧ b.mclkHz = b₀.mclkHz) ⟨fresh.owned, rfl⟩
  rintro tr b choice es b' ⟨owned, clock⟩ step
  exact ⟨owned.step step, (step_cases step).1.trans clock⟩

/-- I2C1 is only ever accessed as one personality, of which the driver is the
one that was initialised. -/
theorem one_personality (fresh : Fresh b₀) (run : (machine σ κ).Run b₀ tr b) :
    (∀ e ∈ tr, ∀ f ∈ tr, ∀ p q, e.driver = some p → f.driver = some q → p = q) ∧
      (∀ e ∈ tr, ∀ p, e.driver = some p → initialized b p = true) ∧
      ¬(b.target.initialized = true ∧ b.controller.initialized = true) := by
  obtain ⟨owned, -⟩ := run_owned fresh run
  refine ⟨?_, owned.drives, ?_⟩
  · intro e he f hf p q hp hq
    exact owned.one p q (owned.drives e he p hp) (owned.drives f hf q hq)
  · rintro ⟨target, controller⟩
    cases owned.one .target .controller target controller

/-- Once the clock is set, the first complete call wins I2C1 for good: every
other one is refused and touches no register. -/
theorem first_claim_wins (clocked : Board.Clocked b₀.mclkHz) (fresh : Fresh b₀)
    (run : (machine σ κ).Run b₀ tr b) (split : tr = l ++ .init call ready t :: r) :
    (ready = true ↔ (∀ e ∈ l, e.granted = false) ∧ call.isComplete = true) ∧
      (ready = false → t = []) := by
  obtain ⟨before, b₁, choice, b₂, es, within, rest, earlier, step, emitted, rfl⟩ := run.split split
  obtain ⟨owned, clock⟩ := run_owned fresh earlier
  obtain ⟨-, e, rfl, cases⟩ := step_cases step
  obtain ⟨rfl, here⟩ := singleton_eq_split emitted
  obtain ⟨call', ready', t', rfl, made⟩ | ⟨-, -, -, other, -⟩ := cases
  · cases here
    rw [init_granted (by rwa [clock]) owned made, List.append_nil]
    refine ⟨and_congr_left fun _ => ?_, ?_⟩
    · rw [← Bool.not_eq_true, owned.granted]
      simp
    · rintro rfl
      obtain ⟨granted, -⟩ | ⟨-, -, untouched⟩ := init_spec made
      · cases granted
      · exact untouched
  · exact absurd here.symm (other call ready t)

/-- A board whose clock is set. -/
def sampleBoard : Board Unit Unit where
  mclkHz := 32000000
  nowMs := 0
  uart := ⟨0, 0, 0, 0, 0, 0, 0, fun _ => 0, 0, false, 0⟩
  uartTxStorage := fun _ => 0
  uartTxQueue := ⟨fun _ => 0, 0, 0, 0, 0, 0⟩
  i2c1Claimed := false
  target := I2cTarget.offDriver
  controller := ⟨0, 0, 0, 0, false⟩

theorem sampleBoard_fresh : Fresh sampleBoard := by
  refine ⟨rfl, ?_⟩
  intro p
  cases p <;> rfl

def sampleCall : Call Unit Unit := .target (some TargetEngine.sample.regmap)

/-- A call without a register map, the controller's, and then the target's. -/
def sampleChoices : List (Choice Unit Unit) :=
  [.init (.target none) (Stream'.const 0), .init .controller (Stream'.const 0),
    .init sampleCall (Stream'.const 0)]

theorem sampleBoard_run : ∃ t u v b, (machine Unit Unit).Run sampleBoard
    [.init (.target none) false t, .init .controller true u, .init sampleCall false v] b :=
  ⟨_, _, _, _, Machine.exec_run
    (show (machine Unit Unit).exec sampleBoard sampleChoices = some (_, _) from rfl)⟩

def sampleTransfer : Choice Unit Unit :=
  .transfer (.write 0x20 (some 0) 1) (fun _ => 0x5a) (Stream'.const 0)

/-- The controller makes a transfer between interrupts of the target that was
refused, and the target serves interrupts around a refused transfer. -/
theorem one_personality_sample :
    (∃ tr b, (machine Unit Unit).Run sampleBoard tr b ∧
      tr.map Event.driver = [none, some .controller, none, some .controller, none] ∧
      b.controller.initialized = true ∧ b.target.initialized = false) ∧
    ∃ tr b, (machine Unit Unit).Run sampleBoard tr b ∧
      tr.map Event.driver = [none, some .target, some .target, none, none, some .target] ∧
      b.target.initialized = true ∧ b.controller.initialized = false := by
  obtain ⟨b, tr, run, drivers⟩ := (machine Unit Unit).exec_shows sampleBoard
    [.serve (I2cTarget.turnWith [0x17]), .init .controller (Stream'.const 0),
      .init sampleCall (Stream'.const 0), sampleTransfer, .serve (I2cTarget.turnWith [0x17])]
    (fun reached => reached.2.map Event.driver)
    [none, some .controller, none, some .controller, none] (by decide +kernel)
  obtain ⟨b', tr', run', drivers'⟩ := (machine Unit Unit).exec_shows sampleBoard
    [sampleTransfer, .init sampleCall (Stream'.const 0), .serve (I2cTarget.turnWith [0x17]),
      sampleTransfer, .init .controller (Stream'.const 0),
      .serve (I2cTarget.turnWith [0x11, 0, 0x01])]
    (fun reached => reached.2.map Event.driver)
    [none, some .target, some .target, none, none, some .target] (by decide +kernel)
  have drove : ∀ {ds : List (Option Personality)} {tr : List (Event Unit Unit)} {p : Personality},
      tr.map Event.driver = ds → some p ∈ ds → ∃ e ∈ tr, e.driver = some p := by
    rintro _ tr p rfl mem
    exact List.mem_map.mp mem
  obtain ⟨-, owns, single⟩ := one_personality sampleBoard_fresh run
  obtain ⟨-, owns', single'⟩ := one_personality sampleBoard_fresh run'
  obtain ⟨e, mem, access⟩ := drove (p := .controller) drivers (by decide)
  obtain ⟨e', mem', access'⟩ := drove (p := .target) drivers' (by decide)
  have controller : b.controller.initialized = true := owns e mem _ access
  have target : b'.target.initialized = true := owns' e' mem' _ access'
  refine ⟨⟨tr, b, run, drivers, controller, ?_⟩, tr', b', run', drivers', target, ?_⟩
  · exact Bool.eq_false_iff.mpr fun both => single ⟨both, controller⟩
  · exact Bool.eq_false_iff.mpr fun both => single' ⟨target, both⟩

theorem first_claim_wins_sample : ∃ u b, (machine Unit Unit).Run sampleBoard
    [.init (.target none) false [], .init .controller true u, .init sampleCall false []] b := by
  obtain ⟨t, u, v, b, run⟩ := sampleBoard_run
  obtain ⟨-, first⟩ := first_claim_wins (l := []) (.inl rfl) sampleBoard_fresh run rfl
  obtain ⟨-, last⟩ := first_claim_wins (r := [])
    (l := [.init (.target none) false t, .init .controller true u]) (.inl rfl) sampleBoard_fresh
    run rfl
  rw [first rfl, last rfl] at run
  exact ⟨u, b, run⟩

end I2c1

end MspmBaremetal
