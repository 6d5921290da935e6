import MspmBaremetal.I2cTarget
import MspmBaremetal.PageReads

/-!
# The target's interrupt handler on any hardware

`I2C1_IRQHandler` with its error interrupts, whatever the registers of I2C1
answer and in whatever order the interrupts come. A step is one turn of the
handler's loop, or one whole publish by the main loop.
-/

namespace MspmBaremetal.I2cTarget

open RegisterProgram

namespace Handler

/-- The registers of I2C1 that the handler touches. -/
inductive Register where
  | iidx
  | ris
  | ssr
  | srxdata
  | stxdata
  deriving DecidableEq, Repr

abbrev Access := RegisterProgram.Access Register (BitVec 32)

abbrev Program := RegisterProgram Register (BitVec 32)

/-- The cases of the handler's switch. -/
inductive Cause where
  | noIntr
  | srxdone
  | stxempty
  | stxdone
  | sstart
  | sstop
  | timeoutA
  | stxUnfl
  | srxOvfl
  | sarblost
  | intrOvfl
  | unexpected
  deriving DecidableEq, Repr

/-- The case for a value of `CPU_INT.IIDX`. -/
def cause (iidx : BitVec 32) : Cause :=
  let interrupt := iidx &&& 0xff
  if interrupt = 0x00 then .noIntr
  else if interrupt = 0x11 then .srxdone
  else if interrupt = 0x16 then .stxempty
  else if interrupt = 0x12 then .stxdone
  else if interrupt = 0x17 then .sstart
  else if interrupt = 0x18 then .sstop
  else if interrupt = 0x0f then .timeoutA
  else if interrupt = 0x1d then .stxUnfl
  else if interrupt = 0x1e then .srxOvfl
  else if interrupt = 0x1f then .sarblost
  else if interrupt = 0x20 then .intrOvfl
  else .unexpected

/-- The cases that end in `hal_i2c_target_abort`. -/
def Cause.aborts : Cause → Bool
  | .timeoutA | .stxUnfl | .srxOvfl | .sarblost | .intrOvfl | .unexpected => true
  | _ => false

def risSstart : BitVec 32 := 0x00400000
def ssrTreq : BitVec 32 := 0x00000002
def srxdataValueMask : BitVec 32 := 0x000000ff

end Handler

open Handler

variable {σ κ : Type} [DecidableEq σ]

/-- The driver after a part of the handler, and the events of its engine. -/
abbrev Outcome (σ κ : Type) := Driver σ κ × List (TargetEngine.Event σ κ)

/-- One engine call. -/
def Driver.engineCall (d : Driver σ κ) (call : TargetEngine.Call) : Outcome σ κ :=
  let (engine, es) := d.engine.call call
  ({ d with engine }, .called call :: es)

/-- `hal_i2c_target_handle_start`. -/
def Driver.handleStart (d : Driver σ κ) : Outcome σ κ := d.engineCall .abort

/-- `hal_i2c_target_begin_if_start_pending`. -/
def Driver.beginIfStartPending (d : Driver σ κ) : Handler.Program (Outcome σ κ) := do
  let ris ← load .ris
  if ris &&& risSstart ≠ 0 then
    let (d, es) := d.handleStart
    pure ({ d with startPrehandled := true }, es)
  else pure (d, [])

/-- The engine call that a data byte of the other direction makes first. -/
def Driver.ensure (d : Driver σ κ) (direction : Direction) (begin : TargetEngine.Call) :
    Outcome σ κ :=
  if d.engine.direction ≠ direction then d.engineCall begin else (d, [])

/-- `hal_i2c_target_receive_byte`. -/
def Driver.receiveByte (d : Driver σ κ) (queued : Bool) : Handler.Program (Outcome σ κ) := do
  let (d, es) ← d.beginIfStartPending
  let (d, fs) := d.ensure .receive .beginReceive
  let word ← load .srxdata
  let value := (word &&& srxdataValueMask).setWidth 8
  let (_, _, accepted) := d.engine.receive value queued
  let (d, gs) := d.engineCall (.receive value queued)
  pure ({ d with errorCount := if accepted then d.errorCount else d.errorCount + 1 },
    es ++ fs ++ gs)

/-- `hal_i2c_target_transmit_byte`. -/
def Driver.transmitByte (d : Driver σ κ) : Handler.Program (Outcome σ κ) := do
  let ssr ← load .ssr
  if ssr &&& ssrTreq = 0 then pure (d, [])
  else
    let (d, es) ← d.beginIfStartPending
    let (d, fs) := d.ensure .transmit .beginTransmit
    let (_, _, value) := d.engine.transmit
    let (d, gs) := d.engineCall .transmit
    store .stxdata (value.setWidth 32)
    pure (d, es ++ fs ++ gs)

/-- `hal_i2c_target_abort`. -/
def Driver.abort (d : Driver σ κ) : Outcome σ κ :=
  let (d, es) := { d with errorCount := d.errorCount + 1 }.engineCall .abort
  ({ d with startPrehandled := false }, es)

/-- One turn of the loop of `I2C1_IRQHandler`; on `noIntr` it returns. `queued`
is what `queue_write` returns if it is called. -/
def Driver.turn (d : Driver σ κ) (queued : Bool) : Handler.Program (Outcome σ κ) := do
  let iidx ← load .iidx
  match cause iidx with
  | .noIntr => pure (d, [])
  | .srxdone => d.receiveByte queued
  | .stxempty => d.transmitByte
  | .stxdone => d.transmitByte
  | .sstart =>
    if d.startPrehandled then pure ({ d with startPrehandled := false }, [])
    else pure d.handleStart
  | .sstop =>
    let (d, es) := d.engineCall .end
    pure ({ d with startPrehandled := false }, es)
  | .timeoutA | .stxUnfl | .srxOvfl | .sarblost | .intrOvfl => pure d.abort
  | .unexpected =>
    pure { d with unexpectedEventCount := d.unexpectedEventCount + 1 }.abort

namespace Handler

/-- `answers` are what the registers read during the turn. -/
inductive Choice (σ : Type) where
  | turn (answers : Stream' (BitVec 32)) (queued : Bool)
  | publish (s : σ) (data : Option (Nat → BitVec 8)) (length : BitVec 16)

/-- A turn shows its register accesses and then what its engine calls did. -/
inductive Event (σ κ : Type) where
  | access (a : Access)
  | engine (e : TargetEngine.Event σ κ)

/-- The handler and the main loop's publishes; a handler that runs before
`hal_i2c_target_init` returns at once. -/
def machine (σ κ : Type) [DecidableEq σ] : Machine (Driver σ κ) (Choice σ) (Event σ κ) where
  step d
    | .turn answers queued =>
      if d.initialized then
        let (trace, (next, es), _) := (d.turn queued).run answers
        some (next, trace.map .access ++ es.map .engine)
      else some (d, [])
    | .publish s data length =>
      let (regmap, es, _) := d.engine.regmap.publish s data length
      some ({ d with engine := { d.engine with regmap } }, es.map (.engine ∘ .regmap))

/-- The register accesses of a run, and its engine events. -/
def accesses (tr : List (Event σ κ)) : List Access :=
  tr.filterMap fun
    | .access a => some a
    | .engine _ => none

def engineEvents (tr : List (Event σ κ)) : List (TargetEngine.Event σ κ) :=
  tr.filterMap fun
    | .access _ => none
    | .engine e => some e

/-- The interrupts that a run served, the handler's returns among them. -/
def causes (tr : List (Event σ κ)) : List Cause := (readsOf .iidx (accesses tr)).map cause

/-- The byte that a call gives the engine. -/
def carried : TargetEngine.Call → Option (BitVec 8)
  | .receive value _ => some value
  | _ => none

/-- The bytes that the engine was given. -/
def received (es : List (TargetEngine.Event σ κ)) : List (BitVec 8) :=
  es.filterMap fun
    | .called call => carried call
    | _ => none

end Handler

/-! ## What every part of the handler does -/

section Acts

/-- With the accesses `t` and the interrupts `cs`: the engine is called in
protocol, is given each byte read from `SRXDATA` and answers each one written to
`STXDATA`, and the counters grow by the interrupts that ask for it. -/
structure Acts (d : Driver σ κ) (t : List Handler.Access) (cs : List Cause)
    (out : Outcome σ κ) : Prop where
  engine : (TargetEngine.machine σ κ).Run d.engine out.2 out.1.engine
  accepted : .received false ∉ out.2
  interrupts : (readsOf .iidx t).map cause = cs
  given : received out.2 =
    (readsOf .srxdata t).map fun word => (word &&& srxdataValueMask).setWidth 8
  sent : writesOf .stxdata t = (TargetEngine.transmitted out.2).map (·.setWidth 32)
  errorCount : out.1.errorCount = d.errorCount + BitVec.ofNat 32 (cs.countP Cause.aborts)
  unexpectedEventCount : out.1.unexpectedEventCount =
    d.unexpectedEventCount + BitVec.ofNat 32 (cs.count .unexpected)
  initialized : out.1.initialized = d.initialized

variable {d d' : Driver σ κ} {t t' : List Handler.Access} {cs cs' : List Cause}
  {es es' : List (TargetEngine.Event σ κ)} {out : Outcome σ κ} {queued : Bool}

theorem Acts.refl (d : Driver σ κ) : Acts d [] [] (d, []) := by
  constructor
  case engine => exact .start
  all_goals simp [received, TargetEngine.transmitted]

theorem Acts.trans (h : Acts d t cs (d', es)) (h' : Acts d' t' cs' out) :
    Acts d (t ++ t') (cs ++ cs') (out.1, es ++ out.2) := by
  constructor
  case engine => exact h.engine.trans h'.engine
  case accepted =>
    rw [List.mem_append]
    rintro (first | second)
    · exact h.accepted first
    · exact h'.accepted second
  case interrupts => rw [readsOf_append, List.map_append, h.interrupts, h'.interrupts]
  case given =>
    rw [received, List.filterMap_append, readsOf_append, List.map_append]
    exact congrArg₂ (· ++ ·) h.given h'.given
  case sent =>
    rw [TargetEngine.transmitted, List.filterMap_append, writesOf_append, List.map_append]
    exact congrArg₂ (· ++ ·) h.sent h'.sent
  case errorCount =>
    rw [h'.errorCount, h.errorCount, List.countP_append, BitVec.ofNat_add, BitVec.add_assoc]
  case unexpectedEventCount =>
    rw [h'.unexpectedEventCount, h.unexpectedEventCount, List.count_append, BitVec.ofNat_add,
      BitVec.add_assoc]
  case initialized => exact h'.initialized.trans h.initialized

theorem Acts.prehandled (h : Acts d t cs (d', es)) (b : Bool) :
    Acts d t cs ({ d' with startPrehandled := b }, es) :=
  ⟨h.engine, h.accepted, h.interrupts, h.given, h.sent, h.errorCount, h.unexpectedEventCount,
    h.initialized⟩

/-- An interrupt that does not abort leaves the counting to what follows it. -/
theorem Acts.served {iidx : BitVec 32} (h : Acts d t [] out) (kind : (cause iidx).aborts = false) :
    Acts d (.read .iidx iidx :: t) [cause iidx] out := by
  have other : cause iidx ≠ .unexpected := by
    intro same
    rw [same] at kind
    cases kind
  constructor
  case interrupts => simpa using h.interrupts
  case errorCount => simpa [kind] using h.errorCount
  case unexpectedEventCount => simpa [other] using h.unexpectedEventCount
  case engine => exact h.engine
  case accepted => exact h.accepted
  case given => exact h.given
  case sent => exact h.sent
  case initialized => exact h.initialized

/-- A read of a status register changes nothing. -/
theorem Acts.seen (h : Acts d t cs out) {reg : Handler.Register} (status : reg = .ris ∨ reg = .ssr)
    (value : BitVec 32) : Acts d (.read reg value :: t) cs out := by
  rcases status with rfl | rfl
  all_goals exact ⟨h.engine, h.accepted, h.interrupts, h.given, h.sent, h.errorCount,
    h.unexpectedEventCount, h.initialized⟩

theorem engineCall_run (d : Driver σ κ) (call : TargetEngine.Call) :
    (TargetEngine.machine σ κ).Run d.engine (d.engineCall call).2 (d.engineCall call).1.engine := by
  have step : (TargetEngine.machine σ κ).step d.engine (.call call) =
      some ((d.engineCall call).1.engine, (d.engineCall call).2) := rfl
  simpa using Machine.Run.start.next step

omit [DecidableEq σ] in
theorem received_regmap (es : List (Regmap.Event Unit σ κ)) : received (es.map .regmap) = [] := by
  induction es with
  | nil => rfl
  | cons e es ih => exact ih

omit [DecidableEq σ] in
theorem received_called {call : TargetEngine.Call} (bare : carried call = none)
    (es : List (TargetEngine.Event σ κ)) : received (.called call :: es) = received es := by
  cases call with
  | receive value queued => cases bare
  | _ => rfl

/-- A call that carries no byte. -/
theorem engineCall_acts {call : TargetEngine.Call} {es : List (Regmap.Event Unit σ κ)}
    (events : (d.engineCall call).2 = .called call :: es.map .regmap)
    (bare : carried call = none) : Acts d [] [] (d.engineCall call) := by
  constructor
  case engine => exact engineCall_run d call
  case accepted => simp [events]
  case given => rw [events, received_called bare, received_regmap, readsOf_nil, List.map_nil]
  case sent =>
    rw [events]
    change [] = (TargetEngine.transmitted (es.map .regmap)).map _
    rw [TargetEngine.transmitted_regmap, List.map_nil]
  all_goals simp [Driver.engineCall]

theorem ensure_acts {direction : Direction} {call : TargetEngine.Call}
    (h : Acts d [] [] (d.engineCall call)) : Acts d [] [] (d.ensure direction call) := by
  unfold Driver.ensure
  split
  · exact h
  · exact .refl d

theorem ensure_receive (d : Driver σ κ) :
    (d.ensure .receive .beginReceive).1.engine.direction = .receive := by
  unfold Driver.ensure
  split
  case isTrue => rfl
  case isFalse same => exact not_not.mp same

theorem beginIfStartPending_acts (h : d.beginIfStartPending.Makes t out) : Acts d t [] out := by
  simp only [Driver.beginIfStartPending, makes_load_bind] at h
  obtain ⟨ris, t, rfl, h⟩ := h
  split at h
  · obtain ⟨rfl, rfl⟩ := h
    have aborted : Acts d [] [] d.handleStart := engineCall_acts rfl rfl
    exact (aborted.prehandled true).seen (by decide) ris
  · obtain ⟨rfl, rfl⟩ := h
    exact (Acts.refl d).seen (by decide) ris

/-- The byte read goes to the engine, which accepts it. -/
theorem receive_acts (receiving : d.engine.direction = .receive) (word : BitVec 32) :
    let value := (word &&& srxdataValueMask).setWidth 8
    (d.engine.receive value queued).2.2 = true ∧
      Acts d [.read .srxdata word] [] (d.engineCall (.receive value queued)) := by
  intro value
  have accepted : (d.engine.receive value queued).2.2 = true := by
    unfold TargetEngine.receive
    rw [if_neg (not_not.mpr receiving)]
    split
    · rfl
    · split
      · rfl
      · rfl
  refine ⟨accepted, ?_⟩
  have events : (d.engineCall (.receive value queued)).2 = .called (.receive value queued) ::
      ((d.engine.receive value queued).2.1.map .regmap ++
        [.received (d.engine.receive value queued).2.2]) := rfl
  constructor
  case engine => exact engineCall_run d _
  case accepted =>
    rw [events, accepted]
    simp
  case given =>
    rw [events, received, List.filterMap_cons, List.filterMap_append]
    change value :: (received _ ++ received [_]) = _
    rw [received_regmap]
    rfl
  case sent =>
    rw [events, TargetEngine.transmitted, List.filterMap_cons, List.filterMap_append]
    change _ = List.map _ (TargetEngine.transmitted _ ++ TargetEngine.transmitted [_])
    rw [TargetEngine.transmitted_regmap]
    rfl
  all_goals simp [Driver.engineCall]

/-- The byte written is the one the engine transmits. -/
theorem transmit_acts (d : Driver σ κ) :
    Acts d [.write .stxdata (d.engine.transmit.2.2.setWidth 32)] [] (d.engineCall .transmit) := by
  have events : (d.engineCall .transmit).2 = .called .transmit ::
      (d.engine.transmit.2.1.map .regmap ++ [.transmitted d.engine.transmit.2.2]) := rfl
  constructor
  case engine => exact engineCall_run d _
  case accepted => simp [events]
  case given =>
    have bare : carried .transmit = none := rfl
    rw [events, received_called bare, received, List.filterMap_append]
    exact congrArg₂ (· ++ ·) (received_regmap _) rfl
  case sent =>
    rw [events, TargetEngine.transmitted, List.filterMap_cons, List.filterMap_append]
    change _ = List.map _ (TargetEngine.transmitted _ ++ TargetEngine.transmitted [_])
    rw [TargetEngine.transmitted_regmap]
    rfl
  all_goals simp [Driver.engineCall]

theorem receiveByte_acts (h : (d.receiveByte queued).Makes t out) : Acts d t [] out := by
  simp only [Driver.receiveByte, makes_bind] at h
  obtain ⟨t₁, ⟨d₁, es⟩, t₂, rfl, started, h⟩ := h
  obtain ⟨t₂, word, t₃, rfl, read, h⟩ := h
  rw [makes_load] at read
  obtain ⟨rfl, rfl⟩ := h
  subst read
  have ensured : Acts d₁ [] [] (d₁.ensure .receive .beginReceive) :=
    ensure_acts (engineCall_acts rfl rfl)
  obtain ⟨accepted, given⟩ := @receive_acts _ _ _ _ queued (ensure_receive d₁) word
  rw [if_pos accepted]
  simpa only [List.append_nil] using ((beginIfStartPending_acts started).trans ensured).trans given

theorem transmitByte_acts (h : d.transmitByte.Makes t out) : Acts d t [] out := by
  simp only [Driver.transmitByte, makes_load_bind] at h
  obtain ⟨ssr, t, rfl, h⟩ := h
  split at h
  · obtain ⟨rfl, rfl⟩ := h
    exact (Acts.refl d).seen (.inr rfl) ssr
  · simp only [makes_bind] at h
    obtain ⟨t₁, ⟨d₁, es⟩, t₂, rfl, started, h⟩ := h
    obtain ⟨t₂, _, t₃, rfl, written, h⟩ := h
    rw [makes_store] at written
    obtain ⟨rfl, rfl⟩ := h
    subst written
    have ensured : Acts d₁ [] [] (d₁.ensure .transmit .beginTransmit) :=
      ensure_acts (engineCall_acts rfl rfl)
    have sent := transmit_acts (d₁.ensure .transmit .beginTransmit).1
    have all := ((beginIfStartPending_acts started).trans ensured).trans sent
    simpa only [List.append_nil] using all.seen (.inr rfl) ssr

/-- The causes that leave the engine idle. -/
def Handler.Cause.closes (c : Cause) : Bool := c.aborts || c == .sstop

theorem abort_acts {iidx : BitVec 32} (kind : (cause iidx).aborts = true)
    (known : cause iidx ≠ .unexpected) : Acts d [.read .iidx iidx] [cause iidx] d.abort := by
  have h : Acts d [] [] (d.engineCall .abort) := engineCall_acts rfl rfl
  constructor
  case interrupts => simp
  case errorCount => simp [Driver.abort, Driver.engineCall, kind]
  case unexpectedEventCount => simp [Driver.abort, Driver.engineCall, known]
  case engine => exact h.engine
  case accepted => exact h.accepted
  case given => exact h.given
  case sent => exact h.sent
  case initialized => exact h.initialized

theorem unexpected_acts {iidx : BitVec 32} (kind : cause iidx = .unexpected) :
    Acts d [.read .iidx iidx] [cause iidx]
      { d with unexpectedEventCount := d.unexpectedEventCount + 1 }.abort := by
  have h : Acts d [] [] (d.engineCall .abort) := engineCall_acts rfl rfl
  constructor
  case interrupts => simp
  case errorCount => simp [Driver.abort, Driver.engineCall, kind, Cause.aborts]
  case unexpectedEventCount => simp [Driver.abort, Driver.engineCall, kind]
  case engine => exact h.engine
  case accepted => exact h.accepted
  case given => exact h.given
  case sent => exact h.sent
  case initialized => exact h.initialized

/-- One turn serves one interrupt; a STOP or an error leaves the engine idle. -/
theorem turn_acts (h : (d.turn queued).Makes t out) :
    ∃ c, Acts d t [c] out ∧ (c.closes = true → out.1.engine.direction = .idle) ∧
      (c = .noIntr → out.1 = d) := by
  simp only [Driver.turn, makes_load_bind] at h
  obtain ⟨iidx, t, rfl, h⟩ := h
  refine ⟨cause iidx, ?_⟩
  have known (kind : (cause iidx).closes = false) (acts : Acts d t [] out) :
      Acts d (.read .iidx iidx :: t) [cause iidx] out ∧
        ((cause iidx).closes = true → out.1.engine.direction = .idle) := by
    obtain ⟨other, -⟩ := Bool.or_eq_false_iff.mp kind
    exact ⟨acts.served other, fun closes => absurd (kind.symm.trans closes) Bool.false_ne_true⟩
  rw [← and_assoc]
  cases kind : cause iidx <;> rw [kind] at h known
  case noIntr =>
    obtain ⟨rfl, rfl⟩ := h
    exact ⟨known rfl (.refl d), fun _ => rfl⟩
  case srxdone => exact ⟨known rfl (receiveByte_acts h), fun same => absurd same (by decide)⟩
  case stxempty => exact ⟨known rfl (transmitByte_acts h), fun same => absurd same (by decide)⟩
  case stxdone => exact ⟨known rfl (transmitByte_acts h), fun same => absurd same (by decide)⟩
  case sstart =>
    dsimp only at h
    split at h
    · obtain ⟨rfl, rfl⟩ := h
      exact ⟨known rfl ((Acts.refl d).prehandled false), fun same => absurd same (by decide)⟩
    · obtain ⟨rfl, rfl⟩ := h
      exact ⟨known rfl (engineCall_acts rfl rfl), fun same => absurd same (by decide)⟩
  case sstop =>
    obtain ⟨rfl, rfl⟩ := h
    have ended : Acts d [] [] (d.engineCall .end) := engineCall_acts rfl rfl
    rw [← kind]
    exact ⟨⟨(ended.prehandled false).served (by rw [kind]; rfl), fun _ => rfl⟩, by simp [kind]⟩
  case unexpected =>
    obtain ⟨rfl, rfl⟩ := h
    rw [← kind]
    exact ⟨⟨unexpected_acts kind, fun _ => rfl⟩, by simp [kind]⟩
  all_goals
    obtain ⟨rfl, rfl⟩ := h
    rw [← kind]
    exact ⟨⟨abort_acts (by rw [kind]; rfl) (by rw [kind]; decide), fun _ => rfl⟩,
      by simp [kind]⟩

end Acts

end MspmBaremetal.I2cTarget
