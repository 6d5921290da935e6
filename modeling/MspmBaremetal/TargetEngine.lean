import MspmBaremetal.RegmapCalls
import MspmBaremetal.Transition

/-!
# The transaction engine of `hal_i2c_target_engine`

The engine's calls on a register map. A step of its machine is one engine call,
or one whole `lib_regmap_snapshot_publish` between two of them.
-/

namespace MspmBaremetal

/-- `hal_i2c_target_engine_direction_t`. -/
inductive Direction where
  | idle
  | receive
  | transmit
  deriving DecidableEq, Repr

/-- `hal_i2c_target_engine_t` with the register map it points to. -/
structure TargetEngine (σ κ : Type*) where
  regmap : Device σ κ
  pendingAddress : BitVec 16
  addressByteCount : BitVec 8
  direction : Direction

namespace TargetEngine

variable {σ κ : Type*}

/-- A call of the engine; `answer` is what `queue_write` returns if the call
reaches it. -/
inductive Call where
  | beginReceive
  | receive (value : BitVec 8) (answer : Bool)
  | beginTransmit
  | transmit
  | «end»
  | abort
  deriving DecidableEq, Repr

inductive Event (σ κ : Type*) where
  | called (call : Call)
  | received (result : Bool)
  | transmitted (value : BitVec 8)
  | regmap (e : Regmap.Event Unit σ κ)

/-- `hal_i2c_target_engine_init`; `none` is a null pointer argument or the result
`false`. -/
def init (given : Option (TargetEngine σ κ)) (regmap : Option (Device σ κ)) :
    Option (TargetEngine σ κ) :=
  match given, regmap with
  | some _, some regmap =>
    some { regmap, pendingAddress := 0, addressByteCount := 0, direction := .idle }
  | _, _ => none

variable [DecidableEq σ]

/-- `hal_i2c_target_engine_begin_receive`. -/
def beginReceive (engine : TargetEngine σ κ) : TargetEngine σ κ × List (Regmap.Event Unit σ κ) :=
  let (regmap, es) := engine.regmap.endRead
  ({ regmap, pendingAddress := 0, addressByteCount := 0, direction := .receive }, es)

/-- `hal_i2c_target_engine_begin_transmit`. -/
def beginTransmit (engine : TargetEngine σ κ) : TargetEngine σ κ × List (Regmap.Event Unit σ κ) :=
  let (regmap, es) := engine.regmap.beginRead
  ({ regmap, pendingAddress := 0, addressByteCount := 0, direction := .transmit }, es)

/-- `hal_i2c_target_engine_receive`. -/
def receive (engine : TargetEngine σ κ) (value : BitVec 8) (answer : Bool) :
    TargetEngine σ κ × List (Regmap.Event Unit σ κ) × Bool :=
  if engine.direction ≠ .receive then (engine, [], false)
  else if engine.addressByteCount = 0 then
    ({ engine with pendingAddress := value.zeroExtend 16 <<< 8, addressByteCount := 1 }, [], true)
  else if engine.addressByteCount = 1 then
    let pendingAddress := engine.pendingAddress ||| value.zeroExtend 16
    let (regmap, es) := engine.regmap.setAddress pendingAddress
    ({ engine with regmap, pendingAddress, addressByteCount := 2 }, es, true)
  else
    let (regmap, es, _) := engine.regmap.writeCurrent value answer
    ({ engine with regmap }, es, true)

/-- `hal_i2c_target_engine_transmit`. -/
def transmit (engine : TargetEngine σ κ) :
    TargetEngine σ κ × List (Regmap.Event Unit σ κ) × BitVec 8 :=
  if engine.direction ≠ .transmit then (engine, [], Regmap.unmappedValue)
  else
    let (regmap, es, value) := engine.regmap.readCurrent
    ({ engine with regmap }, es, value)

/-- `hal_i2c_target_engine_end`. -/
def «end» (engine : TargetEngine σ κ) : TargetEngine σ κ × List (Regmap.Event Unit σ κ) :=
  let (regmap, es) := engine.regmap.endRead
  ({ regmap, pendingAddress := 0, addressByteCount := 0, direction := .idle }, es)

/-- `hal_i2c_target_engine_abort`. -/
def abort (engine : TargetEngine σ κ) : TargetEngine σ κ × List (Regmap.Event Unit σ κ) :=
  engine.end

/-- One call, with what it returns and what it does to the register map. -/
def call (engine : TargetEngine σ κ) : Call → TargetEngine σ κ × List (Event σ κ)
  | .beginReceive => (engine.beginReceive.1, engine.beginReceive.2.map .regmap)
  | .receive value answer =>
    let (engine, es, result) := engine.receive value answer
    (engine, es.map .regmap ++ [.received result])
  | .beginTransmit => (engine.beginTransmit.1, engine.beginTransmit.2.map .regmap)
  | .transmit =>
    let (engine, es, value) := engine.transmit
    (engine, es.map .regmap ++ [.transmitted value])
  | .end => (engine.end.1, engine.end.2.map .regmap)
  | .abort => (engine.abort.1, engine.abort.2.map .regmap)

/-- One step of the system the engine is part of. -/
inductive Choice (σ : Type*) where
  | call (call : Call)
  | publish (s : σ) (data : Option (Nat → BitVec 8)) (length : BitVec 16)

/-- The engine calls and the publishes, in any order. -/
def machine (σ κ : Type*) [DecidableEq σ] : Machine (TargetEngine σ κ) (Choice σ) (Event σ κ) where
  step engine
    | .call call =>
      let (next, es) := engine.call call
      some (next, .called call :: es)
    | .publish s data length =>
      let (regmap, es, _) := engine.regmap.publish s data length
      some ({ engine with regmap }, es.map .regmap)

/-- A freshly initialised engine on a freshly initialised register map. -/
def Initial (heap : σ → Snapshot) (pages : List (Page σ κ)) (engine : TargetEngine σ κ) : Prop :=
  ∃ r givenMap given, Regmap.init heap givenMap (some pages) = some r ∧
    init given (some ⟨heap, r⟩) = some engine

/-! ## What every call keeps -/

/-- A page is latched only in a transmit phase. -/
structure Inv (others : σ → Bool → Nat) (engine : TargetEngine σ κ) : Prop where
  sound : engine.regmap.Sound others
  latched : engine.direction ≠ .transmit → engine.regmap.regmap.latchedPage = none

variable {others : σ → Bool → Nat} {engine : TargetEngine σ κ}

/-- A call that ends the read leaves nothing latched. -/
theorem Inv.endRead (h : Inv others engine) (pendingAddress : BitVec 16)
    (addressByteCount : BitVec 8) (direction : Direction) :
    Inv others ⟨engine.regmap.endRead.1, pendingAddress, addressByteCount, direction⟩ :=
  ⟨h.sound.endRead.1, fun _ => (Device.endRead_regmap engine.regmap).2.2⟩

theorem Inv.receive (h : Inv others engine) (value : BitVec 8) (answer : Bool) :
    Inv others (engine.receive value answer).1 ∧
    Device.SameData engine.regmap (engine.receive value answer).1.regmap := by
  have free := (Device.endRead_regmap engine.regmap).2.2
  unfold TargetEngine.receive
  split
  · exact ⟨h, .refl _⟩
  split
  · exact ⟨⟨h.sound, h.latched⟩, .refl _⟩
  split
  · obtain ⟨sound, same⟩ :=
      h.sound.setAddress (engine.pendingAddress ||| value.zeroExtend 16)
    exact ⟨⟨sound, fun _ => free⟩, same⟩
  · obtain ⟨sound, same⟩ := h.sound.writeCurrent value answer
    exact ⟨⟨sound, fun _ => free⟩, same⟩

theorem Inv.transmit (h : Inv others engine) :
    Inv others engine.transmit.1 ∧ Device.SameData engine.regmap engine.transmit.1.regmap := by
  unfold TargetEngine.transmit
  split
  · exact ⟨h, .refl _⟩
  · rename_i transmitting
    obtain ⟨sound, same, -⟩ := h.sound.readCurrent
    exact ⟨⟨sound, fun other => absurd other transmitting⟩, same⟩

theorem transmit_read (transmitting : engine.direction = .transmit) :
    engine.call .transmit = ({ engine with regmap := engine.regmap.readCurrent.1 },
      engine.regmap.readCurrent.2.1.map .regmap ++ [.transmitted engine.regmap.readCurrent.2.2]) := by
  simp [TargetEngine.call, TargetEngine.transmit, transmitting]

theorem Inv.call (h : Inv others engine) (call : Call) :
    Inv others (engine.call call).1 ∧ Device.SameData engine.regmap (engine.call call).1.regmap := by
  have same := h.sound.endRead.2
  cases call with
  | beginReceive => exact ⟨h.endRead _ _ _, same⟩
  | receive value answer => exact h.receive value answer
  | beginTransmit => exact ⟨h.endRead _ _ _, same⟩
  | transmit => exact h.transmit
  | «end» => exact ⟨h.endRead _ _ _, same⟩
  | abort => exact ⟨h.endRead _ _ _, same⟩

theorem Inv.publish (h : Inv others engine) (s : σ) (data : Option (Nat → BitVec 8))
    (length : BitVec 16) :
    Inv others { engine with regmap := (engine.regmap.publish s data length).1 } := by
  obtain ⟨sound, regmap⟩ := h.sound.publish s data length
  exact ⟨sound, fun other => by rw [regmap]; exact h.latched other⟩

/-- The counts of the other readers, read from the state words at the start. -/
def initialReaders (heap : σ → Snapshot) (s : σ) (b : Bool) : Nat :=
  (Snapshot.readerCount (heap s).state b).toNat

omit [DecidableEq σ] in
theorem Initial.eq {heap : σ → Snapshot} {pages : List (Page σ κ)} (h : Initial heap pages engine) :
    Regmap.acceptsPages heap 0 pages = true ∧
    engine = ⟨⟨heap, ⟨pages, 0, none, false⟩⟩, 0, 0, .idle⟩ := by
  obtain ⟨r, givenMap, given, hr, he⟩ := h
  cases givenMap with
  | none => cases hr
  | some givenMap =>
    cases given with
    | none => cases he
    | some given =>
      simp only [Regmap.init, Option.ite_none_right_eq_some, Bool.and_eq_true, Option.some.injEq] at hr
      obtain ⟨⟨-, accepted⟩, rfl⟩ := hr
      exact ⟨accepted, (Option.some.inj he).symm⟩

/-- No snapshot of the map has as many readers as its word can count. -/
def Unsaturated (heap : σ → Snapshot) (pages : List (Page σ κ)) : Prop :=
  ∀ page ∈ pages, ∀ s, page.snapshot = some s → ∀ b,
    Snapshot.readerCount (heap s).state b ≠ Snapshot.readerMask

/-- No other register map reads the map's snapshots. -/
def SoleReader (heap : σ → Snapshot) (pages : List (Page σ κ)) : Prop :=
  ∀ page ∈ pages, ∀ s, page.snapshot = some s → ∀ b, Snapshot.readerCount (heap s).state b = 0

omit [DecidableEq σ] in
theorem SoleReader.unsaturated {heap : σ → Snapshot} {pages : List (Page σ κ)}
    (h : SoleReader heap pages) : Unsaturated heap pages := by
  intro page hp s hs b
  rw [h page hp s hs b]
  decide

theorem Initial.inv {heap : σ → Snapshot} {pages : List (Page σ κ)} (h : Initial heap pages engine)
    (unsaturated : Unsaturated heap pages) : Inv (initialReaders heap) engine := by
  obtain ⟨accepted, rfl⟩ := h.eq
  refine ⟨?_, fun _ => rfl⟩
  have readers : ∀ s, Regmap.readers (σ := σ) (κ := κ) ⟨pages, 0, none, false⟩ (initialReaders heap) s =
      fun b => (Snapshot.readerCount (heap s).state b).toNat := by
    intro s
    funext b
    simp [Regmap.readers, Regmap.latch, initialReaders]
  constructor
  · exact Regmap.acceptsPages_fits accepted
  · intro page hp s hs b
    have bound : initialReaders heap s b ≤ 32767 := Snapshot.readerCount_fit (heap s).state b
    have unequal : initialReaders heap s b ≠ 32767 := fun full =>
      unsaturated page hp s hs b (BitVec.eq_of_toNat_eq full)
    omega
  · intro p hp
    cases hp
  · intro s
    rw [readers]
    exact Snapshot.readerCount_fit _
  · intro s
    obtain ⟨top, active, counts, fit, hw⟩ := Snapshot.pack_fields (heap s).state
    have same : counts = fun b => (Snapshot.readerCount (heap s).state b).toNat := by
      funext b
      rw [hw, Snapshot.pack_readerCount _ _ _ fit]
    rw [readers, ← same]
    exact Device.word_of_active fit hw

/-! ## An engine with one page -/

def samplePages : List (Page Unit Unit) :=
  [{ firstAddress := 0x0102, length := 2, access := .readWrite, snapshot := some (),
     queueWrite := some () }]

def sampleHeap : Unit → Snapshot := fun _ =>
  { buffers := fun _ => ⟨true, fun i => if i = 0 then 0x10 else 0x11⟩, length := 2, state := 0,
    publishRejectedCount := 0 }

def sample : TargetEngine Unit Unit :=
  ⟨⟨sampleHeap, ⟨samplePages, 0, none, false⟩⟩, 0, 0, .idle⟩

theorem sample_initial : Initial sampleHeap samplePages sample :=
  ⟨⟨samplePages, 0, none, false⟩, some ⟨[], 0, none, false⟩, some sample, rfl, rfl⟩

theorem sample_soleReader : SoleReader sampleHeap samplePages := by
  have zero : ∀ b, Snapshot.readerCount 0 b = 0 := by decide
  exact fun _ _ _ _ b => zero b

end TargetEngine

end MspmBaremetal
