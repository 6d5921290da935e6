import MspmBaremetal.TargetEngine

/-!
# The engine as a 16-bit EEPROM

`Eeprom` is the device a controller sees: a pointer, a phase, and pages that hold
one image each. `engine_refines_eeprom` says that the engine, its register map
and any publishes between its calls behave as this device.
-/

namespace MspmBaremetal

/-- Where the bus is in a transaction. -/
inductive Phase where
  | idle
  | high
  | low (high : BitVec 8)
  | write
  | read
  deriving DecidableEq, Repr

/-- What an address holds: a byte of page `page`, whose images `source` publishes
and whose writes go to `target`. -/
structure Cell (ρ σ κ : Type*) where
  page : ρ
  offset : Nat
  source : σ
  target : Option κ

/-- `images` are the newest published ones; `latch` is the page being read with
the image it is read from. -/
structure Eeprom (ρ σ : Type*) where
  pointer : BitVec 16
  phase : Phase
  images : σ → Nat → BitVec 8
  latch : Option (ρ × (Nat → BitVec 8))

namespace Eeprom

variable {ρ σ κ : Type*}

inductive Event (σ κ : Type*) where
  | called (call : TargetEngine.Call)
  | received (result : Bool)
  | transmitted (value : BitVec 8)
  | offered (target : κ) (address : BitVec 16) (value : BitVec 8)
  | ignored (address : BitVec 16) (value : BitVec 8)
  | stored (s : σ) (image : Nat → BitVec 8)

/-- The power-on state. -/
def initial (images : σ → Nat → BitVec 8) : Eeprom ρ σ :=
  { pointer := 0, phase := .idle, images, latch := none }

def enter (m : Eeprom ρ σ) (phase : Phase) : Eeprom ρ σ := { m with phase, latch := none }

/-- A received byte: two address bytes, then data. -/
def receive (layout : BitVec 16 → Option (Cell ρ σ κ)) (m : Eeprom ρ σ) (value : BitVec 8) :
    Eeprom ρ σ × List (Event σ κ) :=
  match m.phase with
  | .high => ({ m with phase := .low value }, [.received true])
  | .low high =>
    ({ m with pointer := BitVec.ofNat 16 (high.toNat * 256 + value.toNat), phase := .write },
      [.received true])
  | .write =>
    ({ m with pointer := m.pointer + 1 },
      [match (layout m.pointer).bind Cell.target with
        | some target => .offered target m.pointer value
        | none => .ignored m.pointer value,
       .received true])
  | .idle | .read => (m, [.received false])

variable [DecidableEq ρ]

/-- The image a cell is read from: the latched one, or the newest one. -/
def imageOf (m : Eeprom ρ σ) (cell : Cell ρ σ κ) : Nat → BitVec 8 :=
  match m.latch with
  | some (page, image) => if page = cell.page then image else m.images cell.source
  | none => m.images cell.source

def transmit (layout : BitVec 16 → Option (Cell ρ σ κ)) (m : Eeprom ρ σ) :
    Eeprom ρ σ × List (Event σ κ) :=
  match m.phase with
  | .read =>
    match layout m.pointer with
    | none => ({ m with pointer := m.pointer + 1, latch := none }, [.transmitted 0xff])
    | some cell =>
      ({ m with pointer := m.pointer + 1, latch := some (cell.page, m.imageOf cell) },
        [.transmitted (m.imageOf cell cell.offset)])
  | _ => (m, [.transmitted 0xff])

def call (layout : BitVec 16 → Option (Cell ρ σ κ)) (m : Eeprom ρ σ) :
    TargetEngine.Call → Eeprom ρ σ × List (Event σ κ)
  | .beginReceive => (m.enter .high, [])
  | .receive value _ => m.receive layout value
  | .beginTransmit => (m.enter .read, [])
  | .transmit => m.transmit layout
  | .end => (m.enter .idle, [])
  | .abort => (m.enter .idle, [])

inductive Choice (σ : Type*) where
  | call (call : TargetEngine.Call)
  | store (s : σ) (image : Nat → BitVec 8)

def machine [DecidableEq σ] (layout : BitVec 16 → Option (Cell ρ σ κ)) :
    Machine (Eeprom ρ σ) (Choice σ) (Event σ κ) where
  step m
    | .call call =>
      let (next, es) := m.call layout call
      some (next, .called call :: es)
    | .store s image =>
      some ({ m with images := Function.update m.images s image }, [.stored s image])

end Eeprom

namespace TargetEngine

variable {σ κ : Type*}

/-- The cell of an address in the page with index `p`. -/
def cellOf (p : Nat) (page : Page σ κ) (source : σ) (address : BitVec 16) : Cell Nat σ κ where
  page := p
  offset := address.toNat - page.firstAddress.toNat
  source := source
  target := if page.access = .readWrite then page.queueWrite else none

/-- The layout of a page table; a page is named by its index. -/
def layoutOf (pages : List (Page σ κ)) (address : BitVec 16) : Option (Cell Nat σ κ) :=
  (pages.findIdx? (·.contains address)).bind fun p => pages[p]?.bind fun page =>
    page.snapshot.map (cellOf p page · address)

/-- What the EEPROM's controller and its publishers can observe. -/
def visible : Event σ κ → Option (Eeprom.Event σ κ)
  | .called call => some (.called call)
  | .received result => some (.received result)
  | .transmitted value => some (.transmitted value)
  | .regmap (.offered _ target address value) => some (.offered target address value)
  | .regmap (.ignored _ address value) => some (.ignored address value)
  | .regmap (.published s image _) => some (.stored s image)
  | .regmap _ => none

/-! ## Simulation -/

/-- The engine's fields in each phase. -/
def InPhase (direction : Direction) (addressByteCount : BitVec 8) (pendingAddress : BitVec 16) :
    Phase → Prop
  | .idle => direction = .idle
  | .high => direction = .receive ∧ addressByteCount = 0
  | .low high =>
    direction = .receive ∧ addressByteCount = 1 ∧ pendingAddress = high.zeroExtend 16 <<< 8
  | .write => direction = .receive ∧ addressByteCount = 2
  | .read => direction = .transmit

variable [DecidableEq σ]

/-- What the EEPROM's latch says of the register map's. -/
def LatchShows (d : Device σ κ) (latch : Option (Nat × (Nat → BitVec 8))) : Option Nat → Prop
  | none => latch = none
  | some p => ∃ s image, d.regmap.snapshotOf p = some s ∧ latch = some (p, image) ∧
    ∀ i < (d.heap s).length.toNat, ((d.heap s).buffers d.regmap.latchedBuffer).bytes i = image i

/-- Every active buffer holds the newest image of its snapshot. -/
def ImagesShow (d : Device σ κ) (images : σ → Nat → BitVec 8) : Prop :=
  ∀ s, ∀ i < (d.heap s).length.toNat,
    ((d.heap s).buffers (Snapshot.activeIndex (d.heap s).state)).bytes i = images s i

/-- The EEPROM `m` describes the engine. -/
structure Shows (pages : List (Page σ κ)) (others : σ → Bool → Nat) (engine : TargetEngine σ κ)
    (m : Eeprom Nat σ) : Prop where
  inv : Inv others engine
  pages : engine.regmap.regmap.pages = pages
  pointer : engine.regmap.regmap.currentAddress = m.pointer
  phase : InPhase engine.direction engine.addressByteCount engine.pendingAddress m.phase
  images : ImagesShow engine.regmap m.images
  latch : LatchShows engine.regmap m.latch engine.regmap.regmap.latchedPage

variable {pages : List (Page σ κ)} {others : σ → Bool → Nat} {engine : TargetEngine σ κ}
  {m : Eeprom Nat σ}

omit [DecidableEq σ] in
theorem ImagesShow.same {d d' : Device σ κ} {images : σ → Nat → BitVec 8} (h : ImagesShow d images)
    (same : Device.SameData d d') : ImagesShow d' images := by
  intro s i hi
  rw [same.length] at hi
  rw [same.active, same.buffers]
  exact h s i hi

theorem hidden_endRead (d : Device σ κ) :
    (d.endRead.2.map Event.regmap).filterMap visible = [] := by
  rcases d.endRead_events with none | ⟨p, s, b, one⟩
  · rw [none]
    rfl
  · rw [one]
    rfl

theorem Shows.enter (h : Shows pages others engine m) {pendingAddress : BitVec 16}
    {addressByteCount : BitVec 8} {direction : Direction} {phase : Phase}
    (inPhase : InPhase direction addressByteCount pendingAddress phase) :
    Shows pages others ⟨engine.regmap.endRead.1, pendingAddress, addressByteCount, direction⟩
      (m.enter phase) := by
  obtain ⟨hpages, address, free⟩ := engine.regmap.endRead_regmap
  refine ⟨h.inv.endRead _ _ _, hpages.trans h.pages, address.trans h.pointer, inPhase,
    h.images.same h.inv.sound.endRead.2, ?_⟩
  simp only [free]
  rfl

theorem address_bytes (high low : BitVec 8) :
    high.zeroExtend 16 <<< 8 ||| low.zeroExtend 16 =
      BitVec.ofNat 16 (high.toNat * 256 + low.toNat) := by
  have hhigh := high.isLt
  have hlow := low.isLt
  apply BitVec.eq_of_toNat_eq
  rw [BitVec.toNat_or, BitVec.toNat_shiftLeft, BitVec.toNat_setWidth, BitVec.toNat_setWidth,
    BitVec.toNat_ofNat, Nat.mod_eq_of_lt (by omega : high.toNat < 2 ^ 16),
    Nat.mod_eq_of_lt (by omega : low.toNat < 2 ^ 16), Nat.shiftLeft_eq,
    Nat.mod_eq_of_lt (by omega : high.toNat * 2 ^ 8 < 2 ^ 16), Nat.mul_comm,
    ← Nat.two_pow_add_eq_or_of_lt hlow, Nat.mod_eq_of_lt (by omega)]
  omega

omit [DecidableEq σ] in
theorem layoutOf_none {r : Regmap σ κ} {address : BitVec 16} (nowhere : r.findPage address = none) :
    layoutOf r.pages address = none := by
  simp only [Regmap.findPage] at nowhere
  simp [layoutOf, nowhere]

omit [DecidableEq σ] in
theorem layoutOf_some {r : Regmap σ κ} {address : BitVec 16} {p : Nat} {page : Page σ κ} {s : σ}
    (found : r.findPage address = some p) (hp : r.pages[p]? = some page)
    (hs : page.snapshot = some s) :
    layoutOf r.pages address = some (cellOf p page s address) := by
  simp only [Regmap.findPage] at found
  simp [layoutOf, found, hp, hs]

omit [DecidableEq σ] in
/-- A write goes where the layout says. -/
theorem target_layout {lengths : σ → BitVec 16} {r : Regmap σ κ} (fits : Regmap.Fits lengths r.pages)
    (address : BitVec 16) : r.target address = (layoutOf r.pages address).bind Cell.target := by
  cases found : r.findPage address with
  | none => simp [Regmap.target, found, layoutOf_none found]
  | some p =>
    obtain ⟨page, hp, -⟩ := Regmap.findPage_some found
    obtain ⟨s, hs, -⟩ := fits p page hp
    simp [Regmap.target, found, hp, layoutOf_some found hp hs, cellOf]

/-- Outside a transmit phase nothing is latched, on either side. -/
theorem Shows.unlatched (h : Shows pages others engine m) (other : engine.direction ≠ .transmit) :
    engine.regmap.regmap.latchedPage = none ∧ m.latch = none := by
  have free := h.inv.latched other
  have latch := h.latch
  rw [free] at latch
  exact ⟨free, latch⟩

/-- What a receive phase does to the register map keeps what it shows. -/
theorem Shows.moved (h : Shows pages others engine m) (other : engine.direction ≠ .transmit)
    {pendingAddress address : BitVec 16} {addressByteCount : BitVec 8} {phase : Phase}
    (inPhase : InPhase engine.direction addressByteCount pendingAddress phase) :
    Shows pages others
      ⟨{ engine.regmap with regmap := { engine.regmap.regmap with currentAddress := address } },
        pendingAddress, addressByteCount, engine.direction⟩
      { m with pointer := address, phase } := by
  obtain ⟨free, latch⟩ := h.unlatched other
  refine ⟨⟨h.inv.sound.relocate rfl rfl rfl, fun _ => free⟩, h.pages, rfl, inPhase, h.images, ?_⟩
  simp only [free]
  exact latch

theorem receive_high (receiving : engine.direction = .receive) (count : engine.addressByteCount = 0)
    (value : BitVec 8) (answer : Bool) : engine.receive value answer =
      (⟨engine.regmap, value.zeroExtend 16 <<< 8, 1, engine.direction⟩, [], true) := by
  simp [TargetEngine.receive, receiving, count]

theorem receive_low (receiving : engine.direction = .receive) (count : engine.addressByteCount = 1)
    (free : engine.regmap.regmap.latchedPage = none) (value : BitVec 8) (answer : Bool) :
    engine.receive value answer =
      (⟨{ engine.regmap with regmap := { engine.regmap.regmap with
          currentAddress := engine.pendingAddress ||| value.zeroExtend 16 } },
        engine.pendingAddress ||| value.zeroExtend 16, 2, engine.direction⟩, [], true) := by
  simp [TargetEngine.receive, receiving, count, Device.setAddress, Device.endRead_none free]

/-- The event of a data byte. -/
def written (r : Regmap σ κ) (value : BitVec 8) : Regmap.Event Unit σ κ :=
  match r.target r.currentAddress with
  | some target => .offered () target r.currentAddress value
  | none => .ignored () r.currentAddress value

theorem receive_write (receiving : engine.direction = .receive)
    (count : engine.addressByteCount = 2) (free : engine.regmap.regmap.latchedPage = none)
    (value : BitVec 8) (answer : Bool) : engine.receive value answer =
      (⟨{ engine.regmap with regmap := engine.regmap.regmap.advance }, engine.pendingAddress,
        engine.addressByteCount, engine.direction⟩, [written engine.regmap.regmap value], true) := by
  have events : (engine.regmap.writeCurrent value answer).2.1 =
      [written engine.regmap.regmap value] := by
    simp only [Device.writeCurrent, Device.endRead_none free, written, List.nil_append]
    cases engine.regmap.regmap.target engine.regmap.regmap.currentAddress <;> rfl
  have out : (engine.regmap.writeCurrent value answer).1 =
      { engine.regmap with regmap := engine.regmap.regmap.advance } := by
    simp only [Device.writeCurrent, Device.endRead_none free]
  simp [TargetEngine.receive, receiving, count, events, out]

/-- The EEPROM takes the step the engine takes in `call`. -/
def Follows (pages : List (Page σ κ)) (others : σ → Bool → Nat) (engine : TargetEngine σ κ)
    (m : Eeprom Nat σ) (call : Call) : Prop :=
  Shows pages others (engine.call call).1 (m.call (layoutOf pages) call).1 ∧
  (engine.call call).2.filterMap visible = (m.call (layoutOf pages) call).2

theorem Shows.receive (h : Shows pages others engine m) (value : BitVec 8) (answer : Bool) :
    Follows pages others engine m (.receive value answer) := by
  have hphase := h.phase
  unfold Follows
  cases phase : m.phase with
  | idle | read =>
    rw [phase] at hphase
    have other : engine.direction ≠ .receive := by
      rw [show engine.direction = _ from hphase]
      decide
    have out : engine.receive value answer = (engine, [], false) := by
      simp only [TargetEngine.receive, if_pos other]
    simp only [TargetEngine.call, out, Eeprom.call, Eeprom.receive, phase]
    exact ⟨h, rfl⟩
  | high =>
    rw [phase] at hphase
    obtain ⟨receiving, count⟩ := hphase
    have next : Shows pages others
        ⟨engine.regmap, value.zeroExtend 16 <<< 8, 1, engine.direction⟩
        { m with pointer := engine.regmap.regmap.currentAddress, phase := .low value } :=
      h.moved (by simp [receiving]) ⟨receiving, rfl, rfl⟩
    rw [h.pointer] at next
    simp only [TargetEngine.call, receive_high receiving count, Eeprom.call, Eeprom.receive, phase]
    exact ⟨next, rfl⟩
  | low high =>
    rw [phase] at hphase
    obtain ⟨receiving, count, pending⟩ := hphase
    have free := (h.unlatched (by simp [receiving])).1
    simp only [TargetEngine.call, receive_low receiving count free, Eeprom.call, Eeprom.receive, phase]
    rw [← address_bytes, ← pending]
    exact ⟨h.moved (by simp [receiving]) ⟨receiving, rfl⟩, rfl⟩
  | write =>
    rw [phase] at hphase
    obtain ⟨receiving, count⟩ := hphase
    have free := (h.unlatched (by simp [receiving])).1
    have next : Shows pages others
        ⟨{ engine.regmap with regmap := engine.regmap.regmap.advance }, engine.pendingAddress,
          engine.addressByteCount, engine.direction⟩
        { m with pointer := engine.regmap.regmap.currentAddress + 1, phase := .write } :=
      h.moved (by simp [receiving]) ⟨receiving, count⟩
    rw [h.pointer] at next
    have target := target_layout h.inv.sound.fits m.pointer
    rw [h.pages] at target
    simp only [TargetEngine.call, receive_write receiving count free, Eeprom.call, Eeprom.receive, phase]
    refine ⟨next, ?_⟩
    simp only [written, h.pointer, target]
    cases (layoutOf pages m.pointer).bind Cell.target <;> rfl

/-- The latch after a read, seen from the EEPROM. -/
theorem Shows.relatched (h : Shows pages others engine m) {p : Nat} {page : Page σ κ} {s : σ}
    (found : engine.regmap.regmap.findPage m.pointer = some p) (hp : pages[p]? = some page)
    (hs : page.snapshot = some s) :
    ∀ i < (engine.regmap.heap s).length.toNat,
      ((engine.regmap.heap s).buffers engine.regmap.relatch.1.regmap.latchedBuffer).bytes i =
        m.imageOf (cellOf p page s m.pointer) i := by
  intro i hi
  have next := h.inv.sound.relatch
  have source : engine.regmap.regmap.snapshotOf p = some s := by
    simp [Regmap.snapshotOf, h.pages, hp, hs]
  have latch := h.latch
  rcases next.how with ⟨kept, buffer, -⟩ | ⟨other, ⟨nowhere, -⟩ | ⟨p', s', hs', found', buffer, -⟩⟩
  · rw [h.pointer, found] at kept
    rw [kept] at latch
    obtain ⟨s', image, hs', held, bytes⟩ := latch
    obtain rfl : s = s' := Option.some.inj (source.symm.trans hs')
    rw [buffer, bytes i hi]
    simp [Eeprom.imageOf, held, cellOf]
  · rw [h.pointer, found] at nowhere
    cases nowhere
  · rw [h.pointer, found] at found' other
    cases found'
    obtain rfl : s = s' := Option.some.inj (source.symm.trans hs')
    rw [buffer, h.images s i hi]
    cases latched : engine.regmap.regmap.latchedPage with
    | none =>
      rw [latched] at latch
      simp [Eeprom.imageOf, show m.latch = none from latch, cellOf]
    | some q =>
      rw [latched] at latch other
      obtain ⟨-, image, -, held, -⟩ := latch
      have different : q ≠ p := fun same => other (congrArg some same)
      simp [Eeprom.imageOf, held, cellOf, different]

theorem hidden_relatch {d : Device σ κ} (h : d.Sound others) :
    (d.relatch.2.map Event.regmap).filterMap visible = [] := by
  rcases h.relatch.how with ⟨-, -, none⟩ | ⟨-, ⟨-, dropped⟩ | ⟨p, s, -, -, -, taken⟩⟩
  · rw [none]
    rfl
  · rw [dropped]
    exact hidden_endRead d
  · rw [taken, List.map_append, List.filterMap_append, hidden_endRead]
    rfl

theorem Shows.read (h : Shows pages others engine m) (transmitting : engine.direction = .transmit) :
    m.phase = .read := by
  have hphase := h.phase
  cases phase : m.phase with
  | read => rfl
  | idle =>
    rw [phase] at hphase
    cases transmitting.symm.trans hphase
  | high | low | write =>
    rw [phase] at hphase
    cases transmitting.symm.trans hphase.1

theorem Shows.transmit_unmapped (h : Shows pages others engine m)
    (transmitting : engine.direction = .transmit)
    (nowhere : engine.regmap.regmap.findPage m.pointer = none) :
    Follows pages others engine m .transmit := by
  have phase := h.read transmitting
  have here : engine.regmap.regmap.findPage engine.regmap.regmap.currentAddress = none := by
    rwa [h.pointer]
  have layout := layoutOf_none nowhere
  rw [h.pages] at layout
  have next := h.inv.sound.relatch
  obtain ⟨sound, same, regmap⟩ := h.inv.sound.readCurrent
  have events := h.inv.sound.readCurrent_unmapped here
  have eeprom : m.call (layoutOf pages) .transmit =
      ({ m with pointer := m.pointer + 1, latch := none }, [.transmitted 0xff]) := by
    simp only [Eeprom.call, Eeprom.transmit, phase, layout]
  have free : engine.regmap.readCurrent.1.regmap.latchedPage = none := by
    rw [regmap]
    exact next.page.trans here
  rw [Follows, transmit_read transmitting, eeprom]
  constructor
  · refine ⟨⟨sound, fun other => absurd transmitting other⟩, ?_, ?_, ?_, h.images.same same, ?_⟩
    · rw [same.pages, h.pages]
    · simp only [regmap, Regmap.advance, next.address, h.pointer]
    · rw [phase]
      exact transmitting
    · simp only [free]
      rfl
  · simp only [events, List.map_append, List.filterMap_append, hidden_relatch h.inv.sound]
    rfl

theorem Shows.transmit_mapped (h : Shows pages others engine m)
    (transmitting : engine.direction = .transmit) {p : Nat}
    (found : engine.regmap.regmap.findPage m.pointer = some p) :
    Follows pages others engine m .transmit := by
  have phase := h.read transmitting
  have here : engine.regmap.regmap.findPage engine.regmap.regmap.currentAddress = some p := by
    rwa [h.pointer]
  have next := h.inv.sound.relatch
  obtain ⟨sound, same, regmap⟩ := h.inv.sound.readCurrent
  obtain ⟨page, s, hp, hs, contains, events⟩ := h.inv.sound.readCurrent_fetched here
  have layout := layoutOf_some found hp hs
  rw [h.pages] at layout hp
  have bytes := h.relatched found hp hs
  have inside : (cellOf p page s m.pointer).offset < (engine.regmap.heap s).length.toNat := by
    obtain ⟨s', hs', length⟩ := h.inv.sound.fits p page (by rw [h.pages]; exact hp)
    obtain rfl : s = s' := Option.some.inj (hs.symm.trans hs')
    have lengths : (engine.regmap.heap s).length = page.length := length
    rw [lengths, ← h.pointer]
    exact Regmap.offset_lt contains
  have eeprom : m.call (layoutOf pages) .transmit =
      ({ m with pointer := m.pointer + 1, latch := some (p, m.imageOf (cellOf p page s m.pointer)) },
        [.transmitted (m.imageOf (cellOf p page s m.pointer) (cellOf p page s m.pointer).offset)]) := by
    simp only [Eeprom.call, Eeprom.transmit, phase, layout]
    rfl
  have latched : engine.regmap.readCurrent.1.regmap.latchedPage = some p := by
    rw [regmap]
    exact next.page.trans here
  rw [Follows, transmit_read transmitting, eeprom]
  constructor
  · refine ⟨⟨sound, fun other => absurd transmitting other⟩, ?_, ?_, ?_, h.images.same same, ?_⟩
    · rw [same.pages, h.pages]
    · simp only [regmap, Regmap.advance, next.address, h.pointer]
    · rw [phase]
      exact transmitting
    · simp only [latched]
      refine ⟨s, _, ?_, rfl, ?_⟩
      · simp [Regmap.snapshotOf, same.pages, h.pages, hp, hs]
      · intro i hi
        rw [same.length] at hi
        rw [same.buffers, regmap]
        exact bytes i hi
  · simp only [events, List.map_append, List.filterMap_append, hidden_relatch h.inv.sound]
    rw [← bytes _ inside, h.pointer]
    rfl

theorem Shows.transmit (h : Shows pages others engine m) :
    Follows pages others engine m .transmit := by
  by_cases transmitting : engine.direction = .transmit
  · cases found : engine.regmap.regmap.findPage m.pointer with
    | none => exact h.transmit_unmapped transmitting found
    | some p => exact h.transmit_mapped transmitting found
  · have out : engine.transmit = (engine, [], Regmap.unmappedValue) := by
      simp only [TargetEngine.transmit, ne_eq, transmitting, not_false_eq_true, if_true]
    have eeprom : m.transmit (layoutOf pages) = (m, [.transmitted 0xff]) := by
      have hphase := h.phase
      cases phase : m.phase with
      | read =>
        rw [phase] at hphase
        exact absurd hphase transmitting
      | idle | high | low | write => simp only [Eeprom.transmit, phase]
    rw [Follows]
    simp only [TargetEngine.call, out, Eeprom.call, eeprom]
    exact ⟨h, rfl⟩

theorem Shows.call (h : Shows pages others engine m) (call : Call) :
    Follows pages others engine m call := by
  have hidden := hidden_endRead engine.regmap
  cases call with
  | beginReceive => exact ⟨h.enter ⟨rfl, rfl⟩, hidden⟩
  | receive value answer => exact h.receive value answer
  | beginTransmit => exact ⟨h.enter rfl, hidden⟩
  | transmit => exact h.transmit
  | «end» => exact ⟨h.enter rfl, hidden⟩
  | abort => exact ⟨h.enter rfl, hidden⟩

/-- A publish that is not stored changes nothing an EEPROM shows. -/
theorem Shows.unstored (h : Shows pages others engine m) {d : Device σ κ}
    (sound : d.Sound others) (regmap : d.regmap = engine.regmap.regmap)
    (same : Device.SameData engine.regmap d) : Shows pages others { engine with regmap := d } m := by
  refine ⟨⟨sound, ?_⟩, ?_, ?_, h.phase, h.images.same same, ?_⟩
  · intro other
    rw [regmap]
    exact h.inv.latched other
  · rw [regmap]
    exact h.pages
  · rw [regmap]
    exact h.pointer
  · have latch := h.latch
    simp only [regmap]
    cases latched : engine.regmap.regmap.latchedPage with
    | none =>
      rw [latched] at latch
      exact latch
    | some p =>
      rw [latched] at latch
      obtain ⟨s, image, hs, held, bytes⟩ := latch
      refine ⟨s, image, by rwa [regmap], held, ?_⟩
      rwa [same.length, same.buffers, regmap]

/-- A stored image becomes the newest one; a latched page keeps its own. -/
theorem Shows.stored (h : Shows pages others engine m) {s : σ} {image : Nat → BitVec 8}
    {length : BitVec 16} (hlength : length = (engine.regmap.heap s).length)
    (free : engine.regmap.regmap.readers others s
      (!Snapshot.activeIndex (engine.regmap.heap s).state) = 0)
    (sound : Device.Sound others (engine.regmap.install s image length)) :
    Shows pages others { engine with regmap := engine.regmap.install s image length }
      { m with images := Function.update m.images s image } := by
  refine ⟨⟨sound, h.inv.latched⟩, h.pages, h.pointer, h.phase, ?_, ?_⟩
  · intro s' i hi
    by_cases hs : s' = s
    · subst hs
      rw [h.inv.sound.activeIndex_install]
      simp only [Device.install, Device.store, Snapshot.install, Function.update_self,
        Snapshot.copy_apply] at hi ⊢
      rw [if_pos (by rw [hlength]; exact hi)]
    · rw [Device.install_ne hs] at hi ⊢
      simpa only [Function.update_of_ne hs] using h.images s' i hi
  · have latch := h.latch
    show LatchShows _ m.latch engine.regmap.regmap.latchedPage
    cases latched : engine.regmap.regmap.latchedPage with
    | none =>
      rw [latched] at latch
      exact latch
    | some p =>
      rw [latched] at latch
      obtain ⟨s', image', hs', held, bytes⟩ := latch
      refine ⟨s', image', hs', held, ?_⟩
      by_cases hs : s' = s
      · subst hs
        have other : engine.regmap.regmap.latchedBuffer ≠
            !Snapshot.activeIndex (engine.regmap.heap s').state := by
          intro same
          have held := Device.snapshotOf_latch latched hs'
          simp [Regmap.readers, held, same] at free
        simpa [Device.install, Device.store, Snapshot.install, Function.update_of_ne other]
          using bytes
      · rwa [Device.install_ne hs]

/-- A whole publish either stores its image or changes nothing. -/
theorem Shows.publish (h : Shows pages others engine m) (s : σ) (data : Option (Nat → BitVec 8))
    (length : BitVec 16) :
    let next := engine.regmap.publish s data length
    ((next.2.1.map Event.regmap).filterMap visible = [] ∧
      Shows pages others { engine with regmap := next.1 } m) ∨
    ∃ image, (next.2.1.map Event.regmap).filterMap visible = [.stored s image] ∧
      Shows pages others { engine with regmap := next.1 }
        { m with images := Function.update m.images s image } := by
  intro next
  obtain ⟨sound, regmap⟩ := h.inv.sound.publish s data length
  rcases h.inv.sound.publish_cases s data length with
    ⟨-, out⟩ | ⟨image, -, -, out⟩ | ⟨image, accepted, free, out⟩
  · refine .inl ?_
    simp only [next, out]
    exact ⟨rfl, h⟩
  · refine .inl ⟨by simp only [next, out]; rfl, h.unstored sound regmap ?_⟩
    simp only [next, out]
    exact .reject engine.regmap s
  · rw [out] at sound
    refine .inr ⟨image, by simp only [next, out]; rfl, ?_⟩
    simp only [next, out]
    exact h.stored (Snapshot.acceptsPublish_length accepted).1 free sound

/-- The images the active buffers hold. -/
def activeImages (heap : σ → Snapshot) (s : σ) : Nat → BitVec 8 :=
  ((heap s).buffers (Snapshot.activeIndex (heap s).state)).bytes

theorem Initial.shows {heap : σ → Snapshot} (initial : Initial heap pages engine)
    (unsaturated : Unsaturated heap pages) :
    Shows pages (initialReaders heap) engine (.initial (activeImages heap)) := by
  have inv := initial.inv unsaturated
  obtain ⟨-, rfl⟩ := initial.eq
  exact ⟨inv, rfl, rfl, rfl, fun s i _ => rfl, rfl⟩

theorem simulation (pages : List (Page σ κ)) (others : σ → Bool → Nat) :
    Machine.Simulation (machine σ κ) (Eeprom.machine (layoutOf pages)) visible
      (Shows pages others) := by
  constructor
  intro engine choice es engine' m related step
  cases choice with
  | call call =>
    simp only [machine, Option.some.injEq, Prod.mk.injEq] at step
    obtain ⟨rfl, rfl⟩ := step
    obtain ⟨next, events⟩ := related.call call
    refine .inr ⟨.call call, _, ?_, next⟩
    simp only [Eeprom.machine, List.filterMap_cons, visible, events]
  | publish s data length =>
    simp only [machine, Option.some.injEq, Prod.mk.injEq] at step
    obtain ⟨rfl, rfl⟩ := step
    rcases related.publish s data length with ⟨hidden, next⟩ | ⟨image, stored, next⟩
    · exact .inl ⟨hidden, next⟩
    · exact .inr ⟨.store s image, _, by rw [stored]; rfl, next⟩

/-- On every run the engine is a 16-bit EEPROM, with the EEPROM's pointer. -/
theorem engine_refines_eeprom {heap : σ → Snapshot} {pages : List (Page σ κ)}
    {start engine : TargetEngine σ κ} (initial : Initial heap pages start)
    (unsaturated : Unsaturated heap pages) {tr : List (Event σ κ)}
    (run : (machine σ κ).Run start tr engine) :
    ∃ m, (Eeprom.machine (layoutOf pages)).Run (.initial (activeImages heap))
        (tr.filterMap visible) m ∧
      engine.regmap.regmap.currentAddress = m.pointer ∧
      InPhase engine.direction engine.addressByteCount engine.pendingAddress m.phase := by
  obtain ⟨m, abstract, related⟩ :=
    (simulation pages (initialReaders heap)).run (initial.shows unsaturated) run
  exact ⟨m, abstract, related.pointer, related.phase⟩

/-- A write of the page, a publish, and a read past the page's end. -/
theorem engine_refines_eeprom_page : ∃ tr engine,
    (machine Unit Unit).Run sample tr engine ∧
    engine.regmap.regmap.currentAddress = 0x0105 ∧
    (tr.filterMap fun | .transmitted value => some value | _ => none) = [0x10, 0x11, 0xff] ∧
    ∃ m, (Eeprom.machine (layoutOf samplePages)).Run (.initial (activeImages sampleHeap))
        (tr.filterMap visible) m ∧
      engine.regmap.regmap.currentAddress = m.pointer ∧
      InPhase engine.direction engine.addressByteCount engine.pendingAddress m.phase := by
  obtain ⟨engine, tr, run, shown⟩ := Machine.exec_shows (machine Unit Unit) sample
    [.call .beginReceive, .call (.receive 0x01 true), .call (.receive 0x02 true),
      .call (.receive 0xaa true), .call .beginReceive, .call (.receive 0x01 true),
      .call (.receive 0x02 true), .call .beginTransmit, .call .transmit,
      .publish () (some fun _ => 0x20) 2, .call .transmit, .call .transmit, .call .end]
    (fun reached => (reached.1.regmap.regmap.currentAddress,
      reached.2.filterMap fun | .transmitted value => some value | _ => none))
    (0x0105, [0x10, 0x11, 0xff]) (by decide +kernel)
  obtain ⟨pointer, values⟩ := Prod.mk.inj shown
  exact ⟨tr, engine, run, pointer, values,
    engine_refines_eeprom sample_initial sample_soleReader.unsaturated run⟩

end TargetEngine

end MspmBaremetal
