import MspmBaremetal.Snapshot
import MspmBaremetal.Transition
import Mathlib.Data.List.Basic

/-!
# Register maps of `lib_regmap`

Page tables and the accesses of a register map's calls and of
`lib_regmap_snapshot_publish` one at a time, in program order. Any number of
register maps share the snapshots of a heap, and each snapshot has one
publisher. A register map's own fields are private to its caller, so they
change together with the access before them.
-/

namespace MspmBaremetal

inductive Access where
  | readOnly
  | readWrite
  | other (value : BitVec 32)
  deriving DecidableEq, Repr

/-- `lib_regmap_write_result_t`. -/
inductive WriteResult where
  | ignored
  | queued
  | rejected
  deriving DecidableEq, Repr

/-- A page of a register map; `σ` names snapshots and `κ` a callback with its
context. `none` is a null pointer. -/
structure Page (σ κ : Type*) where
  firstAddress : BitVec 16
  length : BitVec 16
  access : Access
  snapshot : Option σ
  queueWrite : Option κ

/-- A register map; `latchedPage` is an index into `pages`. -/
structure Regmap (σ κ : Type*) where
  pages : List (Page σ κ)
  currentAddress : BitVec 16
  latchedPage : Option Nat
  latchedBuffer : Bool

variable {σ κ : Type*}

def Page.contains (page : Page σ κ) (address : BitVec 16) : Bool :=
  page.firstAddress.toNat ≤ address.toNat &&
    address.toNat < page.firstAddress.toNat + page.length.toNat

namespace Regmap

/-- `LIB_REGMAP_UNMAPPED_VALUE`. -/
def unmappedValue : BitVec 8 := 0xff

/-- `lib_regmap_find_page`, as an index. -/
def findPage (r : Regmap σ κ) (address : BitVec 16) : Option Nat :=
  r.pages.findIdx? (·.contains address)

/-- The checks `lib_regmap_init` makes of one page. -/
def acceptsPage (heap : σ → Snapshot) (previousEnd : Nat) (page : Page σ κ) : Bool :=
  page.length != 0 && page.firstAddress.toNat + page.length.toNat ≤ 0x10000 &&
    previousEnd ≤ page.firstAddress.toNat && Snapshot.isValid (page.snapshot.map heap) &&
    ((page.snapshot.map heap).map Snapshot.length == some page.length) &&
    (page.access == .readOnly || page.access == .readWrite) &&
    !(page.access == .readWrite && page.queueWrite.isNone)

/-- The loop of `lib_regmap_init`. -/
def acceptsPages (heap : σ → Snapshot) : Nat → List (Page σ κ) → Bool
  | _, [] => true
  | previousEnd, page :: rest =>
    acceptsPage heap previousEnd page &&
      acceptsPages heap (page.firstAddress.toNat + page.length.toNat) rest

/-- `lib_regmap_init`; `none` is a null pointer argument or the result `false`. -/
def init (heap : σ → Snapshot) (given : Option (Regmap σ κ)) (pages : Option (List (Page σ κ))) :
    Option (Regmap σ κ) :=
  match given, pages with
  | some _, some pages =>
    if !pages.isEmpty && acceptsPages heap 0 pages then
      some { pages, currentAddress := 0, latchedPage := none, latchedBuffer := false }
    else none
  | _, _ => none

/-- The snapshot of the page with index `page`. -/
def snapshotOf (r : Regmap σ κ) (page : Nat) : Option σ := r.pages[page]?.bind Page.snapshot

/-! ## The accesses of the calls -/

inductive Call where
  | setAddress (address : BitVec 16)
  | beginRead
  | endRead
  | readCurrent
  | writeCurrent (value : BitVec 8)
  deriving DecidableEq, Repr

/-- What a call goes on with once `lib_regmap_end_read` has returned. -/
inductive Rest where
  | return
  | setAddress (address : BitVec 16)
  | acquire (page : Option Nat)
  | writeCurrent (value : BitVec 8)
  deriving DecidableEq, Repr

/-- Where a register map's call stands before its next access to shared memory. -/
inductive Reader where
  | idle
  | release (rest : Rest)
  | load (page : Nat)
  | exchange (page : Nat) (state : BitVec 32)
  | fetch
  deriving DecidableEq, Repr

/-- Where a call of `lib_regmap_snapshot_publish` stands. -/
inductive Publisher where
  | idle
  | load (data : Nat → BitVec 8)
  | copy (data : Nat → BitVec 8) (state : BitVec 32) (inactiveIndex : Bool) (index : Nat)
  | exchange (data : Nat → BitVec 8) (state : BitVec 32) (inactiveIndex : Bool)

/-- What register map `i`, or the publisher of snapshot `s`, has done. -/
inductive Event (ι σ κ : Type*) where
  | acquired (i : ι) (page : Nat) (s : σ) (buffer : Bool)
  | refused (i : ι) (page : Nat) (s : σ)
  | released (i : ι) (page : Nat) (s : σ) (buffer : Bool)
  | fetched (i : ι) (page : Nat) (s : σ) (address : BitVec 16) (offset : Nat) (value : BitVec 8)
  | unmapped (i : ι) (address : BitVec 16)
  | offered (i : ι) (target : κ) (address : BitVec 16) (value : BitVec 8)
  | ignored (i : ι) (address : BitVec 16) (value : BitVec 8)
  | published (s : σ) (data : Nat → BitVec 8) (buffer : Bool)
  | publishRejected (s : σ)

variable {ι : Type*}

/-- `lib_regmap_read_current` without a latch. -/
def readUnmapped (i : ι) (r : Regmap σ κ) : Regmap σ κ × Reader × List (Event ι σ κ) :=
  ({ r with currentAddress := r.currentAddress + 1 }, .idle, [.unmapped i r.currentAddress])

/-- The callback that gets a byte written at `address`. -/
def target (r : Regmap σ κ) (address : BitVec 16) : Option κ :=
  ((r.findPage address).bind (r.pages[·]?)).bind fun page =>
    if page.access = .readWrite then page.queueWrite else none

/-- `lib_regmap_write_current` after `lib_regmap_end_read`. -/
def write (i : ι) (r : Regmap σ κ) (value : BitVec 8) :
    Regmap σ κ × Reader × List (Event ι σ κ) :=
  ({ r with currentAddress := r.currentAddress + 1 }, .idle,
    [match r.target r.currentAddress with
      | some target => .offered i target r.currentAddress value
      | none => .ignored i r.currentAddress value])

/-- What a call does between `lib_regmap_end_read` and its next shared access. -/
def proceed (i : ι) (r : Regmap σ κ) : Rest → Regmap σ κ × Reader × List (Event ι σ κ)
  | .return => (r, .idle, [])
  | .setAddress address => ({ r with currentAddress := address }, .idle, [])
  | .acquire none => readUnmapped i r
  | .acquire (some page) =>
    match r.snapshotOf page with
    | none => readUnmapped i r
    | some _ => (r, .load page, [])
  | .writeCurrent value => write i r value

/-- `lib_regmap_end_read` up to its atomic operation. -/
def endRead (i : ι) (r : Regmap σ κ) (rest : Rest) : Regmap σ κ × Reader × List (Event ι σ κ) :=
  match r.latchedPage with
  | none => proceed i r rest
  | some _ => (r, .release rest, [])

/-- The beginning of a call. -/
def call (i : ι) (r : Regmap σ κ) : Call → Regmap σ κ × Reader × List (Event ι σ κ)
  | .setAddress address => endRead i r (.setAddress address)
  | .beginRead => endRead i r .return
  | .endRead => endRead i r .return
  | .readCurrent =>
    let page := r.findPage r.currentAddress
    if page = r.latchedPage then
      match page with
      | some _ => (r, .fetch, [])
      | none => readUnmapped i r
    else endRead i r (.acquire page)
  | .writeCurrent value => endRead i r (.writeCurrent value)

/-- The loop of `lib_regmap_snapshot_acquire` on a freshly observed state word. -/
def tryAcquire (i : ι) (r : Regmap σ κ) (page : Nat) (s : σ) (state : BitVec 32) :
    Regmap σ κ × Reader × List (Event ι σ κ) :=
  if Snapshot.readerCount state (Snapshot.activeIndex state) = Snapshot.readerMask then
    let (r, reader, es) := readUnmapped i r
    (r, reader, .refused i page s :: es)
  else (r, .exchange page state, [])

/-- The loop test of the copy in `lib_regmap_snapshot_publish`. The first test
in the compare-exchange loop compares an index with the word it comes from. -/
def copyLoop (snapshot : Snapshot) (data : Nat → BitVec 8) (state : BitVec 32)
    (inactiveIndex : Bool) (index : Nat) : Publisher :=
  if index < snapshot.length.toNat then .copy data state inactiveIndex index
  else .exchange data state inactiveIndex

structure World (ι σ κ : Type*) where
  heap : σ → Snapshot
  regmap : ι → Regmap σ κ
  reader : ι → Reader
  publisher : σ → Publisher

variable [DecidableEq ι] [DecidableEq σ]

/-- Register map `i` gets to `next`. -/
def World.settle (w : World ι σ κ) (i : ι) (next : Regmap σ κ × Reader × List (Event ι σ κ)) :
    World ι σ κ × List (Event ι σ κ) :=
  ({ w with regmap := Function.update w.regmap i next.1,
            reader := Function.update w.reader i next.2.1 }, next.2.2)

def World.store (w : World ι σ κ) (s : σ) (snapshot : Snapshot) : World ι σ κ :=
  { w with heap := Function.update w.heap s snapshot }

def World.setState (w : World ι σ κ) (s : σ) (state : BitVec 32) : World ι σ κ :=
  w.store s { w.heap s with state }

section

omit [DecidableEq σ]

variable (w : World ι σ κ) (i : ι) (next : Regmap σ κ × Reader × List (Event ι σ κ))

@[simp] theorem World.settle_heap : (w.settle i next).1.heap = w.heap := rfl

@[simp] theorem World.settle_publisher : (w.settle i next).1.publisher = w.publisher := rfl

@[simp] theorem World.settle_regmap :
    (w.settle i next).1.regmap = Function.update w.regmap i next.1 := rfl

@[simp] theorem World.settle_reader :
    (w.settle i next).1.reader = Function.update w.reader i next.2.1 := rfl

@[simp] theorem World.settle_events : (w.settle i next).2 = next.2.2 := rfl

end

section

omit [DecidableEq ι]

variable (w : World ι σ κ) (s : σ) (state : BitVec 32)

@[simp] theorem World.setState_heap_self :
    (w.setState s state).heap s = { w.heap s with state } := Function.update_self ..

@[simp] theorem World.setState_heap_ne {s' : σ} (h : s' ≠ s) :
    (w.setState s state).heap s' = w.heap s' := Function.update_of_ne h ..

@[simp] theorem World.setState_regmap : (w.setState s state).regmap = w.regmap := rfl

@[simp] theorem World.setState_reader : (w.setState s state).reader = w.reader := rfl

@[simp] theorem World.setState_publisher : (w.setState s state).publisher = w.publisher := rfl

end

/-- The next access of register map `i`'s call. A weak compare-exchange may
fail although the word is the expected one. A page of an accepted table has a
snapshot. -/
def Reader.step (w : World ι σ κ) (i : ι) (spurious : Bool) :
    Option (World ι σ κ × List (Event ι σ κ)) :=
  let r := w.regmap i
  match w.reader i with
  | .idle => none
  | .release rest =>
    r.latchedPage.bind fun page => (r.snapshotOf page).bind fun s =>
      let w := w.setState s ((w.heap s).state - Snapshot.readerUnit r.latchedBuffer)
      let (w, es) :=
        w.settle i (proceed i { r with latchedPage := none, latchedBuffer := false } rest)
      some (w, .released i page s r.latchedBuffer :: es)
  | .load page =>
    (r.snapshotOf page).bind fun s => some (w.settle i (tryAcquire i r page s (w.heap s).state))
  | .exchange page state =>
    (r.snapshotOf page).bind fun s =>
      if (w.heap s).state = state ∧ spurious = false then
        let active := Snapshot.activeIndex state
        let w := w.setState s (state + Snapshot.readerUnit active)
        let (w, es) :=
          w.settle i ({ r with latchedPage := page, latchedBuffer := active }, .fetch, [])
        some (w, .acquired i page s active :: es)
      else some (w.settle i (tryAcquire i r page s (w.heap s).state))
  | .fetch =>
    r.latchedPage.bind fun page => (r.snapshotOf page).bind fun s =>
      (r.pages[page]?).bind fun p =>
        let offset := r.currentAddress.toNat - p.firstAddress.toNat
        let value := ((w.heap s).buffers r.latchedBuffer).bytes offset
        some (w.settle i ({ r with currentAddress := r.currentAddress + 1 }, .idle,
          [.fetched i page s r.currentAddress offset value]))

/-- The beginning of `lib_regmap_snapshot_publish`. -/
def Publisher.call (snapshot : Snapshot) (data : Option (Nat → BitVec 8)) (length : BitVec 16) :
    Publisher :=
  match snapshot.acceptsPublish data length with
  | some data => .load data
  | none => .idle

def World.setPublisher (w : World ι σ κ) (s : σ) (publisher : Publisher) : World ι σ κ :=
  { w with publisher := Function.update w.publisher s publisher }

section

omit [DecidableEq ι]

@[simp] theorem World.setPublisher_heap (w : World ι σ κ) (s : σ) (publisher : Publisher) :
    (w.setPublisher s publisher).heap = w.heap := rfl

@[simp] theorem World.setPublisher_self (w : World ι σ κ) (s : σ) (publisher : Publisher) :
    (w.setPublisher s publisher).publisher s = publisher := Function.update_self ..

@[simp] theorem World.store_heap_self (w : World ι σ κ) (s : σ) (snapshot : Snapshot) :
    (w.store s snapshot).heap s = snapshot := Function.update_self ..

theorem World.store_same (w : World ι σ κ) (s : σ) : w.store s (w.heap s) = w := by
  simp [World.store]

end

/-- A refused publish of snapshot `s`. -/
def World.reject (w : World ι σ κ) (s : σ) : World ι σ κ × List (Event ι σ κ) :=
  ((w.store s (w.heap s).notePublishRejected).setPublisher s .idle, [.publishRejected s])

/-- The next access of the publisher of snapshot `s`. -/
def Publisher.step (w : World ι σ κ) (s : σ) (spurious : Bool) :
    Option (World ι σ κ × List (Event ι σ κ)) :=
  let snapshot := w.heap s
  match w.publisher s with
  | .idle => none
  | .load data =>
    let inactiveIndex := !Snapshot.activeIndex snapshot.state
    if Snapshot.readerCount snapshot.state inactiveIndex ≠ 0 then some (w.reject s)
    else some (w.setPublisher s (copyLoop snapshot data snapshot.state inactiveIndex 0), [])
  | .copy data state inactiveIndex index =>
    let w := w.store s (snapshot.setByte inactiveIndex index (data index))
    some (w.setPublisher s (copyLoop snapshot data state inactiveIndex (index + 1)), [])
  | .exchange data state inactiveIndex =>
    if snapshot.state = state ∧ spurious = false then
      let w := w.setState s (state ^^^ 0x00000001)
      some (w.setPublisher s .idle, [.published s data inactiveIndex])
    else if (!Snapshot.activeIndex snapshot.state) ≠ inactiveIndex then some (w.reject s)
    else some (w.setPublisher s (.exchange data snapshot.state inactiveIndex), [])

inductive Choice (ι σ : Type*) where
  | call (i : ι) (call : Call)
  | reader (i : ι) (spurious : Bool)
  | publish (s : σ) (data : Option (Nat → BitVec 8)) (length : BitVec 16)
  | publisher (s : σ) (spurious : Bool)

def machine (ι σ κ : Type*) [DecidableEq ι] [DecidableEq σ] :
    Machine (World ι σ κ) (Choice ι σ) (Event ι σ κ) where
  step w
    | .call i c =>
      match w.reader i with
      | .idle => some (w.settle i (Regmap.call i (w.regmap i) c))
      | _ => none
    | .reader i spurious => Reader.step w i spurious
    | .publish s data length =>
      match w.publisher s with
      | .idle => some (w.setPublisher s (Publisher.call (w.heap s) data length), [])
      | _ => none
    | .publisher s spurious => Publisher.step w s spurious

/-! ## What an access can do -/

/-- The accesses of register map `i`'s call. -/
inductive Reader.Moves (w : World ι σ κ) (i : ι) : World ι σ κ → List (Event ι σ κ) → Prop
  | released (rest : Rest) (page : Nat) (s : σ) (position : w.reader i = .release rest)
    (latched : (w.regmap i).latchedPage = some page)
    (target : (w.regmap i).snapshotOf page = some s)
    (next : Regmap σ κ × Reader × List (Event ι σ κ))
    (goesOn : next = proceed i { w.regmap i with latchedPage := none, latchedBuffer := false } rest) :
    Moves w i
      ((w.setState s
        ((w.heap s).state - Snapshot.readerUnit (w.regmap i).latchedBuffer)).settle i next).1
      (.released i page s (w.regmap i).latchedBuffer :: next.2.2)
  | tried (page : Nat) (s : σ)
    (position : w.reader i = .load page ∨ ∃ state, w.reader i = .exchange page state) :
    Moves w i (w.settle i (tryAcquire i (w.regmap i) page s (w.heap s).state)).1
      (tryAcquire i (w.regmap i) page s (w.heap s).state).2.2
  | acquired (page : Nat) (s : σ) (position : w.reader i = .exchange page (w.heap s).state)
    (target : (w.regmap i).snapshotOf page = some s) :
    Moves w i
      ((w.setState s ((w.heap s).state +
        Snapshot.readerUnit (Snapshot.activeIndex (w.heap s).state))).settle i
          ({ w.regmap i with latchedPage := page,
                             latchedBuffer := Snapshot.activeIndex (w.heap s).state }, .fetch, [])).1
      [.acquired i page s (Snapshot.activeIndex (w.heap s).state)]
  | fetched (p : Nat) (s : σ) (page : Page σ κ) (position : w.reader i = .fetch)
    (latched : (w.regmap i).latchedPage = some p) (target : (w.regmap i).snapshotOf p = some s)
    (listed : (w.regmap i).pages[p]? = some page) :
    Moves w i
      (w.settle i ({ w.regmap i with currentAddress := (w.regmap i).currentAddress + 1 }, .idle, [])).1
      [.fetched i p s (w.regmap i).currentAddress
        ((w.regmap i).currentAddress.toNat - page.firstAddress.toNat)
        (((w.heap s).buffers (w.regmap i).latchedBuffer).bytes
          ((w.regmap i).currentAddress.toNat - page.firstAddress.toNat))]

theorem Reader.step_moves {w w' : World ι σ κ} {i : ι} {spurious : Bool} {es : List (Event ι σ κ)}
    (step : Reader.step w i spurious = some (w', es)) : Reader.Moves w i w' es := by
  cases position : w.reader i with
  | idle => simp [Reader.step, position] at step
  | release rest =>
    simp only [Reader.step, position, Option.bind_eq_some_iff, Option.some.injEq, Prod.mk.injEq] at step
    obtain ⟨page, latched, s, target, rfl, rfl⟩ := step
    exact .released rest page s position latched target _ rfl
  | load page =>
    simp only [Reader.step, position, Option.bind_eq_some_iff, Option.some.injEq] at step
    obtain ⟨s, -, step⟩ := step
    cases step
    exact .tried page s (.inl position)
  | exchange page state =>
    simp only [Reader.step, position, Option.bind_eq_some_iff] at step
    obtain ⟨s, target, step⟩ := step
    split at step
    · rename_i same
      obtain ⟨rfl, -⟩ := same
      cases step
      exact .acquired page s position target
    · cases step
      exact .tried page s (.inr ⟨state, position⟩)
  | fetch =>
    simp only [Reader.step, position, Option.bind_eq_some_iff, Option.some.injEq] at step
    obtain ⟨p, latched, s, target, page, listed, step⟩ := step
    cases step
    exact .fetched p s page position latched target listed

/-- The accesses of the publisher of snapshot `s`. -/
inductive Publisher.Moves (w : World ι σ κ) (s : σ) : World ι σ κ → List (Event ι σ κ) → Prop
  | refused (data : Nat → BitVec 8) (position : w.publisher s = .load data)
    (held : Snapshot.readerCount (w.heap s).state (!Snapshot.activeIndex (w.heap s).state) ≠ 0) :
    Moves w s (w.reject s).1 (w.reject s).2
  | loaded (data : Nat → BitVec 8) (position : w.publisher s = .load data)
    (free : Snapshot.readerCount (w.heap s).state (!Snapshot.activeIndex (w.heap s).state) = 0) :
    Moves w s (w.setPublisher s (copyLoop (w.heap s) data (w.heap s).state
      (!Snapshot.activeIndex (w.heap s).state) 0)) []
  | copied (data : Nat → BitVec 8) (state : BitVec 32) (inactiveIndex : Bool) (index : Nat)
    (position : w.publisher s = .copy data state inactiveIndex index) :
    Moves w s ((w.store s ((w.heap s).setByte inactiveIndex index (data index))).setPublisher s
      (copyLoop (w.heap s) data state inactiveIndex (index + 1))) []
  | published (data : Nat → BitVec 8) (inactiveIndex : Bool)
    (position : w.publisher s = .exchange data (w.heap s).state inactiveIndex) :
    Moves w s ((w.setState s ((w.heap s).state ^^^ 0x00000001)).setPublisher s .idle)
      [.published s data inactiveIndex]
  | turned (data : Nat → BitVec 8) (state : BitVec 32) (inactiveIndex : Bool)
    (position : w.publisher s = .exchange data state inactiveIndex)
    (active : (!Snapshot.activeIndex (w.heap s).state) ≠ inactiveIndex) :
    Moves w s (w.reject s).1 (w.reject s).2
  | retried (data : Nat → BitVec 8) (state : BitVec 32) (inactiveIndex : Bool)
    (position : w.publisher s = .exchange data state inactiveIndex)
    (inactive : (!Snapshot.activeIndex (w.heap s).state) = inactiveIndex) :
    Moves w s (w.setPublisher s (.exchange data (w.heap s).state inactiveIndex)) []

omit [DecidableEq ι] in
theorem Publisher.step_moves {w w' : World ι σ κ} {s : σ} {spurious : Bool} {es : List (Event ι σ κ)}
    (step : Publisher.step w s spurious = some (w', es)) : Publisher.Moves w s w' es := by
  cases position : w.publisher s with
  | idle => simp [Publisher.step, position] at step
  | load data =>
    simp only [Publisher.step, position] at step
    split at step <;> cases step
    · exact .refused data position (by assumption)
    · exact .loaded data position (not_not.mp (by assumption))
  | copy data state inactiveIndex index =>
    simp only [Publisher.step, position] at step
    cases step
    exact .copied data state inactiveIndex index position
  | exchange data state inactiveIndex =>
    simp only [Publisher.step, position] at step
    split at step
    · rename_i same
      obtain ⟨rfl, -⟩ := same
      cases step
      exact .published data inactiveIndex position
    · split at step <;> cases step
      · exact .turned data state inactiveIndex position (by assumption)
      · exact .retried data state inactiveIndex position (not_not.mp (by assumption))

end Regmap

end MspmBaremetal
