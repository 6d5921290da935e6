import MspmBaremetal.RegmapRuns

/-!
# Whole calls of `lib_regmap`

The calls of one register map, and of `lib_regmap_snapshot_publish`, when
nothing interrupts them. Each is a run of the accesses of `Regmap.machine` with
the same events (`Device.readCurrent_run`, `Device.publish_run`).
-/

namespace MspmBaremetal

open Regmap

/-- A register map and the snapshots in memory. -/
structure Device (σ κ : Type*) where
  heap : σ → Snapshot
  regmap : Regmap σ κ

variable {σ κ : Type*}

namespace Regmap

def unlatch (r : Regmap σ κ) : Regmap σ κ := { r with latchedPage := none, latchedBuffer := false }

def advance (r : Regmap σ κ) : Regmap σ κ := { r with currentAddress := r.currentAddress + 1 }

/-- The snapshot and buffer the register map holds. -/
def latch (r : Regmap σ κ) : Option (σ × Bool) :=
  (r.latchedPage.bind r.snapshotOf).map (·, r.latchedBuffer)

theorem unlatch_latch (r : Regmap σ κ) : r.unlatch.latch = none := rfl

/-- The readers of each buffer, `others` of them not this register map. -/
def readers [DecidableEq σ] (r : Regmap σ κ) (others : σ → Bool → Nat) (s : σ) (b : Bool) : Nat :=
  others s b + if r.latch = some (s, b) then 1 else 0

end Regmap

namespace Device

variable [DecidableEq σ]

def store (d : Device σ κ) (s : σ) (snapshot : Snapshot) : Device σ κ :=
  { d with heap := Function.update d.heap s snapshot }

/-- `lib_regmap_end_read`. -/
def endRead (d : Device σ κ) : Device σ κ × List (Event Unit σ κ) :=
  match d.regmap.latchedPage with
  | none => (d, [])
  | some page =>
    match d.regmap.snapshotOf page with
    | none => ({ d with regmap := d.regmap.unlatch }, [])
    | some s =>
      ({ d.store s ((d.heap s).release d.regmap.latchedBuffer) with regmap := d.regmap.unlatch },
        [.released () page s d.regmap.latchedBuffer])

/-- `lib_regmap_begin_read`. -/
def beginRead (d : Device σ κ) : Device σ κ × List (Event Unit σ κ) := d.endRead

/-- `lib_regmap_set_address`. -/
def setAddress (d : Device σ κ) (address : BitVec 16) : Device σ κ × List (Event Unit σ κ) :=
  let (d, es) := d.endRead
  ({ d with regmap := { d.regmap with currentAddress := address } }, es)

/-- The acquire of `lib_regmap_read_current` for a page other than the latched one. -/
def latchPage (d : Device σ κ) (page : Option Nat) : Device σ κ × List (Event Unit σ κ) :=
  match page with
  | none => (d, [])
  | some page =>
    match d.regmap.snapshotOf page with
    | none => (d, [])
    | some s =>
      match (d.heap s).acquire with
      | none => (d, [.refused () page s])
      | some (snapshot, buffer) =>
        ({ d.store s snapshot with
            regmap := { d.regmap with latchedPage := page, latchedBuffer := buffer } },
          [.acquired () page s buffer])

/-- What `lib_regmap_read_current` does to the latch. -/
def relatch (d : Device σ κ) : Device σ κ × List (Event Unit σ κ) :=
  let page := d.regmap.findPage d.regmap.currentAddress
  if page ≠ d.regmap.latchedPage then
    let (d, released) := d.endRead
    let (d, es) := d.latchPage page
    (d, released ++ es)
  else (d, [])

/-- What `lib_regmap_read_current` does after that. -/
def fetch (d : Device σ κ) : Device σ κ × List (Event Unit σ κ) × BitVec 8 :=
  let r := d.regmap
  let d := { d with regmap := r.advance }
  match r.latchedPage.bind fun p => r.pages[p]?.bind fun page => page.snapshot.map (p, page, ·) with
  | none => (d, [.unmapped () r.currentAddress], unmappedValue)
  | some (p, page, s) =>
    let offset := r.currentAddress.toNat - page.firstAddress.toNat
    let value := ((d.heap s).buffers r.latchedBuffer).bytes offset
    (d, [.fetched () p s r.currentAddress offset value], value)

/-- `lib_regmap_read_current`. -/
def readCurrent (d : Device σ κ) : Device σ κ × List (Event Unit σ κ) × BitVec 8 :=
  let (d, es) := d.relatch
  let (d, fs, value) := d.fetch
  (d, es ++ fs, value)

/-- `lib_regmap_write_current`; `answer` is what `queue_write` returns. -/
def writeCurrent (d : Device σ κ) (value : BitVec 8) (answer : Bool) :
    Device σ κ × List (Event Unit σ κ) × WriteResult :=
  let (d, es) := d.endRead
  let r := d.regmap
  let (e, result) := match r.target r.currentAddress with
    | none => (Event.ignored () r.currentAddress value, WriteResult.ignored)
    | some target =>
      (.offered () target r.currentAddress value, if answer then .queued else .rejected)
  ({ d with regmap := r.advance }, es ++ [e], result)

/-- `lib_regmap_snapshot_publish` of snapshot `s`. -/
def publish (d : Device σ κ) (s : σ) (data : Option (Nat → BitVec 8)) (length : BitVec 16) :
    Device σ κ × List (Event Unit σ κ) × Bool :=
  match (d.heap s).publish data length with
  | (snapshot, .invalid) => (d.store s snapshot, [], false)
  | (snapshot, .rejected) => (d.store s snapshot, [.publishRejected s], false)
  | (snapshot, .published data buffer) => (d.store s snapshot, [.published s data buffer], true)

/-- What a successful publish leaves. -/
def install (d : Device σ κ) (s : σ) (image : Nat → BitVec 8) (length : BitVec 16) : Device σ κ :=
  d.store s ((d.heap s).install (!Snapshot.activeIndex (d.heap s).state) image length)

/-! ## Accounts of the readers -/

/-- Every state word counts the other readers and the latch. -/
structure Sound (others : σ → Bool → Nat) (d : Device σ κ) : Prop where
  fits : Fits (fun s => (d.heap s).length) d.regmap.pages
  room : ∀ page ∈ d.regmap.pages, ∀ s, page.snapshot = some s → ∀ b, others s b < 32767
  latched : ∀ p, d.regmap.latchedPage = some p → p < d.regmap.pages.length
  fit : ∀ s, Snapshot.Fit (d.regmap.readers others s)
  word : ∀ s, ∃ top, (d.heap s).state =
    Snapshot.pack top (Snapshot.activeIndex (d.heap s).state) (d.regmap.readers others s)

/-- Nothing but reader counts and the register map's own fields changed. -/
structure SameData (d d' : Device σ κ) : Prop where
  pages : d'.regmap.pages = d.regmap.pages
  buffers : ∀ s, (d'.heap s).buffers = (d.heap s).buffers
  length : ∀ s, (d'.heap s).length = (d.heap s).length
  active : ∀ s, Snapshot.activeIndex (d'.heap s).state = Snapshot.activeIndex (d.heap s).state

variable {others : σ → Bool → Nat} {d d' d'' : Device σ κ}

omit [DecidableEq σ] in
theorem SameData.refl (d : Device σ κ) : SameData d d :=
  ⟨rfl, fun _ => rfl, fun _ => rfl, fun _ => rfl⟩

omit [DecidableEq σ] in
theorem SameData.trans (h : SameData d d') (h' : SameData d' d'') : SameData d d'' :=
  ⟨h'.pages.trans h.pages, fun s => (h'.buffers s).trans (h.buffers s),
    fun s => (h'.length s).trans (h.length s), fun s => (h'.active s).trans (h.active s)⟩

/-- A change of the register map that keeps its pages and its latch. -/
theorem Sound.relocate (h : Sound others d) {r : Regmap σ κ} (pages : r.pages = d.regmap.pages)
    (page : r.latchedPage = d.regmap.latchedPage) (buffer : r.latchedBuffer = d.regmap.latchedBuffer) :
    Sound others { d with regmap := r } := by
  have latch : r.latch = d.regmap.latch := by
    unfold Regmap.latch Regmap.snapshotOf
    simp only [pages, page, buffer]
  have readers : r.readers others = d.regmap.readers others := by
    funext s b
    simp only [Regmap.readers, latch]
  constructor
  · simpa only [pages] using h.fits
  · simpa only [pages] using h.room
  · simpa only [pages, page] using h.latched
  · simpa only [readers] using h.fit
  · simpa only [readers] using h.word

/-- A page of the table has a snapshot. -/
theorem Sound.snapshotOf (h : Sound others d) {p : Nat} (inside : p < d.regmap.pages.length) :
    ∃ page s, d.regmap.pages[p]? = some page ∧ page.snapshot = some s ∧
      d.regmap.snapshotOf p = some s ∧ (d.heap s).length = page.length := by
  have hp : d.regmap.pages[p]? = some d.regmap.pages[p] := List.getElem?_eq_getElem inside
  obtain ⟨s, hs, length⟩ := h.fits p _ hp
  exact ⟨_, s, hp, hs, by simp [Regmap.snapshotOf, hp, hs], length⟩

/-- The word of snapshot `s` changes together with the register map's latch on it. -/
theorem Sound.reword (h : Sound others d) {s : σ} {state : BitVec 32} {r : Regmap σ κ}
    (pages : r.pages = d.regmap.pages) (inside : ∀ p, r.latchedPage = some p → p < r.pages.length)
    (elsewhere : ∀ s' ≠ s, ∀ b, r.latch = some (s', b) ↔ d.regmap.latch = some (s', b))
    (fit : Snapshot.Fit (r.readers others s))
    (word : ∃ top, state =
      Snapshot.pack top (Snapshot.activeIndex (d.heap s).state) (r.readers others s)) :
    Sound others { d.store s { d.heap s with state } with regmap := r } ∧
    SameData d { d.store s { d.heap s with state } with regmap := r } := by
  have readers : ∀ s' ≠ s, r.readers others s' = d.regmap.readers others s' := by
    intro s' hs
    funext b
    simp only [Regmap.readers, elsewhere s' hs b]
  obtain ⟨top, hstate⟩ := word
  have active : Snapshot.activeIndex state = Snapshot.activeIndex (d.heap s).state := by
    rw [hstate, Snapshot.pack_activeIndex fit]
  have same : SameData d { d.store s { d.heap s with state } with regmap := r } := by
    constructor
    · exact pages
    all_goals
      intro s'
      by_cases hs : s' = s
      · subst hs
        simp [store, active]
      · simp [store, hs]
  refine ⟨?_, same⟩
  constructor
  · rw [funext same.length]
    simpa only [pages] using h.fits
  · simpa only [pages] using h.room
  · exact inside
  · intro s'
    by_cases hs : s' = s
    · subst hs
      exact fit
    · rw [readers s' hs]
      exact h.fit s'
  · intro s'
    rw [same.active]
    by_cases hs : s' = s
    · subst hs
      exact ⟨top, by simpa [store] using hstate⟩
    · obtain ⟨top, hw⟩ := h.word s'
      exact ⟨top, by simpa [store, hs, readers s' hs] using hw⟩

/-! ## One lemma per call -/

omit [DecidableEq σ] in
theorem snapshotOf_latch {r : Regmap σ κ} {p : Nat} {s : σ} (page : r.latchedPage = some p)
    (hs : r.snapshotOf p = some s) : r.latch = some (s, r.latchedBuffer) := by
  simp [Regmap.latch, page, hs]

theorem endRead_events (d : Device σ κ) :
    d.endRead.2 = [] ∨ ∃ p s b, d.endRead.2 = [.released () p s b] := by
  unfold endRead
  split
  · exact .inl rfl
  · split
    · exact .inl rfl
    · exact .inr ⟨_, _, _, rfl⟩

theorem endRead_none (latched : d.regmap.latchedPage = none) : d.endRead = (d, []) := by
  simp only [endRead, latched]

theorem endRead_regmap (d : Device σ κ) :
    d.endRead.1.regmap.pages = d.regmap.pages ∧
    d.endRead.1.regmap.currentAddress = d.regmap.currentAddress ∧
    d.endRead.1.regmap.latchedPage = none := by
  unfold endRead
  split
  · exact ⟨rfl, rfl, ‹_›⟩
  · split <;> exact ⟨rfl, rfl, rfl⟩

theorem Sound.endRead (h : Sound others d) :
    Sound others d.endRead.1 ∧ SameData d d.endRead.1 := by
  cases latched : d.regmap.latchedPage with
  | none =>
    rw [endRead_none latched]
    exact ⟨h, .refl d⟩
  | some p =>
    obtain ⟨page, s, -, -, hs, -⟩ := h.snapshotOf (h.latched p latched)
    have held := snapshotOf_latch latched hs
    obtain ⟨top, hw⟩ := h.word s
    have count : 0 < d.regmap.readers others s d.regmap.latchedBuffer := by
      simp [Regmap.readers, held]
    have readers : d.regmap.unlatch.readers others s =
        Function.update (d.regmap.readers others s) d.regmap.latchedBuffer
          (d.regmap.readers others s d.regmap.latchedBuffer - 1) := by
      funext b
      by_cases hb : b = d.regmap.latchedBuffer
      · subst hb
        simp [Regmap.readers, held, Regmap.unlatch_latch]
      · simp [Regmap.readers, held, hb, Ne.symm hb, Regmap.unlatch_latch]
    simp only [Device.endRead, latched, hs]
    apply h.reword (r := d.regmap.unlatch) rfl
    · intro p' hp'
      cases hp'
    · intro s' hs' b
      simp [held, Ne.symm hs', Regmap.unlatch_latch]
    · intro b
      have fit := h.fit s b
      rw [readers]
      by_cases hb : b = d.regmap.latchedBuffer
      · subst hb
        rw [Function.update_self]
        omega
      · rwa [Function.update_of_ne hb]
    · refine ⟨top, ?_⟩
      rw [hw, Snapshot.pack_activeIndex (h.fit s), Snapshot.pack_release count, readers]

/-- A page can always be latched while its readers leave room. -/
theorem Sound.latchPage (h : Sound others d) {p : Nat} (free : d.regmap.latchedPage = none)
    (inside : p < d.regmap.pages.length) :
    ∃ s, d.regmap.snapshotOf p = some s ∧
      (d.latchPage (some p)).2 = [.acquired () p s (Snapshot.activeIndex (d.heap s).state)] ∧
      (d.latchPage (some p)).1.regmap = { d.regmap with
        latchedPage := some p, latchedBuffer := Snapshot.activeIndex (d.heap s).state } ∧
      Sound others (d.latchPage (some p)).1 ∧ SameData d (d.latchPage (some p)).1 := by
  obtain ⟨page, s, hp, hpage, hs, -⟩ := h.snapshotOf inside
  refine ⟨s, hs, ?_⟩
  obtain ⟨top, hw⟩ := h.word s
  have nothing : d.regmap.latch = none := by simp [Regmap.latch, free]
  set active := Snapshot.activeIndex (d.heap s).state
  have room := h.room page (List.mem_of_getElem? hp) s hpage active
  have before : d.regmap.readers others s active = others s active := by
    simp [Regmap.readers, nothing]
  have acquired : (d.heap s).acquire = some
      ({ d.heap s with state := (d.heap s).state + Snapshot.readerUnit active }, active) := by
    rw [Snapshot.acquire, if_neg]
    intro full
    have count := congrArg BitVec.toNat full
    rw [hw, Snapshot.pack_activeIndex (h.fit s), Snapshot.pack_readerCount _ _ _ (h.fit s),
      before, show Snapshot.readerMask.toNat = 32767 from rfl] at count
    omega
  set r := { d.regmap with latchedPage := some p, latchedBuffer := active }
  have held : r.latch = some (s, active) := snapshotOf_latch rfl hs
  have readers : r.readers others s = Function.update (d.regmap.readers others s) active
      (d.regmap.readers others s active + 1) := by
    funext b
    by_cases hb : b = active
    · subst hb
      simp [Regmap.readers, held, nothing]
    · simp [Regmap.readers, held, nothing, hb, Ne.symm hb]
  simp only [Device.latchPage, hs, acquired]
  refine ⟨trivial, rfl, h.reword (r := r) rfl ?_ ?_ ?_ ?_⟩
  · intro p' hp'
    cases hp'
    exact inside
  · intro s' hs' b
    simp [held, nothing, Ne.symm hs']
  · intro b
    have fit := h.fit s b
    rw [readers]
    by_cases hb : b = active
    · subst hb
      rw [Function.update_self]
      omega
    · rwa [Function.update_of_ne hb]
  · exact ⟨top, by rw [hw, Snapshot.pack_activeIndex (h.fit s), Snapshot.pack_acquire, readers]⟩

omit [DecidableEq σ] in
theorem findPage_lt {r : Regmap σ κ} {address : BitVec 16} {p : Nat}
    (found : r.findPage address = some p) : p < r.pages.length := by
  obtain ⟨page, hp, -⟩ := findPage_some found
  exact (List.getElem?_eq_some_iff.mp hp).1

/-- After `relatch` the latch is on the page of the current address, if any. -/
structure Relatched (others : σ → Bool → Nat) (d : Device σ κ)
    (next : Device σ κ × List (Event Unit σ κ)) : Prop where
  sound : Sound others next.1
  same : SameData d next.1
  address : next.1.regmap.currentAddress = d.regmap.currentAddress
  page : next.1.regmap.latchedPage = d.regmap.findPage d.regmap.currentAddress
  how : (d.regmap.latchedPage = d.regmap.findPage d.regmap.currentAddress ∧
      next.1.regmap.latchedBuffer = d.regmap.latchedBuffer ∧ next.2 = []) ∨
    (d.regmap.latchedPage ≠ d.regmap.findPage d.regmap.currentAddress ∧
      ((d.regmap.findPage d.regmap.currentAddress = none ∧ next.2 = d.endRead.2) ∨
      ∃ p s, d.regmap.snapshotOf p = some s ∧
        d.regmap.findPage d.regmap.currentAddress = some p ∧
        next.1.regmap.latchedBuffer = Snapshot.activeIndex (d.heap s).state ∧
        next.2 = d.endRead.2 ++ [.acquired () p s next.1.regmap.latchedBuffer]))

theorem Sound.relatch (h : Sound others d) : Relatched others d d.relatch := by
  obtain ⟨pages, address, free⟩ := endRead_regmap d
  obtain ⟨sound, same⟩ := h.endRead
  by_cases kept : d.regmap.findPage d.regmap.currentAddress = d.regmap.latchedPage
  · simp only [Device.relatch, kept, ne_eq, not_true_eq_false, if_false]
    exact ⟨h, .refl d, rfl, kept.symm, .inl ⟨kept.symm, rfl, rfl⟩⟩
  · simp only [Device.relatch, ne_eq, kept, not_false_eq_true, if_true]
    cases found : d.regmap.findPage d.regmap.currentAddress with
    | none =>
      exact ⟨sound, same, address, by rw [found]; exact free,
        .inr ⟨Ne.symm kept, .inl ⟨found, List.append_nil _⟩⟩⟩
    | some p =>
      obtain ⟨s, hs, events, regmap, sound', same'⟩ :=
        sound.latchPage free (by rw [pages]; exact findPage_lt found)
      have hs' : d.regmap.snapshotOf p = some s := by rwa [Regmap.snapshotOf, pages] at hs
      rw [same.active] at events regmap
      refine ⟨sound', same.trans same', ?_, ?_, .inr ⟨Ne.symm kept, .inr ⟨p, s, hs', found, ?_, ?_⟩⟩⟩
      · simp only [regmap, address]
      · simp only [regmap, found]
      · simp only [regmap]
      · simp only [events, regmap]

theorem Sound.advance (h : Sound others d) :
    Sound others { d with regmap := d.regmap.advance } ∧
    SameData d { d with regmap := d.regmap.advance } :=
  ⟨h.relocate rfl rfl rfl, rfl, fun _ => rfl, fun _ => rfl, fun _ => rfl⟩

omit [DecidableEq σ] in
theorem fetch_regmap (d : Device σ κ) :
    d.fetch.1 = { d with regmap := d.regmap.advance } := by
  simp only [fetch]
  split <;> rfl

theorem Sound.readCurrent (h : Sound others d) :
    Sound others d.readCurrent.1 ∧ SameData d d.readCurrent.1 ∧
    d.readCurrent.1.regmap = d.relatch.1.regmap.advance := by
  have next := h.relatch
  obtain ⟨sound, same⟩ := next.sound.advance
  have out : d.readCurrent.1 = { d.relatch.1 with regmap := d.relatch.1.regmap.advance } :=
    fetch_regmap d.relatch.1
  rw [out]
  exact ⟨sound, next.same.trans same, rfl⟩

theorem Sound.readCurrent_unmapped (h : Sound others d)
    (nowhere : d.regmap.findPage d.regmap.currentAddress = none) :
    d.readCurrent.2 = (d.relatch.2 ++ [.unmapped () d.regmap.currentAddress], unmappedValue) := by
  have next := h.relatch
  have page := next.page
  rw [nowhere] at page
  simp [Device.readCurrent, fetch, page, next.address]

theorem Sound.readCurrent_fetched (h : Sound others d) {p : Nat}
    (found : d.regmap.findPage d.regmap.currentAddress = some p) :
    ∃ page s, d.regmap.pages[p]? = some page ∧ page.snapshot = some s ∧
      page.contains d.regmap.currentAddress = true ∧
      let offset := d.regmap.currentAddress.toNat - page.firstAddress.toNat
      let value := ((d.heap s).buffers d.relatch.1.regmap.latchedBuffer).bytes offset
      d.readCurrent.2 =
        (d.relatch.2 ++ [.fetched () p s d.regmap.currentAddress offset value], value) := by
  have next := h.relatch
  obtain ⟨page, hp, contains⟩ := findPage_some found
  obtain ⟨s, hs, -⟩ := h.fits p page hp
  refine ⟨page, s, hp, hs, contains, ?_⟩
  have latched := next.page
  rw [found] at latched
  simp [Device.readCurrent, fetch, latched, next.same.pages, hp, hs, next.address, next.same.buffers]

theorem Sound.writeCurrent (h : Sound others d) (value : BitVec 8) (answer : Bool) :
    Sound others (d.writeCurrent value answer).1 ∧ SameData d (d.writeCurrent value answer).1 := by
  obtain ⟨sound, same⟩ := h.endRead
  obtain ⟨sound', same'⟩ := sound.advance
  exact ⟨sound', same.trans same'⟩

theorem Sound.setAddress (h : Sound others d) (address : BitVec 16) :
    Sound others (d.setAddress address).1 ∧ SameData d (d.setAddress address).1 := by
  obtain ⟨sound, same⟩ := h.endRead
  exact ⟨sound.relocate rfl rfl rfl, same.trans ⟨rfl, fun _ => rfl, fun _ => rfl, fun _ => rfl⟩⟩

/-- The publish of a snapshot, by the readers of its inactive buffer. -/
theorem Sound.publish_cases (h : Sound others d) (s : σ) (data : Option (Nat → BitVec 8))
    (length : BitVec 16) :
    let inactive := !Snapshot.activeIndex (d.heap s).state
    ((d.heap s).acceptsPublish data length = none ∧ d.publish s data length = (d, [], false)) ∨
    (∃ image, (d.heap s).acceptsPublish data length = some image ∧
      d.regmap.readers others s inactive ≠ 0 ∧
      d.publish s data length =
        (d.store s (d.heap s).notePublishRejected, [.publishRejected s], false)) ∨
    (∃ image, (d.heap s).acceptsPublish data length = some image ∧
      d.regmap.readers others s inactive = 0 ∧
      d.publish s data length = (d.install s image length, [.published s image inactive], true)) := by
  intro inactive
  obtain ⟨top, hw⟩ := h.word s
  have count : (Snapshot.readerCount (d.heap s).state inactive).toNat =
      d.regmap.readers others s inactive := by
    rw [hw, Snapshot.pack_readerCount _ _ _ (h.fit s)]
  cases accepted : (d.heap s).acceptsPublish data length with
  | none =>
    refine .inl ⟨rfl, ?_⟩
    simp [publish, Snapshot.publish, accepted, store]
  | some image =>
    by_cases free : d.regmap.readers others s inactive = 0
    · refine .inr (.inr ⟨image, rfl, free, ?_⟩)
      have zero : Snapshot.readerCount (d.heap s).state inactive = 0 :=
        BitVec.eq_of_toNat_eq (count.trans free)
      simp only [publish, Snapshot.publish, accepted]
      rw [if_neg (not_not.mpr zero)]
      rfl
    · refine .inr (.inl ⟨image, rfl, free, ?_⟩)
      have busy : Snapshot.readerCount (d.heap s).state inactive ≠ 0 := by
        intro zero
        rw [zero] at count
        exact free count.symm
      simp only [publish, Snapshot.publish, accepted]
      rw [if_pos busy]

omit [DecidableEq σ] in
theorem word_of_active {state : BitVec 32} {readers : Bool → Nat} {top active : Bool}
    (fit : Snapshot.Fit readers) (h : state = Snapshot.pack top active readers) :
    ∃ top, state = Snapshot.pack top (Snapshot.activeIndex state) readers := by
  refine ⟨top, ?_⟩
  rw [h, Snapshot.pack_activeIndex fit]

/-- Publishing changes one snapshot, and no reader count. -/
theorem Sound.overwrite (h : Sound others d) {s : σ} {snapshot : Snapshot}
    (length : snapshot.length = (d.heap s).length)
    (word : ∃ top active, snapshot.state = Snapshot.pack top active (d.regmap.readers others s)) :
    Sound others (d.store s snapshot) := by
  constructor
  · have lengths : (fun s' => ((d.store s snapshot).heap s').length) =
        fun s' => (d.heap s').length := by
      funext s'
      by_cases hs : s' = s
      · subst hs
        simpa [store] using length
      · simp [store, hs]
    rw [lengths]
    exact h.fits
  · exact h.room
  · exact h.latched
  · exact h.fit
  · intro s'
    by_cases hs : s' = s
    · subst hs
      obtain ⟨top, active, hw⟩ := word
      simpa [store] using word_of_active (h.fit s') hw
    · simpa [store, hs] using h.word s'

theorem Sound.publish (h : Sound others d) (s : σ) (data : Option (Nat → BitVec 8))
    (length : BitVec 16) :
    Sound others (d.publish s data length).1 ∧
    (d.publish s data length).1.regmap = d.regmap := by
  obtain ⟨top, hw⟩ := h.word s
  rcases h.publish_cases s data length with ⟨-, out⟩ | ⟨image, -, -, out⟩ | ⟨image, -, -, out⟩
  · rw [out]
    exact ⟨h, rfl⟩
  · rw [out]
    exact ⟨h.overwrite rfl ⟨_, _, hw⟩, rfl⟩
  · rw [out]
    refine ⟨h.overwrite rfl ⟨top, !Snapshot.activeIndex (d.heap s).state, ?_⟩, rfl⟩
    simp only [Snapshot.install]
    conv_lhs => rw [hw]
    exact Snapshot.pack_toggle (h.fit s)

theorem SameData.reject (d : Device σ κ) (s : σ) :
    SameData d (d.store s (d.heap s).notePublishRejected) := by
  constructor
  · rfl
  all_goals
    intro s'
    by_cases hs : s' = s
    · subst hs
      simp [store, Snapshot.notePublishRejected]
    · simp [store, hs]

theorem Sound.activeIndex_install (h : Sound others d) (s : σ) (image : Nat → BitVec 8)
    (length : BitVec 16) :
    Snapshot.activeIndex ((d.install s image length).heap s).state =
      !Snapshot.activeIndex (d.heap s).state := by
  obtain ⟨top, hw⟩ := h.word s
  simp only [install, store, Snapshot.install, Function.update_self]
  conv_lhs => rw [hw, Snapshot.pack_toggle (h.fit s)]
  exact Snapshot.pack_activeIndex (h.fit s)

theorem install_ne {s s' : σ} (other : s' ≠ s) (image : Nat → BitVec 8) (length : BitVec 16) :
    (d.install s image length).heap s' = d.heap s' := by
  simp [install, store, other]

theorem install_length (s s' : σ) (image : Nat → BitVec 8) (length : BitVec 16) :
    ((d.install s image length).heap s').length = (d.heap s').length := by
  by_cases hs : s' = s
  · subst hs
    simp [install, store, Snapshot.install]
  · rw [install_ne hs]

theorem install_present (s s' : σ) (image : Nat → BitVec 8) (length : BitVec 16) (b : Bool) :
    (((d.install s image length).heap s').buffers b).present = ((d.heap s').buffers b).present := by
  by_cases hs : s' = s
  · subst hs
    simp only [install, store, Snapshot.install, Function.update_self]
    by_cases hb : b = !Snapshot.activeIndex (d.heap s').state
    · subst hb
      rw [Function.update_self]
    · rw [Function.update_of_ne hb]
  · rw [install_ne hs]

end Device

end MspmBaremetal
