import MspmBaremetal.Regmap
import MspmBaremetal.LatchedStore
import Mathlib.Data.Finset.Card

/-!
# One snapshot under any interleaving

The accounts of one snapshot: which register maps hold which buffer and which
image each of them latched. `inv_step` says that every access, by any register
map or publisher, keeps them, and `Effect` lists what an access can do to them.
-/

namespace MspmBaremetal.Regmap

variable {ι σ κ : Type*}

/-! ## Page tables -/

/-- Every page of the table has a snapshot of the page's length. -/
def Fits (lengths : σ → BitVec 16) (pages : List (Page σ κ)) : Prop :=
  ∀ (p : Nat) page, pages[p]? = some page → ∃ s, page.snapshot = some s ∧ lengths s = page.length

theorem acceptsPages_fits {heap : σ → Snapshot} {previousEnd : Nat} {pages : List (Page σ κ)}
    (h : acceptsPages heap previousEnd pages = true) : Fits (fun s => (heap s).length) pages := by
  induction pages generalizing previousEnd with
  | nil => simp [Fits]
  | cons page rest ih =>
    simp only [acceptsPages, Bool.and_eq_true] at h
    obtain ⟨ok, others⟩ := h
    intro p page' hp
    cases p with
    | zero =>
      obtain rfl : page = page' := by simpa using hp
      simp only [acceptsPage, Bool.and_eq_true, beq_iff_eq] at ok
      obtain ⟨⟨⟨-, length⟩, -⟩, -⟩ := ok
      cases hs : page.snapshot with
      | none => simp [hs] at length
      | some s => exact ⟨s, rfl, by simpa [hs] using length⟩
    | succ p => exact ih others p page' (by simpa using hp)

theorem init_fits {heap : σ → Snapshot} {given : Option (Regmap σ κ)}
    {pages : Option (List (Page σ κ))} {r : Regmap σ κ} (h : init heap given pages = some r) :
    Fits (fun s => (heap s).length) r.pages ∧ r.latchedPage = none := by
  simp only [init] at h
  split at h
  · split at h <;> cases h
    rename_i accepted
    simp only [Bool.and_eq_true] at accepted
    exact ⟨acceptsPages_fits accepted.2, rfl⟩
  · cases h

theorem findPage_some {r : Regmap σ κ} {address : BitVec 16} {p : Nat}
    (h : r.findPage address = some p) :
    ∃ page, r.pages[p]? = some page ∧ page.contains address = true := by
  obtain ⟨hp, contains, -⟩ := List.findIdx?_eq_some_iff_getElem.mp h
  exact ⟨r.pages[p], List.getElem?_eq_getElem hp, contains⟩

/-- The byte a page holds for an address it contains is one of its snapshot's. -/
theorem offset_lt {page : Page σ κ} {address : BitVec 16} (h : page.contains address = true) :
    address.toNat - page.firstAddress.toNat < page.length.toNat := by
  simp only [Page.contains, Bool.and_eq_true, decide_eq_true_eq] at h
  omega

/-! ## The private part of a call -/

variable [DecidableEq σ]

/-- The event is about snapshot `s`'s readers or contents. -/
def Event.touches (s : σ) : Event ι σ κ → Bool
  | .acquired _ _ s' _ | .released _ _ s' _ | .fetched _ _ s' _ _ _ | .published s' _ _ => s' = s
  | _ => false

/-- What a register map's position in a call says about its fields. -/
def Reader.Sane (r : Regmap σ κ) : Reader → Prop
  | .idle => True
  | .release rest =>
    r.latchedPage.isSome ∧ ∀ page, rest = .acquire page → page = r.findPage r.currentAddress
  | .load p => r.latchedPage = none ∧ r.findPage r.currentAddress = some p
  | .exchange p state =>
    r.latchedPage = none ∧ r.findPage r.currentAddress = some p ∧
    Snapshot.readerCount state (Snapshot.activeIndex state) ≠ Snapshot.readerMask
  | .fetch => ∃ p, r.latchedPage = some p ∧ r.findPage r.currentAddress = some p

/-- What a call does between two shared accesses: it keeps its latch, and gets
to a position that its fields agree with. -/
structure Private (r : Regmap σ κ) (next : Regmap σ κ × Reader × List (Event ι σ κ)) : Prop where
  pages : next.1.pages = r.pages
  latched : next.1.latchedPage = r.latchedPage
  buffer : next.1.latchedBuffer = r.latchedBuffer
  quiet : ∀ s, ∀ e ∈ next.2.2, e.touches s = false
  sane : next.2.1.Sane next.1

variable {r : Regmap σ κ} {i : ι}

theorem readUnmapped_private (i : ι) (r : Regmap σ κ) : Private r (readUnmapped i r) :=
  ⟨rfl, rfl, rfl, by simp [readUnmapped, Event.touches], trivial⟩

theorem write_private (i : ι) (r : Regmap σ κ) (value : BitVec 8) :
    Private r (write i r value) := by
  refine ⟨rfl, rfl, rfl, ?_, trivial⟩
  intro s e he
  simp only [write, List.mem_singleton] at he
  subst he
  split <;> rfl

theorem proceed_private {rest : Rest} (latched : r.latchedPage = none)
    (target : ∀ page, rest = .acquire page → page = r.findPage r.currentAddress) :
    Private r (proceed i r rest) := by
  cases rest with
  | «return» => exact ⟨rfl, rfl, rfl, by simp [proceed], trivial⟩
  | setAddress address => exact ⟨rfl, rfl, rfl, by simp [proceed], trivial⟩
  | acquire page =>
    cases page with
    | none => exact readUnmapped_private i r
    | some page =>
      simp only [proceed]
      split
      · exact readUnmapped_private i r
      · exact ⟨rfl, rfl, rfl, by simp, latched, (target _ rfl).symm⟩
  | writeCurrent value => exact write_private i r value

theorem endRead_private {rest : Rest}
    (target : ∀ page, rest = .acquire page → page = r.findPage r.currentAddress) :
    Private r (endRead i r rest) := by
  cases latched : r.latchedPage with
  | none =>
    simp only [endRead, latched]
    exact proceed_private latched target
  | some p =>
    simp only [endRead, latched]
    exact ⟨rfl, rfl, rfl, by simp, by simp [latched], target⟩

theorem call_private (i : ι) (r : Regmap σ κ) (c : Call) : Private r (call i r c) := by
  cases c with
  | setAddress | beginRead | endRead | writeCurrent => exact endRead_private (by simp)
  | readCurrent =>
    simp only [call]
    split
    · rename_i same
      cases found : r.findPage r.currentAddress with
      | none => exact readUnmapped_private i r
      | some p => exact ⟨rfl, rfl, rfl, by simp, p, by rw [← same, found], found⟩
    · exact endRead_private fun page h => by cases h; rfl

theorem tryAcquire_private (i : ι) {p : Nat} (latched : r.latchedPage = none)
    (found : r.findPage r.currentAddress = some p) (s : σ) (state : BitVec 32) :
    Private r (tryAcquire i r p s state) := by
  unfold tryAcquire
  split
  · exact ⟨rfl, rfl, rfl, by simp [readUnmapped, Event.touches], trivial⟩
  · rename_i room
    exact ⟨rfl, rfl, rfl, by simp, latched, found, room⟩

/-- The register map holds buffer `b` of snapshot `s`. -/
def Holds (r : Regmap σ κ) (s : σ) (b : Bool) : Prop :=
  ∃ p, r.latchedPage = some p ∧ r.snapshotOf p = some s ∧ r.latchedBuffer = b

omit [DecidableEq σ] in
theorem not_holds {r : Regmap σ κ} {s : σ} {b : Bool} (h : r.latchedPage = none) :
    ¬ r.Holds s b := by
  rintro ⟨p, latched, -⟩
  rw [h] at latched
  cases latched

theorem Private.holds {next : Regmap σ κ × Reader × List (Event ι σ κ)} (h : Private r next)
    (s : σ) (b : Bool) : next.1.Holds s b ↔ r.Holds s b := by
  simp only [Holds, snapshotOf, h.pages, h.latched, h.buffer]

/-! ## The accounts of a snapshot -/

variable [DecidableEq ι]

structure Accounts (ι : Type*) where
  active : Bool
  holders : Bool → Finset ι
  images : LatchedStore ι Nat (BitVec 8)

namespace Accounts

def start (image : Nat → BitVec 8) : Accounts ι := ⟨false, fun _ => ∅, .start image⟩

def acquire (g : Accounts ι) (i : ι) : Accounts ι :=
  { g with holders := Function.update g.holders g.active (insert i (g.holders g.active)),
           images := g.images.latch i }

def release (g : Accounts ι) (i : ι) (b : Bool) : Accounts ι :=
  { g with holders := Function.update g.holders b ((g.holders b).erase i),
           images := g.images.release i }

def publish (g : Accounts ι) (data : Nat → BitVec 8) : Accounts ι :=
  { g with active := !g.active, images := g.images.store data }

def readers (g : Accounts ι) (b : Bool) : Nat := (g.holders b).card

end Accounts

/-- What an access can do to the accounts of snapshot `s`. -/
inductive Effect (tables : ι → List (Page σ κ)) (s : σ) (g : Accounts ι) : List (Event ι σ κ) → Accounts ι → Prop
  | quiet (es) (h : ∀ e ∈ es, e.touches s = false) : Effect tables s g es g
  | acquired (i : ι) (p : Nat) (free : ∀ b, i ∉ g.holders b)
    (unlatched : g.images.held i = none) (room : g.readers g.active < 32767) :
    Effect tables s g [.acquired i p s g.active] (g.acquire i)
  | released (i : ι) (p : Nat) (b : Bool) (es) (h : ∀ e ∈ es, e.touches s = false)
    (image : Nat → BitVec 8) (held : i ∈ g.holders b) (latched : g.images.held i = some image) :
    Effect tables s g (.released i p s b :: es) (g.release i b)
  | fetched (i : ι) (p : Nat) (page : Page σ κ) (address : BitVec 16) (image : Nat → BitVec 8)
    (hpage : (tables i)[p]? = some page) (target : page.snapshot = some s)
    (contains : page.contains address = true) (latched : g.images.held i = some image) :
    Effect tables s g [.fetched i p s address (address.toNat - page.firstAddress.toNat)
      (image (address.toNat - page.firstAddress.toNat))] g
  | published (data : Nat → BitVec 8) (unread : g.holders (!g.active) = ∅) :
    Effect tables s g [.published s data (!g.active)] (g.publish data)

/-- What a publisher's position says about its snapshot: it writes only to the
buffer that nobody reads, and has copied the bytes before `index`. -/
def Publisher.Sane (snapshot : Snapshot) (g : Accounts ι) : Publisher → Prop
  | .idle | .load _ => True
  | .copy data state inactiveIndex index =>
    inactiveIndex = (!g.active) ∧ g.holders (!g.active) = ∅ ∧ Snapshot.activeIndex state = g.active ∧
    index < snapshot.length.toNat ∧
    ∀ k < index, (snapshot.buffers (!g.active)).bytes k = data k
  | .exchange data state inactiveIndex =>
    inactiveIndex = (!g.active) ∧ g.holders (!g.active) = ∅ ∧ Snapshot.activeIndex state = g.active ∧
    ∀ k < snapshot.length.toNat, (snapshot.buffers (!g.active)).bytes k = data k

/-- The memory agrees with the accounts `g` of snapshot `s`. -/
structure Inv (tables : ι → List (Page σ κ)) (lengths : σ → BitVec 16) (s : σ) (w : World ι σ κ)
    (g : Accounts ι) : Prop where
  length : (w.heap s).length = lengths s
  word : (w.heap s).state = Snapshot.pack false g.active g.readers
  fit : Snapshot.Fit g.readers
  table : ∀ i, (w.regmap i).pages = tables i
  fits : ∀ i, Fits lengths (tables i)
  holders : ∀ i b, i ∈ g.holders b ↔ (w.regmap i).Holds s b
  current : ∀ k < (lengths s).toNat, ((w.heap s).buffers g.active).bytes k = g.images.current k
  held : ∀ i b, i ∈ g.holders b → ∃ image, g.images.held i = some image ∧
    ∀ k < (lengths s).toNat, ((w.heap s).buffers b).bytes k = image k
  free : ∀ i, (∀ b, i ∉ g.holders b) → g.images.held i = none
  reader : ∀ i, (w.reader i).Sane (w.regmap i)
  publisher : (w.publisher s).Sane (w.heap s) g

variable {tables : ι → List (Page σ κ)} {lengths : σ → BitVec 16} {s : σ} {w w' : World ι σ κ} {g : Accounts ι} {i : ι}
  {es : List (Event ι σ κ)}

theorem Accounts.readers_acquire (free : ∀ b, i ∉ g.holders b) :
    (g.acquire i).readers = Function.update g.readers g.active (g.readers g.active + 1) := by
  funext b
  by_cases hb : b = g.active
  · subst hb
    simp [readers, acquire, free]
  · simp [readers, acquire, hb]

theorem Accounts.readers_release {b : Bool} (held : i ∈ g.holders b) :
    (g.release i b).readers = Function.update g.readers b (g.readers b - 1) := by
  funext c
  by_cases hc : c = b
  · subst hc
    simp [readers, release, held]
  · simp [readers, release, hc]

@[simp] theorem Accounts.mem_acquire {j : ι} {b : Bool} :
    j ∈ (g.acquire i).holders b ↔ (j = i ∧ b = g.active) ∨ j ∈ g.holders b := by
  by_cases hb : b = g.active
  · subst hb
    simp [acquire]
  · simp [acquire, hb]

@[simp] theorem Accounts.mem_release {j : ι} {b c : Bool} :
    j ∈ (g.release i b).holders c ↔ j ∈ g.holders c ∧ ¬ (j = i ∧ c = b) := by
  by_cases hc : c = b
  · subst hc
    simp [release, and_comm]
  · simp [release, hc]

omit [DecidableEq ι] [DecidableEq σ] in
/-- A register map holds at most one buffer of a snapshot. -/
theorem Inv.holder_unique (h : Inv tables lengths s w g) {b c : Bool} (hb : i ∈ g.holders b)
    (hc : i ∈ g.holders c) : b = c := by
  obtain ⟨-, -, -, rfl⟩ := (h.holders i b).mp hb
  obtain ⟨-, -, -, rfl⟩ := (h.holders i c).mp hc
  rfl

/-! ## Every access keeps the accounts -/

omit [DecidableEq σ] in
/-- An access that changes neither the snapshot nor who holds it. -/
theorem Inv.settle (h : Inv tables lengths s w g) {heap : σ → Snapshot} (same : heap s = w.heap s)
    {next : Regmap σ κ × Reader × List (Event ι σ κ)}
    (pages : next.1.pages = (w.regmap i).pages)
    (holds : ∀ b, next.1.Holds s b ↔ (w.regmap i).Holds s b) (sane : next.2.1.Sane next.1) :
    Inv tables lengths s (({ w with heap := heap } : World ι σ κ).settle i next).1 g where
  length := by simpa [World.settle, same] using h.length
  word := by simpa [World.settle, same] using h.word
  fit := h.fit
  table j := by
    by_cases hj : j = i
    · subst hj
      simpa [World.settle, pages] using h.table j
    · simpa [World.settle, hj] using h.table j
  fits := h.fits
  holders j b := by
    by_cases hj : j = i
    · subst hj
      simpa [World.settle, holds] using h.holders j b
    · simpa [World.settle, hj] using h.holders j b
  current := by simpa [World.settle, same] using h.current
  held := by simpa [World.settle, same] using h.held
  free := h.free
  reader j := by
    by_cases hj : j = i
    · subst hj
      simpa [World.settle] using sane
    · simpa [World.settle, hj] using h.reader j
  publisher := by simpa [World.settle, same] using h.publisher

/-- A call begins, or goes on without a shared access. -/
theorem Inv.goOn (h : Inv tables lengths s w g) {next : Regmap σ κ × Reader × List (Event ι σ κ)}
    (hnext : Private (w.regmap i) next) : Inv tables lengths s (w.settle i next).1 g :=
  h.settle rfl hnext.pages (hnext.holds s) hnext.sane

/-- Register map `i` takes or releases a latch of snapshot `s`. -/
theorem Inv.relatch (h : Inv tables lengths s w g) {state : BitVec 32} {g' : Accounts ι}
    {next : Regmap σ κ × Reader × List (Event ι σ κ)}
    (word : state = Snapshot.pack false g'.active g'.readers) (fit : Snapshot.Fit g'.readers)
    (active : g'.active = g.active) (current : g'.images.current = g.images.current)
    (others : ∀ j, j ≠ i → g'.images.held j = g.images.held j ∧
      ∀ b, j ∈ g'.holders b ↔ j ∈ g.holders b)
    (pages : next.1.pages = (w.regmap i).pages) (sane : next.2.1.Sane next.1)
    (holders : ∀ b, i ∈ g'.holders b ↔ next.1.Holds s b)
    (held : ∀ b, i ∈ g'.holders b → b = g.active ∧ g'.images.held i = some g.images.current)
    (free : (∀ b, i ∉ g'.holders b) → g'.images.held i = none)
    (unread : g.holders (!g.active) = ∅ → g'.holders (!g.active) = ∅) :
    Inv tables lengths s ((w.setState s state).settle i next).1 g' where
  length := by simpa using h.length
  word := by simpa using word
  fit := fit
  table j := by
    by_cases hj : j = i
    · subst hj
      simpa [pages] using h.table j
    · simpa [hj] using h.table j
  fits := h.fits
  holders j b := by
    by_cases hj : j = i
    · subst hj
      simpa using holders b
    · simpa [hj, (others j hj).2 b] using h.holders j b
  current := by simpa [active, current] using h.current
  held j b hold := by
    by_cases hj : j = i
    · subst hj
      obtain ⟨rfl, image⟩ := held b hold
      exact ⟨_, image, by simpa using h.current⟩
    · rw [(others j hj).1]
      simpa using h.held j b (((others j hj).2 b).mp hold)
  free j none := by
    by_cases hj : j = i
    · subst hj
      exact free none
    · rw [(others j hj).1]
      exact h.free j fun b hold => none b (((others j hj).2 b).mpr hold)
  reader j := by
    by_cases hj : j = i
    · subst hj
      simpa using sane
    · simpa [hj] using h.reader j
  publisher := by
    have before := h.publisher
    cases hp : w.publisher s with
    | idle | load => simp [hp, Publisher.Sane]
    | copy | exchange =>
      rw [hp] at before
      simp only [World.settle_publisher, World.setState_publisher, hp]
      obtain ⟨index, none, expected, rest⟩ := before
      refine ⟨by rw [active]; exact index, by rw [active]; exact unread none,
        by rw [active]; exact expected, ?_⟩
      simpa [active] using rest

theorem Inv.acquire (h : Inv tables lengths s w g) {p : Nat} {state : BitVec 32}
    (exchanging : w.reader i = .exchange p state) (target : (w.regmap i).snapshotOf p = some s)
    (observed : (w.heap s).state = state) :
    Effect tables s g ([.acquired i p s (Snapshot.activeIndex state)] : List (Event ι σ κ)) (g.acquire i) ∧
    Inv tables lengths s
      ((w.setState s (state + Snapshot.readerUnit (Snapshot.activeIndex state))).settle i
        ({ w.regmap i with latchedPage := some p, latchedBuffer := Snapshot.activeIndex state },
          .fetch, [])).1 (g.acquire i) := by
  have sane := h.reader i
  rw [exchanging] at sane
  obtain ⟨latched, found, notFull⟩ := sane
  rw [← observed, h.word, Snapshot.pack_activeIndex h.fit] at notFull ⊢
  have free : ∀ b, i ∉ g.holders b := fun b hb => not_holds latched ((h.holders i b).mp hb)
  have room : g.readers g.active < 32767 := by
    have most := h.fit g.active
    have count := Snapshot.pack_readerCount false g.active g.active h.fit
    by_contra full
    apply notFull
    apply BitVec.eq_of_toNat_eq
    rw [count, show Snapshot.readerMask.toNat = 32767 from rfl]
    omega
  have readers := Accounts.readers_acquire free
  refine ⟨.acquired i p free (h.free i free) room, h.relatch ?_ ?_ rfl rfl ?_ rfl ⟨p, rfl, found⟩ ?_ ?_ ?_ ?_⟩
  · rw [Snapshot.pack_acquire, readers]
    rfl
  · intro b
    rw [readers]
    by_cases hb : b = g.active
    · subst hb
      rw [Function.update_self]
      omega
    · simpa [hb] using h.fit b
  · intro j hj
    exact ⟨by simp [Accounts.acquire, LatchedStore.latch, hj], fun b => by simp [hj]⟩
  · intro b
    simp only [Accounts.mem_acquire, true_and, free, or_false]
    constructor
    · rintro rfl
      exact ⟨p, rfl, target, rfl⟩
    · rintro ⟨-, -, -, same⟩
      exact same.symm
  · intro b hold
    simp only [Accounts.mem_acquire, true_and, free, or_false] at hold
    exact ⟨hold, by simp [Accounts.acquire, LatchedStore.latch]⟩
  · intro none
    exact absurd (by simp) (none g.active)
  · intro none
    simpa [Accounts.acquire] using none

theorem Inv.release (h : Inv tables lengths s w g) {p : Nat}
    (latched : (w.regmap i).latchedPage = some p) (target : (w.regmap i).snapshotOf p = some s)
    {next : Regmap σ κ × Reader × List (Event ι σ κ)}
    (hnext : Private { w.regmap i with latchedPage := none, latchedBuffer := false } next) :
    Effect tables s g (.released i p s (w.regmap i).latchedBuffer :: next.2.2)
      (g.release i (w.regmap i).latchedBuffer) ∧
    Inv tables lengths s
      ((w.setState s
        ((w.heap s).state - Snapshot.readerUnit (w.regmap i).latchedBuffer)).settle i next).1
      (g.release i (w.regmap i).latchedBuffer) := by
  have held : i ∈ g.holders (w.regmap i).latchedBuffer :=
    (h.holders i _).mpr ⟨p, latched, target, rfl⟩
  generalize (w.regmap i).latchedBuffer = b at held ⊢
  obtain ⟨image, himage, -⟩ := h.held i b held
  have readers := Accounts.readers_release held
  have gone : ∀ c, i ∉ (g.release i b).holders c := by
    intro c hold
    obtain ⟨old, other⟩ := Accounts.mem_release.mp hold
    exact other ⟨rfl, h.holder_unique old held⟩
  refine ⟨.released i p b _ (hnext.quiet s) image held himage,
    h.relatch ?_ ?_ rfl rfl ?_ hnext.pages hnext.sane ?_ ?_ ?_ ?_⟩
  · rw [h.word, Snapshot.pack_release (Finset.card_pos.mpr ⟨i, held⟩), readers]
    rfl
  · intro c
    rw [readers]
    have old := h.fit c
    by_cases hc : c = b
    · subst hc
      rw [Function.update_self]
      omega
    · simpa [hc] using old
  · intro j hj
    exact ⟨by simp [Accounts.release, LatchedStore.release, hj], fun c => by simp [hj]⟩
  · intro c
    exact iff_of_false (gone c) (not_holds hnext.latched)
  · intro c hold
    exact absurd hold (gone c)
  · intro _
    simp [Accounts.release, LatchedStore.release]
  · intro none
    ext j
    simp [none]

theorem Inv.fetch (h : Inv tables lengths s w g) {p : Nat} {page : Page σ κ}
    (fetching : w.reader i = .fetch) (latched : (w.regmap i).latchedPage = some p)
    (target : (w.regmap i).snapshotOf p = some s) (hpage : (w.regmap i).pages[p]? = some page) :
    Effect tables s g
      ([.fetched i p s (w.regmap i).currentAddress
        ((w.regmap i).currentAddress.toNat - page.firstAddress.toNat)
        (((w.heap s).buffers (w.regmap i).latchedBuffer).bytes
          ((w.regmap i).currentAddress.toNat - page.firstAddress.toNat))] : List (Event ι σ κ)) g := by
  have hold : i ∈ g.holders (w.regmap i).latchedBuffer :=
    (h.holders i _).mpr ⟨p, latched, target, rfl⟩
  obtain ⟨image, himage, same⟩ := h.held i _ hold
  have sane := h.reader i
  rw [fetching] at sane
  obtain ⟨p', latched', found⟩ := sane
  obtain rfl : p = p' := Option.some.inj (latched.symm.trans latched')
  obtain ⟨page', hpage', contains⟩ := findPage_some found
  obtain rfl : page = page' := Option.some.inj (hpage.symm.trans hpage')
  rw [h.table] at hpage
  obtain ⟨s', hs', length⟩ := h.fits i p page hpage
  obtain rfl : s' = s := by simpa [snapshotOf, h.table, hpage, hs'] using target
  have inside := offset_lt contains
  rw [← length] at inside
  rw [same _ inside]
  exact .fetched i p page _ image hpage hs' contains himage

omit [DecidableEq σ] in
/-- Trying to acquire starts without a latch, at the page of the address. -/
theorem Reader.Sane.trying {r : Regmap σ κ} {reader : Reader} {p : Nat} (h : reader.Sane r)
    (position : reader = .load p ∨ ∃ state, reader = .exchange p state) :
    r.latchedPage = none ∧ r.findPage r.currentAddress = some p := by
  rcases position with rfl | ⟨state, rfl⟩
  · exact h
  · exact ⟨h.1, h.2.1⟩

theorem inv_reader (h : Inv tables lengths s w g) {spurious : Bool}
    (step : Reader.step w i spurious = some (w', es)) :
    ∃ g', Effect tables s g es g' ∧ Inv tables lengths s w' g' := by
  have sane := h.reader i
  cases Reader.step_moves step with
  | released rest p s' position latched target next goesOn =>
    subst goesOn
    rw [position] at sane
    have next : Private { w.regmap i with latchedPage := none, latchedBuffer := false }
        (proceed i { w.regmap i with latchedPage := none, latchedBuffer := false } rest) :=
      proceed_private rfl fun page hrest => sane.2 page hrest
    by_cases hs : s' = s
    · subst hs
      obtain ⟨effect, inv⟩ := h.release latched target next
      exact ⟨_, effect, inv⟩
    · refine ⟨g, .quiet _ ?_, h.settle (Function.update_of_ne (Ne.symm hs) ..) next.pages ?_ next.sane⟩
      · intro e he
        rcases List.mem_cons.mp he with rfl | he
        · simp [Event.touches, hs]
        · exact next.quiet s e he
      · intro b
        refine iff_of_false (not_holds next.latched) ?_
        rintro ⟨p', latched', target', -⟩
        obtain rfl : p = p' := Option.some.inj (latched.symm.trans latched')
        exact hs (Option.some.inj (target.symm.trans target'))
  | tried p s' position =>
    obtain ⟨unlatched, found⟩ := sane.trying position
    have next := tryAcquire_private i unlatched found s' (w.heap s').state
    exact ⟨g, .quiet _ (next.quiet s), h.goOn next⟩
  | acquired p s' position target =>
    by_cases hs : s' = s
    · subst hs
      obtain ⟨effect, inv⟩ := h.acquire position target rfl
      exact ⟨_, effect, inv⟩
    · rw [position] at sane
      refine ⟨g, .quiet _ (by simp [Event.touches, hs]),
        h.settle (Function.update_of_ne (Ne.symm hs) ..) rfl ?_ ⟨p, rfl, sane.2.1⟩⟩
      intro b
      refine iff_of_false ?_ (not_holds sane.1)
      rintro ⟨p', latched', target', -⟩
      obtain rfl : p = p' := Option.some.inj latched'
      exact hs (Option.some.inj (target.symm.trans target'))
  | fetched p s' page position latched target listed =>
    have next : Private (w.regmap i) ({ w.regmap i with
        currentAddress := (w.regmap i).currentAddress + 1 }, Reader.idle, ([] : List (Event ι σ κ))) :=
      ⟨rfl, rfl, rfl, by simp, trivial⟩
    refine ⟨g, ?_, h.settle rfl next.pages (next.holds s) next.sane⟩
    by_cases hs : s' = s
    · subst hs
      exact h.fetch position latched target listed
    · exact .quiet _ (by simp [Event.touches, hs])

omit [DecidableEq ι] [DecidableEq σ] in
theorem copyLoop_sane (snapshot : Snapshot) (data : Nat → BitVec 8) {state : BitVec 32}
    {index : Nat} (unread : g.holders (!g.active) = ∅)
    (expected : Snapshot.activeIndex state = g.active) (bound : index ≤ snapshot.length.toNat)
    (copied : ∀ k < index, (snapshot.buffers (!g.active)).bytes k = data k) :
    (copyLoop snapshot data state (!g.active) index).Sane snapshot g := by
  unfold copyLoop
  split
  · exact ⟨rfl, unread, expected, by assumption, copied⟩
  · exact ⟨rfl, unread, expected, fun k hk => copied k (by omega)⟩

omit [DecidableEq ι] in
/-- An access of the publisher of snapshot `s` that leaves the state word and
the buffer in use. -/
theorem Inv.publishing (h : Inv tables lengths s w g) {snapshot : Snapshot} {publisher : Publisher}
    (length : snapshot.length = (w.heap s).length) (state : snapshot.state = (w.heap s).state)
    (active : snapshot.buffers g.active = (w.heap s).buffers g.active)
    (inactive : snapshot.buffers (!g.active) = (w.heap s).buffers (!g.active) ∨
      g.holders (!g.active) = ∅)
    (sane : publisher.Sane snapshot g) :
    Inv tables lengths s ((w.store s snapshot).setPublisher s publisher) g where
  length := by simpa [length] using h.length
  word := by simpa [state] using h.word
  fit := h.fit
  table := h.table
  fits := h.fits
  holders := h.holders
  current := by simpa [active] using h.current
  held j b hold := by
    obtain ⟨image, himage, same⟩ := h.held j b hold
    refine ⟨image, himage, ?_⟩
    by_cases hb : b = g.active
    · subst hb
      simpa [active] using same
    · obtain rfl : b = !g.active := Bool.eq_not_of_ne hb
      rcases inactive with inactive | none
      · simpa [inactive] using same
      · simp [none] at hold
  free := h.free
  reader := h.reader
  publisher := by simpa using sane

omit [DecidableEq ι] in
theorem Inv.reject (h : Inv tables lengths s w g) : Inv tables lengths s (w.reject s).1 g :=
  h.publishing rfl rfl rfl (.inl rfl) trivial

theorem Inv.publish (h : Inv tables lengths s w g) {data : Nat → BitVec 8} {state : BitVec 32}
    {inactiveIndex : Bool} (exchanging : w.publisher s = .exchange data state inactiveIndex)
    (observed : (w.heap s).state = state) :
    Effect tables s g ([.published s data inactiveIndex] : List (Event ι σ κ)) (g.publish data) ∧
    Inv tables lengths s ((w.setState s (state ^^^ 0x00000001)).setPublisher s .idle) (g.publish data) := by
  have sane := h.publisher
  rw [exchanging] at sane
  obtain ⟨rfl, unread, -, copied⟩ := sane
  refine ⟨.published data unread, ?_⟩
  exact
    { length := by simpa using h.length
      word := by
        simp only [World.setPublisher_heap, World.setState_heap_self]
        rw [← observed, h.word, Snapshot.pack_toggle h.fit]
        rfl
      fit := h.fit
      table := h.table
      fits := h.fits
      holders := h.holders
      current := by simpa [h.length, Accounts.publish, LatchedStore.store] using copied
      held := by simpa [Accounts.publish, LatchedStore.store] using h.held
      free := h.free
      reader := h.reader
      publisher := by simp [Publisher.Sane] }

theorem inv_publisher (h : Inv tables lengths s w g) {spurious : Bool}
    (step : Publisher.step w s spurious = some (w', es)) :
    ∃ g', Effect tables s g es g' ∧ Inv tables lengths s w' g' := by
  have sane := h.publisher
  have active : Snapshot.activeIndex (w.heap s).state = g.active := by
    rw [h.word, Snapshot.pack_activeIndex h.fit]
  cases Publisher.step_moves step with
  | refused | turned => exact ⟨g, .quiet _ (by simp [World.reject, Event.touches]), h.reject⟩
  | loaded data position free =>
    have none : g.holders (!g.active) = ∅ := by
      have count := Snapshot.pack_readerCount false g.active (!g.active) h.fit
      rw [← h.word, ← active, free, active] at count
      exact Finset.card_eq_zero.mp count.symm
    have start := copyLoop_sane (w.heap s) data none active (Nat.zero_le _) (by simp)
    have next := h.publishing rfl rfl rfl (.inl rfl) start
    rw [World.store_same] at next
    refine ⟨g, .quiet _ (by simp), ?_⟩
    rwa [active]
  | copied data state inactiveIndex index position =>
    rw [position] at sane
    obtain ⟨rfl, none, expected, bound, copied⟩ := sane
    refine ⟨g, .quiet _ (by simp), h.publishing rfl rfl ?_ (.inr none) ?_⟩
    · simp [Snapshot.setByte]
    · refine copyLoop_sane _ data none expected bound ?_
      intro k hk
      by_cases last : k = index
      · subst last
        simp [Snapshot.setByte]
      · simpa [Snapshot.setByte, last] using copied k (by omega)
  | published data inactiveIndex position =>
    obtain ⟨effect, inv⟩ := h.publish position rfl
    exact ⟨_, effect, inv⟩
  | retried data state inactiveIndex position inactive =>
    rw [position] at sane
    obtain ⟨rfl, none, -, copied⟩ := sane
    have retry : (Publisher.exchange data (w.heap s).state (!g.active)).Sane (w.heap s) g :=
      ⟨rfl, none, active, copied⟩
    have next := h.publishing rfl rfl rfl (.inl rfl) retry
    rw [World.store_same] at next
    exact ⟨g, .quiet _ (by simp), next⟩

omit [DecidableEq ι] [DecidableEq σ] in
/-- A step that leaves the snapshot and its publisher alone. -/
theorem Inv.elsewhere (h : Inv tables lengths s w g) (heap : w'.heap s = w.heap s)
    (publisher : w'.publisher s = w.publisher s) (regmap : w'.regmap = w.regmap)
    (reader : w'.reader = w.reader) : Inv tables lengths s w' g where
  length := heap ▸ h.length
  word := heap ▸ h.word
  fit := h.fit
  table := regmap ▸ h.table
  fits := h.fits
  holders := regmap ▸ h.holders
  current := heap ▸ h.current
  held := heap ▸ h.held
  free := h.free
  reader := regmap ▸ reader ▸ h.reader
  publisher := by
    rw [heap, publisher]
    exact h.publisher

omit [DecidableEq ι] in
theorem publisher_frame {s' : σ} (other : s' ≠ s) {spurious : Bool}
    (step : Publisher.step w s' spurious = some (w', es)) :
    w'.heap s = w.heap s ∧ w'.publisher s = w.publisher s ∧ w'.regmap = w.regmap ∧
      w'.reader = w.reader ∧ ∀ e ∈ es, e.touches s = false := by
  have heap : ∀ (snapshot : Snapshot), Function.update w.heap s' snapshot s = w.heap s :=
    fun _ => Function.update_of_ne other.symm ..
  have publisher : ∀ p, Function.update w.publisher s' p s = w.publisher s :=
    fun _ => Function.update_of_ne other.symm ..
  cases Publisher.step_moves step with
  | refused | turned =>
    exact ⟨heap _, publisher _, rfl, rfl, by simp [World.reject, Event.touches]⟩
  | loaded | retried => exact ⟨rfl, publisher _, rfl, rfl, by simp⟩
  | copied => exact ⟨heap _, publisher _, rfl, rfl, by simp⟩
  | published => exact ⟨heap _, publisher _, rfl, rfl, by simp [Event.touches, other]⟩

theorem inv_step (h : Inv tables lengths s w g) {choice : Choice ι σ}
    (step : (machine ι σ κ).step w choice = some (w', es)) :
    ∃ g', Effect tables s g es g' ∧ Inv tables lengths s w' g' := by
  cases choice with
  | call i c =>
    simp only [machine] at step
    split at step <;> cases step
    have next := call_private i (w.regmap i) c
    exact ⟨g, .quiet _ (next.quiet s), h.goOn next⟩
  | reader i spurious => exact inv_reader h step
  | publish s' data length =>
    simp only [machine] at step
    split at step <;> cases step
    refine ⟨g, .quiet _ (by simp), ?_⟩
    by_cases hs : s' = s
    · subst hs
      have start : (Publisher.call (w.heap s') data length).Sane (w.heap s') g := by
        unfold Publisher.call
        split <;> trivial
      have next := h.publishing rfl rfl rfl (.inl rfl) start
      rwa [World.store_same] at next
    · exact h.elsewhere rfl (Function.update_of_ne (Ne.symm hs) ..) rfl rfl
  | publisher s' spurious =>
    by_cases hs : s' = s
    · subst hs
      exact inv_publisher h step
    · obtain ⟨heap, publisher, regmap, reader, quiet⟩ := publisher_frame hs step
      exact ⟨g, .quiet _ quiet, h.elsewhere heap publisher regmap reader⟩

end MspmBaremetal.Regmap
