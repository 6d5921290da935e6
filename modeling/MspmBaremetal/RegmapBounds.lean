import MspmBaremetal.PublishRuns

/-!
# Accesses of a register map stay in bounds

Which page tables `lib_regmap_init` accepts, and that with such a table a read
never leaves the buffer of the one page its address is in, and a write never
reaches another page's callback.
-/

namespace MspmBaremetal.Regmap

variable {ι σ κ : Type*}

/-! ## Accepted tables -/

/-- What `lib_regmap_init` asks of each page. -/
structure PageOk (heap : σ → Snapshot) (page : Page σ κ) : Prop where
  nonempty : page.length ≠ 0
  bounded : page.firstAddress.toNat + page.length.toNat ≤ 0x10000
  snapshot : ∃ s, page.snapshot = some s ∧ Snapshot.isValid (some (heap s)) = true ∧
    (heap s).length = page.length
  access : page.access = .readOnly ∨ page.access = .readWrite
  queueWrite : page.access = .readWrite → page.queueWrite.isSome

/-- The first page ends before the second one begins. -/
def Before (p q : Page σ κ) : Prop := p.firstAddress.toNat + p.length.toNat ≤ q.firstAddress.toNat

/-- What `lib_regmap_init` asks of a table. -/
structure TableOk (heap : σ → Snapshot) (pages : List (Page σ κ)) : Prop where
  nonempty : pages ≠ []
  page : ∀ page ∈ pages, PageOk heap page
  ascending : pages.Pairwise Before

variable {heap : σ → Snapshot} {page : Page σ κ} {pages : List (Page σ κ)} {previousEnd : Nat}

theorem acceptsPage_iff : acceptsPage heap previousEnd page = true ↔
    PageOk heap page ∧ previousEnd ≤ page.firstAddress.toNat := by
  simp only [acceptsPage, Bool.and_eq_true, decide_eq_true_eq, bne_iff_ne, beq_iff_eq,
    Bool.or_eq_true, Bool.not_eq_true']
  constructor
  · rintro ⟨⟨⟨⟨⟨⟨nonempty, bounded⟩, after⟩, valid⟩, length⟩, access⟩, callback⟩
    refine ⟨⟨nonempty, bounded, ?_, access, ?_⟩, after⟩
    · cases hs : page.snapshot with
      | none => simp [hs] at length
      | some s => exact ⟨s, rfl, by simpa [hs] using valid, by simpa [hs] using length⟩
    · intro readWrite
      simpa [readWrite, Option.isSome_iff_ne_none] using callback
  · rintro ⟨⟨nonempty, bounded, ⟨s, hs, valid, length⟩, access, queueWrite⟩, after⟩
    refine ⟨⟨⟨⟨⟨⟨nonempty, bounded⟩, after⟩, ?_⟩, ?_⟩, access⟩, ?_⟩
    · simpa [hs] using valid
    · simp [hs, length]
    · cases ha : page.access with
      | readWrite => simpa [ha, Option.isSome_iff_ne_none] using queueWrite ha
      | _ => simp

theorem acceptsPages_iff : acceptsPages heap previousEnd pages = true ↔
    (∀ page ∈ pages, PageOk heap page) ∧ pages.Pairwise Before ∧
      ∀ page ∈ pages, previousEnd ≤ page.firstAddress.toNat := by
  induction pages generalizing previousEnd with
  | nil => simp [acceptsPages]
  | cons page rest ih =>
    simp only [acceptsPages, Bool.and_eq_true, acceptsPage_iff, ih, List.pairwise_cons,
      List.forall_mem_cons]
    constructor
    · rintro ⟨⟨ok, after⟩, others, sorted, before⟩
      refine ⟨⟨ok, others⟩, ⟨before, sorted⟩, after, ?_⟩
      intro other member
      have := before other member
      omega
    · rintro ⟨⟨ok, others⟩, ⟨before, sorted⟩, after, -⟩
      exact ⟨⟨ok, after⟩, others, sorted, before⟩

theorem init_accepts (heap : σ → Snapshot) (given : Option (Regmap σ κ))
    (pages : Option (List (Page σ κ))) : (init heap given pages).isSome = true ↔
      given.isSome = true ∧ ∃ table, pages = some table ∧ TableOk heap table := by
  cases given with
  | none => simp [init]
  | some r =>
    cases pages with
    | none => simp [init]
    | some table =>
      simp only [init, Option.isSome_ite, Option.isSome_some, Option.some.injEq, exists_eq_left',
        Bool.and_eq_true, Bool.not_eq_true', List.isEmpty_eq_false_iff, true_and]
      rw [acceptsPages_iff]
      constructor
      · rintro ⟨nonempty, ok, sorted, -⟩
        exact ⟨nonempty, ok, sorted⟩
      · rintro ⟨nonempty, ok, sorted⟩
        exact ⟨nonempty, ok, sorted, by simp⟩

theorem init_eq {given : Option (Regmap σ κ)} {table : Option (List (Page σ κ))} {r : Regmap σ κ}
    (h : init heap given table = some r) : TableOk heap r.pages := by
  have accepted := (init_accepts heap given table).mp (by simp [h])
  obtain ⟨-, pages, rfl, ok⟩ := accepted
  simp only [init] at h
  split at h
  · split at h <;> cases h
    rename_i same _
    cases same
    exact ok
  · cases h

/-! ## The page of an address -/

/-- The page with index `p` is the only one that contains `address`. -/
structure OnlyPage (r : Regmap σ κ) (address : BitVec 16) (p : Nat) (page : Page σ κ) : Prop where
  entry : r.pages[p]? = some page
  contains : page.firstAddress.toNat ≤ address.toNat ∧
    address.toNat < page.firstAddress.toNat + page.length.toNat
  unique : ∀ (q : Nat) other, r.pages[q]? = some other → other.contains address = true → q = p

theorem ascending_unique (sorted : pages.Pairwise Before) {address : BitVec 16} {p q : Nat}
    {page other : Page σ κ} (hp : pages[p]? = some page) (hq : pages[q]? = some other)
    (inside : page.contains address = true) (inside' : other.contains address = true) : q = p := by
  obtain ⟨boundP, rfl⟩ := List.getElem?_eq_some_iff.mp hp
  obtain ⟨boundQ, rfl⟩ := List.getElem?_eq_some_iff.mp hq
  simp only [Page.contains, Bool.and_eq_true, decide_eq_true_eq] at inside inside'
  rcases Nat.lt_trichotomy p q with less | same | greater
  · have before := List.pairwise_iff_getElem.mp sorted p q boundP boundQ less
    simp only [Before] at before
    omega
  · exact same.symm
  · have before := List.pairwise_iff_getElem.mp sorted q p boundQ boundP greater
    simp only [Before] at before
    omega

theorem findPage_only {r : Regmap σ κ} (sorted : r.pages.Pairwise Before) {address : BitVec 16}
    {p : Nat} (found : r.findPage address = some p) : ∃ page, OnlyPage r address p page := by
  obtain ⟨page, hpage, contains⟩ := findPage_some found
  refine ⟨page, hpage, ?_, ?_⟩
  · simpa [Page.contains] using contains
  · intro q other hq inside
    exact ascending_unique sorted hpage hq contains inside

/-! ## One access -/

variable [DecidableEq σ] [DecidableEq ι] {w₀ w w' : World ι σ κ} {tr es : List (Event ι σ κ)}
  {r : Regmap σ κ} {i : ι}

/-- The event, of a step taken in `w`, stays in bounds: the latched buffer is
read at an index below its length, for the only page that the current address is
in, and a callback gets an address of its own page. -/
def InBounds (w : World ι σ κ) : Event ι σ κ → Prop
  | .fetched i p s address offset value =>
    (w.regmap i).latchedPage = some p ∧ (w.regmap i).currentAddress = address ∧
    value = ((w.heap s).buffers (w.regmap i).latchedBuffer).bytes offset ∧
    ∃ page, OnlyPage (w.regmap i) address p page ∧ page.snapshot = some s ∧
      offset = address.toNat - page.firstAddress.toNat ∧ offset < (w.heap s).length.toNat
  | .offered i target address _ =>
    (w.regmap i).currentAddress = address ∧ ∃ p page, OnlyPage (w.regmap i) address p page ∧
      page.access = .readWrite ∧ page.queueWrite = some target
  | _ => True

section

-- in the middle of a step, when its latch may be gone
variable (table : r.pages = (w.regmap i).pages)
  (address : r.currentAddress = (w.regmap i).currentAddress)
  (sorted : r.pages.Pairwise Before)

include table address sorted

omit [DecidableEq σ] [DecidableEq ι] in
theorem write_inBounds (value : BitVec 8) : ∀ e ∈ (write i r value).2.2, InBounds w e := by
  intro e he
  simp only [write, List.mem_singleton] at he
  subst he
  cases ht : r.target r.currentAddress with
  | none => trivial
  | some target =>
    simp only [Regmap.target, Option.bind_eq_some_iff] at ht
    obtain ⟨page, ⟨p, found, hpage⟩, callback⟩ := ht
    simp only [Option.ite_none_right_eq_some] at callback
    obtain ⟨page', only⟩ := findPage_only sorted found
    obtain rfl : page = page' := Option.some.inj (hpage.symm.trans only.entry)
    exact ⟨address.symm, p, page, ⟨table ▸ only.entry, only.contains, table ▸ only.unique⟩,
      callback.1, callback.2⟩

omit [DecidableEq σ] [DecidableEq ι] in
theorem proceed_inBounds (rest : Rest) : ∀ e ∈ (proceed i r rest).2.2, InBounds w e := by
  cases rest with
  | «return» | setAddress => simp [proceed]
  | writeCurrent value => exact write_inBounds table address sorted value
  | acquire page =>
    cases page with
    | none => simp [proceed, readUnmapped, InBounds]
    | some page =>
      simp only [proceed]
      split <;> simp [readUnmapped, InBounds]

omit [DecidableEq σ] [DecidableEq ι] in
theorem endRead_inBounds (rest : Rest) : ∀ e ∈ (endRead i r rest).2.2, InBounds w e := by
  unfold endRead
  split
  · exact proceed_inBounds table address sorted rest
  · simp

omit [DecidableEq σ] [DecidableEq ι] in
theorem call_inBounds (c : Call) : ∀ e ∈ (call i r c).2.2, InBounds w e := by
  cases c with
  | setAddress | beginRead | endRead | writeCurrent => exact endRead_inBounds table address sorted _
  | readCurrent =>
    simp only [call]
    split
    · split <;> simp [readUnmapped, InBounds]
    · exact endRead_inBounds table address sorted _

end

omit [DecidableEq σ] [DecidableEq ι] in
theorem tryAcquire_inBounds (p : Nat) (s : σ) (state : BitVec 32) :
    ∀ e ∈ (tryAcquire i r p s state).2.2, InBounds w e := by
  unfold tryAcquire
  split <;> simp [readUnmapped, InBounds]

/-! ## Every run -/

/-- Register maps as `lib_regmap_init` leaves them, and none of them in the
middle of a call. -/
structure Accepted (w : World ι σ κ) : Prop where
  regmap : ∀ i, ∃ given pages, init w.heap given pages = some (w.regmap i)
  reader : ∀ i, w.reader i = .idle

/-- Tables and lengths are the ones that `lib_regmap_init` accepted, and every
register map's latch agrees with its address when it reads. -/
structure Tabled (w₀ w : World ι σ κ) : Prop where
  table : ∀ i, TableOk w₀.heap (w.regmap i).pages
  length : ∀ s, (w.heap s).length = (w₀.heap s).length
  sane : ∀ i, (w.reader i).Sane (w.regmap i)

omit [DecidableEq σ] in
theorem Tabled.settle (h : Tabled w₀ w) {heap : σ → Snapshot}
    (length : ∀ s, (heap s).length = (w.heap s).length)
    {next : Regmap σ κ × Reader × List (Event ι σ κ)}
    (pages : next.1.pages = (w.regmap i).pages) (sane : next.2.1.Sane next.1) :
    Tabled w₀ (({ w with heap := heap } : World ι σ κ).settle i next).1 where
  table j := by
    by_cases hj : j = i
    · subst hj
      simpa [World.settle, pages] using h.table j
    · simpa [World.settle, hj] using h.table j
  length s := by simpa [World.settle, length] using h.length s
  sane j := by
    by_cases hj : j = i
    · subst hj
      simpa [World.settle] using sane
    · simpa [World.settle, hj] using h.sane j

omit [DecidableEq ι] in
theorem store_length (w : World ι σ κ) (s s' : σ) {snapshot : Snapshot}
    (same : snapshot.length = (w.heap s).length) :
    ((w.store s snapshot).heap s').length = (w.heap s').length := by
  by_cases hs : s' = s
  · subst hs
    rw [World.store_heap_self, same]
  · simp [World.store, Function.update_of_ne hs]

omit [DecidableEq ι] in
theorem setState_length (w : World ι σ κ) (s s' : σ) (state : BitVec 32) :
    ((w.setState s state).heap s').length = (w.heap s').length :=
  store_length w s s' rfl

omit [DecidableEq σ] [DecidableEq ι] in
theorem Tabled.fetch (h : Tabled w₀ w) {p : Nat} {s : σ} {page : Page σ κ}
    (fetching : w.reader i = .fetch) (latched : (w.regmap i).latchedPage = some p)
    (target : (w.regmap i).snapshotOf p = some s) (hpage : (w.regmap i).pages[p]? = some page) :
    let offset := (w.regmap i).currentAddress.toNat - page.firstAddress.toNat
    InBounds w (.fetched i p s (w.regmap i).currentAddress offset
      (((w.heap s).buffers (w.regmap i).latchedBuffer).bytes offset)) := by
  have sane := h.sane i
  rw [fetching] at sane
  obtain ⟨p', latched', found⟩ := sane
  obtain rfl : p = p' := Option.some.inj (latched.symm.trans latched')
  obtain ⟨page', only⟩ := findPage_only (h.table i).ascending found
  obtain rfl : page = page' := Option.some.inj (hpage.symm.trans only.entry)
  obtain ⟨s', hs', -, length⟩ := ((h.table i).page page (List.mem_of_getElem? hpage)).snapshot
  obtain rfl : s' = s := by simpa [snapshotOf, hpage, hs'] using target
  have inside := only.contains
  refine ⟨latched, rfl, rfl, page, only, hs', rfl, ?_⟩
  rw [h.length, length]
  omega

theorem Tabled.reader (h : Tabled w₀ w) {spurious : Bool}
    (step : Reader.step w i spurious = some (w', es)) :
    Tabled w₀ w' ∧ ∀ e ∈ es, InBounds w e := by
  have sane := h.sane i
  have sorted := (h.table i).ascending
  cases Reader.step_moves step with
  | released rest p s position latched target next goesOn =>
    subst goesOn
    rw [position] at sane
    have next : Private { w.regmap i with latchedPage := none, latchedBuffer := false }
        (proceed i { w.regmap i with latchedPage := none, latchedBuffer := false } rest) :=
      proceed_private rfl fun page hrest => sane.2 page hrest
    refine ⟨h.settle (fun s' => setState_length w s s' _) next.pages next.sane, ?_⟩
    intro e he
    rcases List.mem_cons.mp he with rfl | he
    · trivial
    · exact proceed_inBounds (r := { w.regmap i with latchedPage := none, latchedBuffer := false })
        rfl rfl sorted rest e he
  | tried p s position =>
    obtain ⟨unlatched, found⟩ := sane.trying position
    have next := tryAcquire_private i unlatched found s (w.heap s).state
    exact ⟨h.settle (fun _ => rfl) next.pages next.sane, tryAcquire_inBounds p s _⟩
  | acquired p s position =>
    rw [position] at sane
    exact ⟨h.settle (fun s' => setState_length w s s' _) rfl ⟨p, rfl, sane.2.1⟩,
      by simp [InBounds]⟩
  | fetched p s page position latched target listed =>
    refine ⟨h.settle (fun _ => rfl) rfl trivial, ?_⟩
    intro e he
    obtain rfl := List.mem_singleton.mp he
    exact h.fetch position latched target listed

omit [DecidableEq ι] in
/-- A publisher keeps lengths, and leaves register maps alone. -/
theorem publisher_shape {s : σ} {spurious : Bool}
    (step : Publisher.step w s spurious = some (w', es)) :
    w'.regmap = w.regmap ∧ w'.reader = w.reader ∧
      (∀ s', (w'.heap s').length = (w.heap s').length) ∧
      ∀ e ∈ es, (∃ data b, e = .published s data b) ∨ e = .publishRejected s := by
  cases Publisher.step_moves step with
  | refused | turned =>
    exact ⟨rfl, rfl, fun s' => store_length w s s' rfl, by simp [World.reject]⟩
  | loaded | retried => exact ⟨rfl, rfl, fun _ => rfl, by simp⟩
  | copied => exact ⟨rfl, rfl, fun s' => store_length w s s' rfl, by simp⟩
  | published data b =>
    refine ⟨rfl, rfl, fun s' => store_length w s s' rfl, ?_⟩
    intro e he
    exact .inl ⟨data, b, List.mem_singleton.mp he⟩

theorem Tabled.next (h : Tabled w₀ w) {choice : Choice ι σ}
    (step : (machine ι σ κ).step w choice = some (w', es)) :
    Tabled w₀ w' ∧ ∀ e ∈ es, InBounds w e := by
  cases choice with
  | call i c =>
    simp only [machine] at step
    split at step <;> cases step
    have next := call_private i (w.regmap i) c
    exact ⟨h.settle (fun _ => rfl) next.pages next.sane,
      call_inBounds rfl rfl (h.table i).ascending c⟩
  | reader i spurious => exact h.reader step
  | publish s data length =>
    simp only [machine] at step
    split at step <;> cases step
    exact ⟨⟨h.table, h.length, h.sane⟩, by simp⟩
  | publisher s spurious =>
    simp only [machine] at step
    obtain ⟨regmap, reader, length, quiet⟩ := publisher_shape step
    refine ⟨⟨regmap ▸ h.table, fun s' => (length s').trans (h.length s'), ?_⟩, ?_⟩
    · rw [regmap, reader]
      exact h.sane
    · intro e he
      rcases quiet e he with ⟨data, b, rfl⟩ | rfl <;> trivial

theorem run_tabled (h : Accepted w₀) (run : (machine ι σ κ).Run w₀ tr w) : Tabled w₀ w := by
  refine Machine.Run.invariant (P := fun _ w => Tabled w₀ w) ?_ ?_ run
  · refine ⟨fun i => ?_, fun _ => rfl, fun i => ?_⟩
    · obtain ⟨given, pages, accepted⟩ := h.regmap i
      exact init_eq accepted
    · rw [h.reader]
      trivial
  · intro tr w choice es w' tabled step
    exact (tabled.next step).1

/-- **Accesses stay in bounds.** `lib_regmap_init` accepts just the sound
tables, and whatever register maps with such tables and publishers do, no access
leaves the page of the current address. -/
theorem accesses_in_bounds :
    (∀ (heap : σ → Snapshot) (given : Option (Regmap σ κ)) (pages : Option (List (Page σ κ))),
      (init heap given pages).isSome = true ↔
        given.isSome = true ∧ ∃ table, pages = some table ∧ TableOk heap table) ∧
    ∀ (w₀ w w' : World ι σ κ) (tr es : List (Event ι σ κ)) (choice : Choice ι σ), Accepted w₀ →
      (machine ι σ κ).Run w₀ tr w → (machine ι σ κ).step w choice = some (w', es) →
      ∀ e ∈ es, InBounds w e := by
  refine ⟨init_accepts, ?_⟩
  intro w₀ w w' tr es choice accepted run step
  exact ((run_tabled accepted run).next step).2

/-- A register map with a page at each end of the address space, before its
fourth read. -/
def wrapping : World Unit Unit Unit where
  heap _ := { buffers := fun _ => ⟨true, fun k => if k = 0 then 0x10 else 0x11⟩,
              length := 2, state := 0, publishRejectedCount := 0 }
  regmap _ := ⟨[⟨0x0000, 2, .readOnly, some (), none⟩, ⟨0xfffe, 2, .readOnly, some (), none⟩],
    0, none, false⟩
  reader _ := .idle
  publisher _ := .idle

theorem wrapping_accepted : Accepted wrapping where
  regmap i := ⟨some (wrapping.regmap i), some (wrapping.regmap i).pages, rfl⟩
  reader _ := rfl

/-- Reading on from 0xffff, the address wraps and the other page is latched. -/
theorem accesses_in_bounds_wrapped :
    ∃ w tr w' es, (machine Unit Unit Unit).Run wrapping tr w ∧ fetchedValues tr = [0x11] ∧
      (w.regmap ()).currentAddress = 0x0000 ∧
      (machine Unit Unit Unit).step w (.reader () false) = some (w', es) ∧
      fetchedValues es = [0x10] ∧ ∀ e ∈ es, InBounds w e := by
  obtain ⟨w, tr, run, shown⟩ := Machine.exec_shows (machine Unit Unit Unit) wrapping
    [.call () (.setAddress 0xffff), .call () .readCurrent, .reader () false, .reader () false,
      .reader () false, .call () .readCurrent, .reader () false, .reader () false, .reader () false]
    (fun reached => (fetchedValues reached.2, (reached.1.regmap ()).currentAddress,
      ((machine Unit Unit Unit).step reached.1 (.reader () false)).map fun next =>
        fetchedValues next.2))
    ([0x11], 0x0000, some [0x10]) (by decide +kernel)
  simp only [Prod.mk.injEq, Option.map_eq_some_iff] at shown
  obtain ⟨values, address, ⟨w', es⟩, step, fetched⟩ := shown
  exact ⟨w, tr, w', es, run, values, address, step, fetched,
    accesses_in_bounds.2 wrapping w w' tr es _ wrapping_accepted run step⟩

end MspmBaremetal.Regmap
