import MspmBaremetal.RegmapRuns

/-!
# Coherent reads and the accounts in the state word

What holds of a snapshot set up by `lib_regmap_snapshot_init` after any
interleaving of one publisher with any number of register maps:

* `state_word`: the state word counts the latches taken and not released;
* `reads_coherent`: what is read under one latch comes from the image that was
  newest when the latch was taken.
-/

namespace MspmBaremetal.Regmap

variable {ι σ κ : Type*} [DecidableEq σ]

/-! ## What a trace says about a snapshot -/

/-- The latches of buffer `b` of snapshot `s` that were taken. -/
def acquires (s : σ) (b : Bool) (tr : List (Event ι σ κ)) : Nat :=
  tr.countP fun | .acquired _ _ s' b' => s' = s ∧ b' = b | _ => false

/-- The latches of buffer `b` of snapshot `s` that were given up. -/
def releases (s : σ) (b : Bool) (tr : List (Event ι σ κ)) : Nat :=
  tr.countP fun | .released _ _ s' b' => s' = s ∧ b' = b | _ => false

/-- The buffer that was published last; buffer 0 to begin with. -/
def lastPublished (s : σ) (tr : List (Event ι σ κ)) : Bool :=
  tr.foldl (fun b e => match e with | .published s' _ b' => if s' = s then b' else b | _ => b) false

/-- The data of the last publish that succeeded, or the initial image. -/
def newestImage (image : Nat → BitVec 8) (s : σ) (tr : List (Event ι σ κ)) : Nat → BitVec 8 :=
  tr.foldl (fun image e => match e with
    | .published s' data _ => if s' = s then data else image
    | _ => image) image

variable [DecidableEq ι]

/-- The event takes or gives up a latch that register map `i` has on snapshot `s`. -/
def Event.latches (i : ι) (s : σ) : Event ι σ κ → Bool
  | .acquired i' _ s' _ | .released i' _ s' _ => i' = i ∧ s' = s
  | _ => false

/-- An event about snapshot `s`, as one of a store with latched readers. -/
def visible (s : σ) : Event ι σ κ → Option (LatchEvent ι Nat (BitVec 8))
  | .acquired i _ s' _ => if s' = s then some (.latched i) else none
  | .released i _ s' _ => if s' = s then some (.released i) else none
  | .fetched i _ s' _ offset value => if s' = s then some (.read i offset value) else none
  | .published s' data _ => if s' = s then some (.stored data) else none
  | _ => none

variable {tables : ι → List (Page σ κ)} {lengths : σ → BitVec 16} {s : σ} {w₀ w w' : World ι σ κ}
  {g g' : Accounts ι} {i : ι} {es tr : List (Event ι σ κ)} {image : Nat → BitVec 8}

omit [DecidableEq ι] in
theorem quiet_visible (h : ∀ e ∈ es, e.touches s = false) : es.filterMap (visible s) = [] := by
  apply List.filterMap_eq_nil_iff.mpr
  intro e he
  have untouched := h e he
  cases e with
  | acquired | released | fetched | published =>
    simp only [Event.touches, decide_eq_false_iff_not] at untouched
    simp [visible, untouched]
  | _ => rfl

omit [DecidableEq ι] in
theorem quiet_counts (h : ∀ e ∈ es, e.touches s = false) (b : Bool) :
    acquires s b es = 0 ∧ releases s b es = 0 := by
  constructor
  · apply List.countP_eq_zero.mpr
    intro e he
    have untouched := h e he
    cases e with
    | acquired => simp_all [Event.touches]
    | _ => simp
  · apply List.countP_eq_zero.mpr
    intro e he
    have untouched := h e he
    cases e with
    | released => simp_all [Event.touches]
    | _ => simp

omit [DecidableEq ι] in
theorem quiet_published (h : ∀ e ∈ es, e.touches s = false) (before : Bool) :
    es.foldl (fun b e => match e with
      | .published s' _ b' => if s' = s then b' else b
      | _ => b) before = before := by
  induction es with
  | nil => rfl
  | cons e es ih =>
    have untouched := h e (by simp)
    cases e with
    | published s' data b' =>
      simp only [Event.touches, decide_eq_false_iff_not] at untouched
      simpa [untouched] using ih fun e he => h e (by simp [he])
    | _ => exact ih fun e he => h e (by simp [he])

/-! ## What an access adds -/

theorem effect_visible (h : Effect tables s g es g') :
    (es.filterMap (visible s) = [] ∧ g'.images = g.images) ∨
    ∃ e, es.filterMap (visible s) = [e] ∧ LatchedStore.Effect g.images e g'.images := by
  cases h with
  | quiet es h => exact .inl ⟨quiet_visible h, rfl⟩
  | acquired i p free unlatched room =>
    exact .inr ⟨.latched i, by simp [visible], .latched i unlatched⟩
  | released i p b es h image held latched =>
    exact .inr ⟨.released i, by simp [visible, quiet_visible h], .released i image latched⟩
  | fetched i p page address image hpage target contains latched =>
    exact .inr ⟨.read i (address.toNat - page.firstAddress.toNat) _, by simp [visible],
      .read i _ image latched⟩
  | published data unread => exact .inr ⟨.stored data, by simp [visible], .stored data⟩

theorem effect_counts (h : Effect tables s g es g') (b : Bool) :
    g'.readers b + releases s b es = g.readers b + acquires s b es := by
  cases h with
  | quiet es h => simp [quiet_counts h b]
  | acquired i p free unlatched room =>
    rw [Accounts.readers_acquire free]
    by_cases hb : b = g.active
    · subst hb
      simp [acquires, releases]
    · simp [acquires, releases, hb, Ne.symm hb]
  | released i p c es h image held latched =>
    have some : 0 < g.readers c := Finset.card_pos.mpr ⟨i, held⟩
    obtain ⟨noAcquire, noRelease⟩ := quiet_counts h b
    rw [Accounts.readers_release held]
    simp only [acquires, releases, List.countP_cons] at noAcquire noRelease ⊢
    rw [noAcquire, noRelease]
    by_cases hb : b = c
    · subst hb
      simp
      omega
    · simp [hb, Ne.symm hb]
  | fetched => simp [acquires, releases]
  | published => simp [acquires, releases, Accounts.readers, Accounts.publish]

theorem effect_published (h : Effect tables s g es g') :
    g'.active = es.foldl (fun b e => match e with
      | .published s' _ b' => if s' = s then b' else b
      | _ => b) g.active := by
  cases h with
  | quiet es h => exact (quiet_published h _).symm
  | acquired | fetched => rfl
  | released i p b es h image held latched => exact (quiet_published h _).symm
  | published data unread => simp [Accounts.publish]

/-! ## Every run -/

/-- A snapshot as `lib_regmap_snapshot_init` leaves it, register maps as
`lib_regmap_init` leaves them, and nobody in the middle of a call. -/
structure Initial (w : World ι σ κ) (s : σ) (image : Nat → BitVec 8) : Prop where
  snapshot : ∃ given zero one length data,
    Snapshot.init given zero one length data = some (w.heap s) ∧ image = data.getD fun _ => 0
  regmap : ∀ i, ∃ given pages, init w.heap given pages = some (w.regmap i)
  reader : ∀ i, w.reader i = .idle
  publisher : ∀ s, w.publisher s = .idle

theorem Snapshot.init_eq {given : Option Snapshot} {zero one : Option (Nat → BitVec 8)}
    {length : BitVec 16} {data : Option (Nat → BitVec 8)} {snapshot : Snapshot}
    (h : Snapshot.init given zero one length data = some snapshot) :
    snapshot.state = 0 ∧ ∀ b, ∀ k < snapshot.length.toNat,
      (snapshot.buffers b).bytes k = (data.getD fun _ => 0) k := by
  simp only [Snapshot.init] at h
  split at h
  · split at h <;> cases h
    refine ⟨rfl, ?_⟩
    intro b k hk
    simp only [Snapshot.copy_apply, hk, if_true]
  · cases h

/-- What a run with trace `tr` has led to. -/
structure Reached (tables : ι → List (Page σ κ)) (lengths : σ → BitVec 16) (s : σ)
    (image : Nat → BitVec 8) (tr : List (Event ι σ κ)) (w : World ι σ κ) (g : Accounts ι) : Prop where
  inv : Inv tables lengths s w g
  images : (LatchedStore.machine ι Nat (BitVec 8)).Run (.start image) (tr.filterMap (visible s)) g.images
  counts : ∀ b, g.readers b + releases s b tr = acquires s b tr
  active : g.active = lastPublished s tr

theorem initial_reached (h : Initial w s image) :
    Reached (fun i => (w.regmap i).pages) (fun s => (w.heap s).length) s image [] w
      (.start image) := by
  obtain ⟨given, zero, one, length, data, hinit, rfl⟩ := h.snapshot
  obtain ⟨state, bytes⟩ := Snapshot.init_eq hinit
  have regmap : ∀ i, Fits (fun s => (w.heap s).length) (w.regmap i).pages ∧
      (w.regmap i).latchedPage = none := by
    intro i
    obtain ⟨given, pages, accepted⟩ := h.regmap i
    exact init_fits accepted
  refine ⟨?_, .start, by simp [Accounts.readers, Accounts.start, releases, acquires], rfl⟩
  exact
    { length := rfl
      word := by rw [state]; rfl
      fit := fun b => by simp [Accounts.readers, Accounts.start]
      table := fun i => rfl
      fits := fun i => (regmap i).1
      holders := by
        intro i b
        simp only [Accounts.start, Finset.notMem_empty, false_iff]
        exact not_holds (regmap i).2
      current := bytes false
      held := by simp [Accounts.start]
      free := by simp [Accounts.start, LatchedStore.start]
      reader := fun i => by rw [h.reader]; trivial
      publisher := by rw [h.publisher]; trivial }

theorem Reached.next (h : Reached tables lengths s image tr w g) {choice : Choice ι σ}
    (step : (machine ι σ κ).step w choice = some (w', es)) :
    ∃ g', Effect tables s g es g' ∧ Reached tables lengths s image (tr ++ es) w' g' := by
  obtain ⟨g', effect, inv⟩ := inv_step h.inv step
  refine ⟨g', effect, inv, ?_, ?_, ?_⟩
  · rw [List.filterMap_append]
    rcases effect_visible effect with ⟨hidden, same⟩ | ⟨e, he, effect⟩
    · rw [hidden, same, List.append_nil]
      exact h.images
    · obtain ⟨c, hc⟩ := LatchedStore.effect_step effect
      rw [he]
      exact h.images.next hc
  · intro b
    have before := h.counts b
    have counts := effect_counts effect b
    simp only [releases, acquires, List.countP_append] at before counts ⊢
    omega
  · rw [effect_published effect, lastPublished, List.foldl_append, ← lastPublished, ← h.active]

theorem run_reached (h : Initial w₀ s image) (run : (machine ι σ κ).Run w₀ tr w) :
    ∃ g, Reached (fun i => (w₀.regmap i).pages) (fun s => (w₀.heap s).length) s image tr w g := by
  refine Machine.Run.invariant (P := fun tr w => ∃ g,
    Reached (fun i => (w₀.regmap i).pages) (fun s => (w₀.heap s).length) s image tr w g) ?_ ?_ run
  · exact ⟨_, initial_reached h⟩
  · rintro tr w choice es w' ⟨g, reached⟩ step
    obtain ⟨g', -, next⟩ := reached.next step
    exact ⟨g', next⟩

/-- Two register maps with one page of two bytes, which share its snapshot. -/
def twoReaders : World Bool Unit Unit where
  heap _ := { buffers := fun b => ⟨true, Snapshot.copy (if b then fun _ => 0 else fun _ => 0)
                (fun k => if k = 0 then 0x10 else 0x11) 2⟩,
              length := 2, state := 0, publishRejectedCount := 0 }
  regmap _ := ⟨[⟨0x0000, 2, .readOnly, some (), none⟩], 0, none, false⟩
  reader _ := .idle
  publisher _ := .idle

theorem twoReaders_initial :
    Initial twoReaders () (fun k => if k = 0 then 0x10 else 0x11) where
  snapshot := ⟨some (twoReaders.heap ()), some fun _ => 0, some fun _ => 0, 2,
    some fun k => if k = 0 then 0x10 else 0x11, rfl, rfl⟩
  regmap i := ⟨some (twoReaders.regmap i), some [⟨0x0000, 2, .readOnly, some (), none⟩], rfl⟩
  reader _ := rfl
  publisher _ := rfl

/-! ## The state word -/

/-- The state word of snapshot `s` in the state `w` a run with trace `tr`
reached, and what `lib_regmap_snapshot_acquire` does there to a full count. -/
structure CountsLatches (s : σ) (tr : List (Event ι σ κ)) (w : World ι σ κ) : Prop where
  active : Snapshot.activeIndex (w.heap s).state = lastPublished s tr
  readers : ∀ b, (Snapshot.readerCount (w.heap s).state b).toNat + releases s b tr = acquires s b tr
  top : (w.heap s).state.getLsbD 31 = false
  /-- A step moves a count by the latches it takes and gives up, whatever it
  does to the other fields. -/
  independent : ∀ choice w' es, (machine ι σ κ).step w choice = some (w', es) → ∀ b,
    (Snapshot.readerCount (w'.heap s).state b).toNat + releases s b es =
      (Snapshot.readerCount (w.heap s).state b).toNat + acquires s b es
  saturated : ∀ i p spurious, (∃ state, w.reader i = .load p ∨ w.reader i = .exchange p state) →
    (w.regmap i).snapshotOf p = some s →
    (Snapshot.readerCount (w.heap s).state (lastPublished s tr)).toNat = 32767 →
    ∃ w' es, Reader.step w i spurious = some (w', .refused i p s :: es) ∧
      w'.heap = w.heap ∧ w'.reader i = .idle ∧ (w'.regmap i).latchedPage = none

omit [DecidableEq ι] [DecidableEq σ] in
theorem tryAcquire_full {r : Regmap σ κ} {p : Nat} {state : BitVec 32}
    (full : Snapshot.readerCount state (Snapshot.activeIndex state) = Snapshot.readerMask) :
    tryAcquire i r p s state = ({ r with currentAddress := r.currentAddress + 1 }, .idle,
      [.refused i p s, .unmapped i r.currentAddress]) := by
  simp [tryAcquire, full, readUnmapped]

/-- **The state word counts the latches.** In every state any interleaving of
one publisher with any number of register maps can lead to. -/
theorem state_word (h : Initial w₀ s image) (run : (machine ι σ κ).Run w₀ tr w) :
    CountsLatches s tr w := by
  obtain ⟨g, reached⟩ := run_reached h run
  have inv := reached.inv
  have active : Snapshot.activeIndex (w.heap s).state = lastPublished s tr := by
    rw [inv.word, Snapshot.pack_activeIndex inv.fit, reached.active]
  refine ⟨active, ?_, ?_, ?_, ?_⟩
  · intro b
    rw [inv.word, Snapshot.pack_readerCount false g.active b inv.fit]
    exact reached.counts b
  · rw [inv.word]
    exact Snapshot.pack_top inv.fit
  · intro choice w' es step b
    obtain ⟨g', effect, next⟩ := reached.next step
    rw [inv.word, next.inv.word, Snapshot.pack_readerCount false g.active b inv.fit,
      Snapshot.pack_readerCount false g'.active b next.inv.fit]
    exact effect_counts effect b
  · rintro i p spurious ⟨state, position⟩ target count
    have full : Snapshot.readerCount (w.heap s).state (Snapshot.activeIndex (w.heap s).state) =
        Snapshot.readerMask := by
      rw [active]
      exact BitVec.eq_of_toNat_eq count
    have sane := inv.reader i
    obtain ⟨free, refuses⟩ : (w.regmap i).latchedPage = none ∧ Reader.step w i spurious =
        some (w.settle i (tryAcquire i (w.regmap i) p s (w.heap s).state)) := by
      rcases position with loading | exchanging
      · rw [loading] at sane
        exact ⟨sane.1, by simp only [Reader.step, loading, target, Option.bind_some]⟩
      · rw [exchanging] at sane
        -- the expected word had room, so it is not the word any more
        have changed : ¬ ((w.heap s).state = state ∧ spurious = false) := by
          rintro ⟨same, -⟩
          exact sane.2.2 (same ▸ full)
        exact ⟨sane.1, by
          simp only [Reader.step, exchanging, target, Option.bind_some, changed, if_false]⟩
    rw [tryAcquire_full full] at refuses
    exact ⟨_, _, refuses, rfl, by simp, by simpa using free⟩

/-- A latch taken while a publish is under way makes its compare-exchange fail,
and the publish then counts it: one reader of buffer 0, buffer 1 active. -/
theorem state_word_retried :
    ∃ w tr, (machine Bool Unit Unit).Run twoReaders tr w ∧ (w.heap ()).state = 0x00000003 ∧
      CountsLatches () tr w := by
  obtain ⟨w, tr, run, word⟩ := Machine.exec_shows (machine Bool Unit Unit) twoReaders
    [.publish () (some fun _ => 0x20) 2, .publisher () false, .publisher () false,
      .call false .readCurrent, .reader false false, .reader false true, .reader false false,
      .publisher () false, .publisher () false, .publisher () false]
    (fun reached => (reached.1.heap ()).state) 0x00000003 (by decide +kernel)
  exact ⟨w, tr, run, word, state_word twoReaders_initial run⟩

/-! ## Coherent reads -/

/-- What the readers of snapshot `s` saw in a run with trace `tr`. -/
structure CoherentReads (tables : ι → List (Page σ κ)) (s : σ) (image : Nat → BitVec 8)
    (tr : List (Event ι σ κ)) : Prop where
  /-- Every byte is read under a latch that was taken and not yet given up. -/
  latched : ∀ before i p address offset value post,
    tr = before ++ .fetched i p s address offset value :: post →
    ∃ pre p' b mid, before = pre ++ .acquired i p' s b :: mid ∧ ∀ e ∈ mid, e.latches i s = false
  /-- It comes from the image that was newest when that latch was taken. -/
  newest : ∀ pre i p' b mid p address offset value post,
    tr = pre ++ .acquired i p' s b :: mid ++ .fetched i p s address offset value :: post →
    (∀ e ∈ mid, e.latches i s = false) → value = newestImage image s pre offset
  /-- It lies at the offset of the register map's address in the page. -/
  offset : ∀ i p address offset value, .fetched i p s address offset value ∈ tr →
    ∃ page, (tables i)[p]? = some page ∧ page.snapshot = some s ∧ page.contains address = true ∧
      offset = address.toNat - page.firstAddress.toNat

omit [DecidableEq ι] in
theorem newest_visible (image : Nat → BitVec 8) (s : σ) (tr : List (Event ι σ κ)) :
    LatchedStore.newest image (tr.filterMap (visible s)) = newestImage image s tr := by
  rw [LatchedStore.newest, List.foldl_filterMap, newestImage]
  congr 1
  funext image e
  cases e with
  | published s' data b =>
    by_cases hs : s' = s
    · simp [visible, hs]
    · simp [visible, hs]
  | acquired i p s' b | released i p s' b | fetched i p s' =>
    by_cases hs : s' = s
    · simp [visible, hs]
    · simp [visible, hs]
  | _ => rfl

/-- The active buffer holds the newest image. -/
theorem Reached.page (h : Reached tables lengths s image tr w g) {k : Nat}
    (hk : k < (w.heap s).length.toNat) :
    ((w.heap s).buffers (Snapshot.activeIndex (w.heap s).state)).bytes k =
      newestImage image s tr k := by
  rw [h.inv.length] at hk
  rw [h.inv.word, Snapshot.pack_activeIndex h.inv.fit, h.inv.current k hk,
    LatchedStore.current_eq h.images, newest_visible]

theorem latches_visible {e : Event ι σ κ} :
    e.latches i s = false ↔
      visible s e ≠ some (.latched i) ∧ visible s e ≠ some (.released i) := by
  cases e with
  | acquired i' p s' b | released i' p s' b =>
    by_cases hs : s' = s
    · simp [Event.latches, visible, hs]
    · simp [Event.latches, visible, hs]
  | fetched i' p s' | published s' =>
    by_cases hs : s' = s
    · simp [Event.latches, visible, hs]
    · simp [Event.latches, visible, hs]
  | _ => simp [Event.latches, visible]

omit [DecidableEq ι] in
theorem visible_latched {e : Event ι σ κ} (h : visible s e = some (.latched i)) :
    ∃ p b, e = .acquired i p s b := by
  cases e with
  | acquired i' p s' b =>
    simp only [visible, Option.ite_none_right_eq_some, Option.some.injEq, LatchEvent.latched.injEq] at h
    obtain ⟨rfl, rfl⟩ := h
    exact ⟨p, b, rfl⟩
  | released | fetched | published => simp [visible] at h
  | _ => simp [visible] at h

theorem undisturbed_iff {mid : List (Event ι σ κ)} :
    LatchedStore.Undisturbed i (mid.filterMap (visible s)) ↔ ∀ e ∈ mid, e.latches i s = false := by
  simp only [LatchedStore.Undisturbed, List.mem_filterMap]
  constructor
  · intro h e he
    refine latches_visible.mpr ⟨fun same => ?_, fun same => ?_⟩
    · exact (h _ ⟨e, he, same⟩).1 rfl
    · exact (h _ ⟨e, he, same⟩).2 rfl
  · rintro h v ⟨e, he, rfl'⟩
    obtain ⟨notLatched, notReleased⟩ := latches_visible.mp (h e he)
    exact ⟨fun same => notLatched (same ▸ rfl'), fun same => notReleased (same ▸ rfl')⟩

theorem fetched_offset (h : Initial w₀ s image) (run : (machine ι σ κ).Run w₀ tr w) {p : Nat}
    {address : BitVec 16} {offset : Nat} {value : BitVec 8}
    (fetched : .fetched i p s address offset value ∈ tr) :
    ∃ page, (w₀.regmap i).pages[p]? = some page ∧ page.snapshot = some s ∧
      page.contains address = true ∧ offset = address.toNat - page.firstAddress.toNat := by
  obtain ⟨pre, post, rfl⟩ := List.append_of_mem fetched
  obtain ⟨before, u, choice, es, u', l, r, run, step, rfl, -⟩ := run.split rfl
  obtain ⟨g, reached⟩ := run_reached h run
  obtain ⟨g', effect, -⟩ := reached.next step
  generalize hes : l ++ .fetched i p s address offset value :: r = es at effect
  have member : .fetched i p s address offset value ∈ es := by simp [← hes]
  cases effect with
  | quiet es h => simpa [Event.touches] using h _ member
  | fetched i p page address image hpage target contains latched =>
    obtain ⟨rfl, rfl, rfl, rfl, rfl⟩ := by simpa using member
    exact ⟨page, hpage, target, contains, rfl⟩
  | released i p b es h image held latched =>
    have := h _ (by simpa using member)
    simp [Event.touches] at this
  | acquired | published => simp at member

/-- **Reads are coherent.** Whatever one publisher and any number of register
maps do in between, what is read under one latch is the image that was newest
when the latch was taken. -/
theorem reads_coherent (h : Initial w₀ s image) (run : (machine ι σ κ).Run w₀ tr w) :
    CoherentReads (fun i => (w₀.regmap i).pages) s image tr := by
  obtain ⟨g, reached⟩ := run_reached h run
  refine ⟨?_, ?_, fun i p address offset value fetched => fetched_offset h run fetched⟩
  · rintro before i p address offset value post rfl
    obtain ⟨pre, mid, split, quiet⟩ := LatchedStore.read_latched reached.images
      (by simp [visible] : _ = before.filterMap (visible s) ++ .read i offset value ::
        post.filterMap (visible s))
    obtain ⟨pre', rest, rfl, rfl, hrest⟩ := List.filterMap_eq_append_iff.mp split
    obtain ⟨skipped, e, mid', rfl, hidden, he, rfl⟩ := List.filterMap_eq_cons_iff.mp hrest
    obtain ⟨p', b, rfl⟩ := visible_latched he
    exact ⟨pre' ++ skipped, p', b, mid', by simp, undisturbed_iff.mp quiet⟩
  · rintro pre i p' b mid p address offset value post rfl quiet
    rw [← newest_visible]
    exact LatchedStore.read_newest reached.images
      (by simp [visible] : _ = pre.filterMap (visible s) ++ .latched i :: mid.filterMap (visible s) ++
        .read i offset value :: post.filterMap (visible s)) (undisturbed_iff.mpr quiet)

/-- The bytes read, in order. -/
def fetchedValues (tr : List (Event ι σ κ)) : List (BitVec 8) :=
  tr.filterMap fun | .fetched _ _ _ _ _ value => some value | _ => none

/-- A publish between two reads under one latch: they both get the old image,
and a new latch gets the new one. -/
theorem reads_coherent_overtaken :
    ∃ w tr, (machine Bool Unit Unit).Run twoReaders tr w ∧ fetchedValues tr = [0x10, 0x11, 0x20] ∧
      CoherentReads (fun i => (twoReaders.regmap i).pages) ()
        (fun k => if k = 0 then 0x10 else 0x11) tr := by
  obtain ⟨w, tr, run, values⟩ := Machine.exec_shows (machine Bool Unit Unit) twoReaders
    [.call false .readCurrent, .reader false false, .reader false false, .reader false false,
      .publish () (some fun _ => 0x20) 2, .publisher () false, .publisher () false,
      .publisher () false, .publisher () false,
      .call false .readCurrent, .reader false false,
      .call true .readCurrent, .reader true false, .reader true false, .reader true false]
    (fun reached => fetchedValues reached.2) [0x10, 0x11, 0x20] (by decide +kernel)
  exact ⟨w, tr, run, values, reads_coherent twoReaders_initial run⟩

end MspmBaremetal.Regmap
