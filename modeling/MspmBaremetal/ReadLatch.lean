import MspmBaremetal.TargetEngine
import Mathlib.Algebra.BigOperators.Group.Finset.Piecewise
import Mathlib.Algebra.Order.BigOperators.Group.Finset
import Mathlib.Data.List.Count

/-!
# Publishing beside the engine's reads

A snapshot refuses a publish only while the engine's latch still holds the image
before the newest one. `never_blocks` says so of every run, and that whatever
ends a read makes every publish possible again.
-/

namespace MspmBaremetal.TargetEngine

variable {σ κ : Type*}

/-- The snapshots published since the newest latch was taken, newest first. -/
def sinceLatch (tr : List (Event σ κ)) : List σ :=
  tr.foldl (fun since e => match e with
    | .regmap (.acquired ..) => []
    | .regmap (.published s ..) => s :: since
    | _ => since) []

/-- Nothing is latched or published. -/
def Quiet (es : List (Event σ κ)) : Prop :=
  ∀ e ∈ es, (∀ p s b, e ≠ .regmap (.acquired () p s b)) ∧ ∀ s image b, e ≠ .regmap (.published s image b)

theorem sinceLatch_quiet {tr es : List (Event σ κ)} (quiet : Quiet es) :
    sinceLatch (tr ++ es) = sinceLatch tr := by
  induction es generalizing tr with
  | nil => rw [List.append_nil]
  | cons e es ih =>
    have first : sinceLatch (tr ++ [e]) = sinceLatch tr := by
      obtain ⟨latch, publish⟩ := quiet e List.mem_cons_self
      rw [sinceLatch, List.foldl_append]
      cases e with
      | regmap e =>
        cases e with
        | acquired i p s b => exact absurd rfl (latch p s b)
        | published s image b => exact absurd rfl (publish s image b)
        | _ => rfl
      | _ => rfl
    rw [← List.singleton_append, ← List.append_assoc,
      ih fun e he => quiet e (List.mem_cons_of_mem _ he), first]

theorem sinceLatch_latched {tr es fs : List (Event σ κ)} {p : Nat} {s : σ} {b : Bool}
    (quiet : Quiet fs) : sinceLatch (tr ++ (es ++ .regmap (.acquired () p s b) :: fs)) = [] := by
  rw [← List.singleton_append, ← List.append_assoc, ← List.append_assoc, sinceLatch_quiet quiet,
    sinceLatch, List.foldl_append]
  rfl

variable [DecidableEq σ]

omit [DecidableEq σ] in
theorem quiet_fetch (d : Device σ κ) : Quiet (d.fetch.2.1.map Event.regmap) := by
  simp only [Device.fetch]
  split <;> simp [Quiet]

omit [DecidableEq σ] in
theorem Quiet.append {es fs : List (Event σ κ)} (h : Quiet es) (h' : Quiet fs) :
    Quiet (es ++ fs) := by
  intro e he
  rcases List.mem_append.mp he with left | right
  · exact h e left
  · exact h' e right

omit [DecidableEq σ] in
theorem latch_eq {r r' : Regmap σ κ} (pages : r'.pages = r.pages)
    (page : r'.latchedPage = r.latchedPage) (buffer : r'.latchedBuffer = r.latchedBuffer) :
    r'.latch = r.latch := by
  unfold Regmap.latch Regmap.snapshotOf
  rw [pages, page, buffer]

/-- What a call does to the latch. -/
theorem Inv.call_latch {others : σ → Bool → Nat} {engine : TargetEngine σ κ}
    (h : Inv others engine) (call : Call) :
    let next := engine.call call
    next.1.regmap.regmap.latchedPage = none ∨
    (next.1.regmap.regmap.latch = engine.regmap.regmap.latch ∧ Quiet next.2) ∨
    ∃ s, next.1.regmap.regmap.latch =
        some (s, Snapshot.activeIndex (engine.regmap.heap s).state) ∧
      ∀ tr e, sinceLatch (tr ++ e :: next.2) = [] := by
  intro next
  have free := engine.regmap.endRead_regmap.2.2
  cases call with
  | beginReceive | beginTransmit | «end» | abort => exact .inl free
  | receive value answer =>
    by_cases receiving : engine.direction = .receive
    · have unlatched := h.latched (by simp [receiving])
      refine .inl ?_
      simp only [next, TargetEngine.call, TargetEngine.receive, receiving, ne_eq,
        not_true_eq_false, if_false]
      split
      · exact unlatched
      split
      · exact free
      · exact free
    · refine .inr (.inl ?_)
      simp [next, TargetEngine.call, TargetEngine.receive, receiving, Quiet]
  | transmit =>
    by_cases transmitting : engine.direction = .transmit
    · have reread := h.sound.relatch
      have regmap := h.sound.readCurrent.2.2
      have quiet : Quiet (engine.regmap.relatch.1.fetch.2.1.map .regmap ++
          [.transmitted engine.regmap.readCurrent.2.2]) :=
        (quiet_fetch engine.regmap.relatch.1).append (by simp [Quiet])
      have out : next.2 = engine.regmap.relatch.2.map .regmap ++
          (engine.regmap.relatch.1.fetch.2.1.map .regmap ++
            [.transmitted engine.regmap.readCurrent.2.2]) := by
        simp only [next, transmit_read transmitting, Device.readCurrent, List.map_append,
          List.append_assoc]
      have latched : next.1.regmap.regmap = engine.regmap.relatch.1.regmap.advance := by
        simp only [next, transmit_read transmitting, regmap]
      rw [latched, out]
      rcases reread.how with ⟨kept, buffer, nothing⟩ | ⟨-, ⟨nowhere, -⟩ | ⟨p, s, hs, found, buffer, taken⟩⟩
      · refine .inr (.inl ⟨latch_eq reread.same.pages (reread.page.trans kept.symm) buffer, ?_⟩)
        rw [nothing]
        exact quiet
      · exact .inl (reread.page.trans nowhere)
      · refine .inr (.inr ⟨s, ?_, ?_⟩)
        · rw [← buffer]
          apply Device.snapshotOf_latch (reread.page.trans found)
          simpa only [Regmap.snapshotOf, Regmap.advance, reread.same.pages] using hs
        · intro tr e
          rw [taken, List.map_append, List.append_assoc, ← List.cons_append]
          exact sinceLatch_latched quiet
    · refine .inr (.inl ?_)
      simp [next, TargetEngine.call, TargetEngine.transmit, transmitting, Quiet]

/-! ## The accounts of a run -/

/-- The snapshots of a page table. -/
def snapshots (pages : List (Page σ κ)) : Finset σ := (pages.filterMap Page.snapshot).toFinset

/-- The engine's latch is on snapshot `s`. -/
def Latches (engine : TargetEngine σ κ) (s : σ) : Prop :=
  ∃ p, engine.regmap.regmap.latchedPage = some p ∧ engine.regmap.regmap.snapshotOf p = some s

/-- A publish of `s` with valid arguments. -/
def accepted (engine : TargetEngine σ κ) (s : σ) (data : Nat → BitVec 8) : Bool :=
  (engine.regmap.publish s (some data) (engine.regmap.heap s).length).2.2

/-- The latch holds the image before the newest one just when that one was
published since the latch was taken. -/
structure Accounted (pages : List (Page σ κ)) (others : σ → Bool → Nat) (tr : List (Event σ κ))
    (engine : TargetEngine σ κ) : Prop where
  inv : Inv others engine
  table : engine.regmap.regmap.pages = pages
  valid : ∀ s ∈ snapshots pages, Snapshot.isValid (some (engine.regmap.heap s)) = true
  overtaken : ∀ s b, engine.regmap.regmap.latch = some (s, b) →
    (sinceLatch tr).count s =
      if b = Snapshot.activeIndex (engine.regmap.heap s).state then 0 else 1

variable {pages : List (Page σ κ)} {others : σ → Bool → Nat} {tr : List (Event σ κ)}
  {engine : TargetEngine σ κ}

omit [DecidableEq σ] in
theorem isValid_eq (snapshot : Snapshot) : Snapshot.isValid (some snapshot) =
    ((snapshot.buffers false).present && (snapshot.buffers true).present &&
      snapshot.length != 0) := by
  have bit : snapshot.state &&& 0x00000001 ≤ 1 := by
    rw [BitVec.le_def, BitVec.toNat_and]
    exact Nat.and_le_right
  simp only [Snapshot.isValid, bit, decide_true, Bool.and_true]

theorem Accounted.call (h : Accounted pages others tr engine) (call : Call) :
    Accounted pages others (tr ++ .called call :: (engine.call call).2) (engine.call call).1 := by
  obtain ⟨inv, same⟩ := h.inv.call call
  refine ⟨inv, same.pages.trans h.table, ?_, ?_⟩
  · intro s hs
    have valid := h.valid s hs
    rw [isValid_eq] at valid ⊢
    rwa [same.buffers, same.length]
  · intro s b held
    rw [same.active]
    rcases h.inv.call_latch call with free | ⟨kept, quiet⟩ | ⟨s', taken, none⟩
    · simp [Regmap.latch, free] at held
    · have since : sinceLatch (tr ++ .called call :: (engine.call call).2) = sinceLatch tr := by
        apply sinceLatch_quiet
        intro e he
        rcases List.mem_cons.mp he with rfl | he
        · simp
        · exact quiet e he
      rw [since]
      exact h.overtaken s b (kept.symm.trans held)
    · obtain ⟨rfl, rfl⟩ := Prod.mk.inj (Option.some.inj (taken.symm.trans held))
      rw [none, if_pos rfl]
      rfl

theorem Accounted.publish (h : Accounted pages others tr engine) (s : σ)
    (data : Option (Nat → BitVec 8)) (length : BitVec 16) :
    let next := engine.regmap.publish s data length
    Accounted pages others (tr ++ next.2.1.map .regmap) { engine with regmap := next.1 } := by
  intro next
  have inv := h.inv.publish s data length
  have regmap := (h.inv.sound.publish s data length).2
  have table : next.1.regmap.pages = pages := by rw [regmap, h.table]
  rcases h.inv.sound.publish_cases s data length with
    ⟨-, out⟩ | ⟨image, -, -, out⟩ | ⟨image, -, free, out⟩
  · simp only [next, out]
    rw [List.map_nil, List.append_nil]
    exact h
  · have same := Device.SameData.reject engine.regmap s
    simp only [next, out] at inv table ⊢
    refine ⟨inv, table, ?_, ?_⟩
    · intro s' hs
      have valid := h.valid s' hs
      rw [isValid_eq] at valid ⊢
      rwa [same.buffers, same.length]
    · intro s' b held
      rw [same.active, sinceLatch_quiet (by simp [Quiet])]
      exact h.overtaken s' b held
  · simp only [next, out] at inv table ⊢
    refine ⟨inv, table, ?_, ?_⟩
    · intro s' hs
      have valid := h.valid s' hs
      rw [isValid_eq] at valid ⊢
      rwa [Device.install_present, Device.install_present, Device.install_length]
    · intro s' b held
      have before := h.overtaken s' b held
      have since : sinceLatch (tr ++ [.regmap (.published s image
          (!Snapshot.activeIndex (engine.regmap.heap s).state))]) = s :: sinceLatch tr := by
        rw [sinceLatch, List.foldl_append]
        rfl
      rw [List.map_singleton, since]
      by_cases hs : s' = s
      · subst hs
        -- the publish was possible, so the latch held the newest image
        have newest : b = Snapshot.activeIndex (engine.regmap.heap s').state := by
          by_contra other
          obtain rfl := Bool.eq_not_iff.mpr other
          have counted : engine.regmap.regmap.latch =
              some (s', !Snapshot.activeIndex (engine.regmap.heap s').state) := held
          simp only [Regmap.readers, if_pos counted] at free
          omega
        rw [List.count_cons_self, before, if_pos newest, h.inv.sound.activeIndex_install, newest]
        simp
      · rw [List.count_cons_of_ne (Ne.symm hs), before, Device.install_ne hs]

omit [DecidableEq σ] in
theorem acceptsPages_page {heap : σ → Snapshot} {previousEnd : Nat} {page : Page σ κ}
    (accepted : Regmap.acceptsPages heap previousEnd pages = true) (hp : page ∈ pages) :
    ∃ previousEnd, Regmap.acceptsPage heap previousEnd page = true := by
  induction pages generalizing previousEnd with
  | nil => cases hp
  | cons first rest ih =>
    simp only [Regmap.acceptsPages, Bool.and_eq_true] at accepted
    rcases List.mem_cons.mp hp with rfl | later
    · exact ⟨previousEnd, accepted.1⟩
    · exact ih accepted.2 later

theorem mem_snapshots {s : σ} : s ∈ snapshots pages ↔ ∃ page ∈ pages, page.snapshot = some s := by
  simp [snapshots]

theorem Initial.accounted {heap : σ → Snapshot} (initial : Initial heap pages engine)
    (sole : SoleReader heap pages) : Accounted pages (initialReaders heap) [] engine := by
  have inv := initial.inv sole.unsaturated
  obtain ⟨accepted, rfl⟩ := initial.eq
  refine ⟨inv, rfl, ?_, ?_⟩
  · intro s hs
    obtain ⟨page, hp, hs⟩ := mem_snapshots.mp hs
    obtain ⟨previousEnd, ok⟩ := acceptsPages_page accepted hp
    simp only [Regmap.acceptsPage, hs, Option.map_some, Bool.and_eq_true] at ok
    exact ok.1.1.1.2
  · intro s b held
    cases held

theorem run_accounted {heap : σ → Snapshot} {start : TargetEngine σ κ}
    (initial : Initial heap pages start) (sole : SoleReader heap pages)
    (run : (machine σ κ).Run start tr engine) :
    Accounted pages (initialReaders heap) tr engine := by
  apply run.invariant (P := fun tr engine => Accounted pages (initialReaders heap) tr engine)
    (initial.accounted sole)
  intro tr engine choice es engine' h step
  cases choice with
  | call call =>
    simp only [machine, Option.some.injEq, Prod.mk.injEq] at step
    obtain ⟨rfl, rfl⟩ := step
    exact h.call call
  | publish s data length =>
    simp only [machine, Option.some.injEq, Prod.mk.injEq] at step
    obtain ⟨rfl, rfl⟩ := step
    exact h.publish s data length

/-- No other register map counts as a reader of the map's snapshots. -/
def Sole (others : σ → Bool → Nat) (pages : List (Page σ κ)) : Prop :=
  ∀ s ∈ snapshots pages, ∀ b, others s b = 0

omit [DecidableEq σ] in
theorem latches_of_latch {s : σ} {b : Bool} (held : engine.regmap.regmap.latch = some (s, b)) :
    Latches engine s := by
  obtain ⟨s', source, pair⟩ := Option.map_eq_some_iff.mp held
  obtain ⟨p, latched, source⟩ := Option.bind_eq_some_iff.mp source
  obtain ⟨rfl, -⟩ := Prod.mk.inj pair
  exact ⟨p, latched, source⟩

theorem Accounted.transmitting (h : Accounted pages others tr engine)
    (latched : engine.regmap.regmap.latchedPage ≠ none) : engine.direction = .transmit := by
  by_contra other
  exact latched (h.inv.latched other)

theorem Accounted.readers_le (h : Accounted pages others tr engine) (sole : Sole others pages) :
    ∑ s ∈ snapshots pages, ((Snapshot.readerCount (engine.regmap.heap s).state false).toNat +
      (Snapshot.readerCount (engine.regmap.heap s).state true).toNat) ≤ 1 := by
  have count : ∀ s ∈ snapshots pages, ∀ b,
      (Snapshot.readerCount (engine.regmap.heap s).state b).toNat =
        if engine.regmap.regmap.latch = some (s, b) then 1 else 0 := by
    intro s hs b
    obtain ⟨top, hw⟩ := h.inv.sound.word s
    rw [hw, Snapshot.pack_readerCount _ _ _ (h.inv.sound.fit s), Regmap.readers, sole s hs b,
      Nat.zero_add]
  cases latch : engine.regmap.regmap.latch with
  | none =>
    apply le_of_eq_of_le (Finset.sum_eq_zero fun s hs => ?_) (Nat.zero_le 1)
    simp [count s hs, latch]
  | some held =>
    obtain ⟨s₀, b₀⟩ := held
    calc ∑ s ∈ snapshots pages, ((Snapshot.readerCount (engine.regmap.heap s).state false).toNat +
          (Snapshot.readerCount (engine.regmap.heap s).state true).toNat)
        ≤ ∑ s ∈ snapshots pages, if s = s₀ then 1 else 0 := by
          apply Finset.sum_le_sum
          intro s hs
          rw [count s hs, count s hs, latch]
          by_cases same : s = s₀
          · subst same
            cases b₀ <;> simp
          · simp [same, Ne.symm same]
      _ ≤ 1 := by
          rw [Finset.sum_ite_eq']
          split <;> omega

/-- A publish is refused by the latch on an older image alone. -/
theorem Accounted.accepted_iff (h : Accounted pages others tr engine) (sole : Sole others pages)
    {s : σ} (hs : s ∈ snapshots pages) (data : Nat → BitVec 8) :
    accepted engine s data = false ↔
      engine.direction = .transmit ∧ Latches engine s ∧ s ∈ sinceLatch tr := by
  have arguments : (engine.regmap.heap s).acceptsPublish (some data) (engine.regmap.heap s).length =
      some data := by
    simp [Snapshot.acceptsPublish, h.valid s hs]
  have refused : accepted engine s data = false ↔
      engine.regmap.regmap.latch = some (s, !Snapshot.activeIndex (engine.regmap.heap s).state) := by
    have count : engine.regmap.regmap.readers others s
        (!Snapshot.activeIndex (engine.regmap.heap s).state) = 0 ↔
        engine.regmap.regmap.latch ≠
          some (s, !Snapshot.activeIndex (engine.regmap.heap s).state) := by
      simp [Regmap.readers, sole s hs]
    unfold accepted
    rcases h.inv.sound.publish_cases s (some data) (engine.regmap.heap s).length with
      ⟨none, -⟩ | ⟨image, -, busy, out⟩ | ⟨image, -, free, out⟩
    · rw [arguments] at none
      cases none
    · rw [out]
      exact iff_of_true rfl (not_not.mp (mt count.mpr busy))
    · rw [out]
      exact iff_of_false (by simp) (count.mp free)
  rw [refused]
  constructor
  · intro held
    obtain ⟨p, latched, source⟩ := latches_of_latch held
    have counted := h.overtaken s _ held
    rw [if_neg (Bool.not_ne_self _)] at counted
    refine ⟨h.transmitting (by simp [latched]), ⟨p, latched, source⟩, ?_⟩
    apply List.count_pos_iff.mp
    omega
  · rintro ⟨-, ⟨p, latched, source⟩, published⟩
    have held := Device.snapshotOf_latch latched source
    have counted := h.overtaken s _ held
    have positive := List.count_pos_iff.mpr published
    have older : engine.regmap.regmap.latchedBuffer ≠
        Snapshot.activeIndex (engine.regmap.heap s).state := by
      intro newest
      rw [if_pos newest] at counted
      omega
    rw [held, Bool.eq_not_iff.mpr older]

/-- What the engine's latch does to the publishers of the map's snapshots. -/
structure NeverBlocks (pages : List (Page σ κ)) (tr : List (Event σ κ)) (engine : TargetEngine σ κ) :
    Prop where
  transmitting : engine.regmap.regmap.latchedPage ≠ none → engine.direction = .transmit
  readers : ∑ s ∈ snapshots pages,
    ((Snapshot.readerCount (engine.regmap.heap s).state false).toNat +
      (Snapshot.readerCount (engine.regmap.heap s).state true).toNat) ≤ 1
  /-- A publish is refused just when a latch on its snapshot has outlived another publish. -/
  refused : ∀ s ∈ snapshots pages, ∀ data, accepted engine s data = false ↔
    engine.direction = .transmit ∧ Latches engine s ∧ s ∈ sinceLatch tr
  /-- So one latch sees at most one publish of its snapshot. -/
  once : ∀ s ∈ snapshots pages, Latches engine s → (sinceLatch tr).count s ≤ 1
  /-- Whatever ends a read lets every publish through. -/
  ready : ∀ call ∈ [Call.end, .abort, .beginReceive, .beginTransmit], ∀ s ∈ snapshots pages,
    ∀ data, accepted (engine.call call).1 s data = true

/-- **The engine never blocks publishers for longer than one read.** In every
run a publish is refused just when it is the second one under a latch. -/
theorem never_blocks {heap : σ → Snapshot} {start : TargetEngine σ κ}
    (initial : Initial heap pages start) (sole : SoleReader heap pages)
    (run : (machine σ κ).Run start tr engine) : NeverBlocks pages tr engine := by
  have h := run_accounted initial sole run
  have alone : Sole (initialReaders heap) pages := by
    intro s hs b
    obtain ⟨page, hp, source⟩ := mem_snapshots.mp hs
    simp [initialReaders, sole page hp s source b]
  refine ⟨h.transmitting, h.readers_le alone, fun s hs data => h.accepted_iff alone hs data, ?_, ?_⟩
  · rintro s - ⟨p, latched, source⟩
    rw [h.overtaken s _ (Device.snapshotOf_latch latched source)]
    split <;> omega
  · intro call hcall s hs data
    have next := h.call call
    have free : (engine.call call).1.regmap.regmap.latchedPage = none := by
      have unlatched := engine.regmap.endRead_regmap.2.2
      simp only [List.mem_cons, List.not_mem_nil, or_false] at hcall
      rcases hcall with rfl | rfl | rfl | rfl <;> exact unlatched
    by_contra refused
    obtain ⟨-, ⟨p, latched, -⟩, -⟩ :=
      (next.accepted_iff alone hs data).mp (Bool.eq_false_of_not_eq_true refused)
    rw [free] at latched
    cases latched

/-- Under one latch the first publish succeeds and the second is refused; the
end of the read lets the next one through. -/
theorem never_blocks_read : ∃ tr engine, (machine Unit Unit).Run sample tr engine ∧
    sinceLatch tr = [()] ∧ accepted engine () (fun _ => 0x30) = false ∧
    accepted (engine.call .end).1 () (fun _ => 0x30) = true ∧ NeverBlocks samplePages tr engine := by
  obtain ⟨engine, tr, run, shown⟩ := Machine.exec_shows (machine Unit Unit) sample
    [.call .beginReceive, .call (.receive 0x01 true), .call (.receive 0x02 true),
      .call .beginTransmit, .call .transmit, .publish () (some fun _ => 0x20) 2, .call .transmit]
    (fun reached => (sinceLatch reached.2, accepted reached.1 () fun _ => 0x30,
      accepted (reached.1.call .end).1 () fun _ => 0x30))
    ([()], false, true) (by decide +kernel)
  obtain ⟨since, refused, ready⟩ := by simpa only [Prod.mk.injEq] using shown
  exact ⟨tr, engine, run, since, refused, ready, never_blocks sample_initial sample_soleReader run⟩

end MspmBaremetal.TargetEngine
