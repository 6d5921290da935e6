import MspmBaremetal.SnapshotReads

/-!
# Publishing under any interleaving

A call of `lib_regmap_snapshot_publish` from its first access to its last one,
with any register maps' accesses between two of its own. `publish_decides` says
when it succeeds and what it leaves behind in either case.
-/

namespace MspmBaremetal.Regmap

variable {ι σ κ : Type*} [DecidableEq σ]

/-- A call of `lib_regmap_snapshot_publish` is under way. -/
def Publisher.busy : Publisher → Bool
  | .idle => false
  | _ => true

/-- What the publishes of snapshot `s` with valid arguments have returned. -/
def results (s : σ) (tr : List (Event ι σ κ)) : List Bool :=
  tr.filterMap fun
    | .published s' _ _ => if s' = s then some true else none
    | .publishRejected s' => if s' = s then some false else none
    | _ => none

/-! ## What register maps leave alone -/

section

variable (s : σ) (i : ι) (r : Regmap σ κ)

@[simp] theorem results_append (tr tr' : List (Event ι σ κ)) :
    results s (tr ++ tr') = results s tr ++ results s tr' := List.filterMap_append ..

@[simp] theorem results_published (data : Nat → BitVec 8) (b : Bool) :
    results s [(.published s data b : Event ι σ κ)] = [true] := by simp [results]

@[simp] theorem results_publishRejected :
    results s [(.publishRejected s : Event ι σ κ)] = [false] := by simp [results]

theorem results_other {s' : σ} {data : Nat → BitVec 8} {b : Bool} :
    results s [(.published s' data b : Event ι σ κ)] = [] ↔ s' ≠ s := by
  simp [results]

@[simp] theorem results_write (value : BitVec 8) : results s (write i r value).2.2 = [] := by
  simp only [write]
  split <;> rfl

@[simp] theorem results_proceed (rest : Rest) : results s (proceed i r rest).2.2 = [] := by
  cases rest with
  | «return» | setAddress => rfl
  | writeCurrent value => exact results_write s i r value
  | acquire page =>
    cases page with
    | none => rfl
    | some page =>
      simp only [proceed]
      split <;> rfl

@[simp] theorem results_endRead (rest : Rest) : results s (endRead i r rest).2.2 = [] := by
  unfold endRead
  split
  · exact results_proceed s i r rest
  · rfl

@[simp] theorem results_call (c : Call) : results s (call i r c).2.2 = [] := by
  cases c with
  | setAddress | beginRead | endRead | writeCurrent => exact results_endRead s i r _
  | readCurrent =>
    simp only [call]
    split
    · split <;> rfl
    · exact results_endRead s i r _

@[simp] theorem results_tryAcquire (p : Nat) (s' : σ) (state : BitVec 32) :
    results s (tryAcquire i r p s' state).2.2 = [] := by
  unfold tryAcquire
  split <;> rfl

end

variable [DecidableEq ι] {tables : ι → List (Page σ κ)} {lengths : σ → BitVec 16} {s : σ}
  {w₀ w w' : World ι σ κ} {g : Accounts ι} {i : ι} {es tr during : List (Event ι σ κ)}
  {image data : Nat → BitVec 8}

/-- What the steps of everybody else do to snapshot `s` and its publisher: at
most the state word changes. -/
structure Bystander (s : σ) (w : World ι σ κ) (es : List (Event ι σ κ)) (w' : World ι σ κ) :
    Prop where
  heap : ∃ state, w'.heap s = { w.heap s with state }
  publisher : w'.publisher s = w.publisher s
  results : results s es = []

theorem reader_bystander {spurious : Bool} (step : Reader.step w i spurious = some (w', es)) :
    Bystander s w es w' := by
  have word : ∀ s' state, ∃ next, (w.setState s' state).heap s = { w.heap s with state := next } := by
    intro s' state
    by_cases hs : s = s'
    · subst hs
      exact ⟨state, World.setState_heap_self ..⟩
    · exact ⟨(w.heap s).state, World.setState_heap_ne w s' state hs⟩
  cases Reader.step_moves step with
  | released rest p s' position latched target next goesOn =>
    subst goesOn
    exact ⟨word s' _, rfl, results_proceed s i _ rest⟩
  | tried p s' => exact ⟨⟨_, rfl⟩, rfl, by simp⟩
  | acquired p s' => exact ⟨word s' _, rfl, rfl⟩
  | fetched => exact ⟨⟨_, rfl⟩, rfl, rfl⟩

theorem call_bystander {c : Call} (step : (machine ι σ κ).step w (.call i c) = some (w', es)) :
    Bystander s w es w' := by
  simp only [machine] at step
  split at step <;> cases step
  exact ⟨⟨_, rfl⟩, rfl, results_call s i _ c⟩

omit [DecidableEq ι] in
theorem publisher_bystander {s' : σ} (other : s' ≠ s) {spurious : Bool}
    (step : Publisher.step w s' spurious = some (w', es)) : Bystander s w es w' := by
  obtain ⟨heap, publisher, -⟩ := publisher_frame other step
  refine ⟨⟨(w.heap s).state, heap⟩, publisher, ?_⟩
  cases Publisher.step_moves step with
  | loaded | copied | retried => rfl
  | refused | turned => simp [World.reject, results, other]
  | published => simp [results, other]

/-- While a call is under way, only its own accesses do more. -/
theorem step_bystander (busy : (w.publisher s).busy = true) {choice : Choice ι σ}
    (step : (machine ι σ κ).step w choice = some (w', es))
    (other : ∀ spurious, choice ≠ .publisher s spurious) : Bystander s w es w' := by
  cases choice with
  | call i c => exact call_bystander step
  | reader i spurious => exact reader_bystander step
  | publish s' data length =>
    simp only [machine] at step
    split at step <;> cases step
    rename_i idle
    have hs : s' ≠ s := by
      rintro rfl
      rw [idle] at busy
      cases busy
    exact ⟨⟨_, rfl⟩, Function.update_of_ne hs.symm .., rfl⟩
  | publisher s' spurious =>
    have hs : s' ≠ s := by
      rintro rfl
      exact other spurious rfl
    exact publisher_bystander hs step

omit [DecidableEq ι] in
/-- What only publishes of snapshot `s` change, other events keep. -/
theorem foldl_results {β : Type*} {f : β → Event ι σ κ → β}
    (keep : ∀ b e, results s [e] = [] → f b e = b) (h : results s es = []) (b : β) :
    es.foldl f b = b := by
  induction es with
  | nil => rfl
  | cons e es ih =>
    obtain ⟨head, rest⟩ := List.append_eq_nil_iff.mp ((results_append s [e] es).symm.trans h)
    rw [List.foldl_cons, keep b e head, ih rest]

omit [DecidableEq ι] in
theorem lastPublished_append (h : results s es = []) (tr : List (Event ι σ κ)) :
    lastPublished s (tr ++ es) = lastPublished s tr := by
  rw [lastPublished, List.foldl_append, ← lastPublished]
  apply foldl_results _ h
  intro b e none
  cases e with
  | published s' data b' => simp [(results_other s).mp none]
  | _ => rfl

omit [DecidableEq ι] in
theorem newestImage_append (h : results s es = []) (tr : List (Event ι σ κ)) :
    newestImage image s (tr ++ es) = newestImage image s tr := by
  rw [newestImage, List.foldl_append, ← newestImage]
  apply foldl_results _ h
  intro image e none
  cases e with
  | published s' data b' => simp [(results_other s).mp none]
  | _ => rfl

/-! ## One call -/

/-- The steps taken while a call for snapshot `s` is under way. -/
def calling (ι : Type*) (κ : Type*) [DecidableEq ι] (s : σ) :
    Machine (World ι σ κ) (Choice ι σ) (Event ι σ κ) :=
  (machine ι σ κ).restrict fun w _ => (w.publisher s).busy

/-- The call that began in `start` loaded the state word in `l`, after the
events `pre`, and has got to `w`. -/
structure LoadedAt (s : σ) (data : Nat → BitVec 8) (start : World ι σ κ)
    (during : List (Event ι σ κ)) (w : World ι σ κ) (pre : List (Event ι σ κ))
    (l : World ι σ κ) : Prop where
  before : (calling ι κ s).Run start pre l
  position : l.publisher s = .load data
  after : ∃ spurious es l' post, (machine ι σ κ).step l (.publisher s spurious) = some (l', es) ∧
    (calling ι κ s).Run l' post w ∧ during = pre ++ es ++ post

/-- No latch of buffer `b` of snapshot `s` is outstanding after `tr`. -/
def Unread (s : σ) (b : Bool) (tr : List (Event ι σ κ)) : Prop := acquires s b tr = releases s b tr

/-- How far the call has got that began in `start` after the trace `tr`. -/
inductive Stage (s : σ) (data : Nat → BitVec 8) (tr : List (Event ι σ κ)) (start : World ι σ κ)
    (during : List (Event ι σ κ)) (w : World ι σ κ) : Prop
  | waiting (run : (calling ι κ s).Run start during w) (position : w.publisher s = .load data)
    (heap : ∃ state, w.heap s = { start.heap s with state }) (quiet : results s during = [])
  | copying (pre : List (Event ι σ κ)) (l : World ι σ κ) (loaded : LoadedAt s data start during w pre l)
    (unread : Unread s (!Snapshot.activeIndex (l.heap s).state) (tr ++ pre)) (quiet : results s during = [])
    (position : (∃ state b index, w.publisher s = .copy data state b index) ∨
      ∃ state b, w.publisher s = .exchange data state b)
    (kept : (w.heap s).buffers (lastPublished s tr) = (start.heap s).buffers (lastPublished s tr))
    (count : (w.heap s).publishRejectedCount = (start.heap s).publishRejectedCount)
  | published (pre : List (Event ι σ κ)) (l : World ι σ κ)
    (loaded : LoadedAt s data start during w pre l)
    (unread : Unread s (!Snapshot.activeIndex (l.heap s).state) (tr ++ pre)) (result : results s during = [true])
    (position : w.publisher s = .idle)
    (kept : (w.heap s).buffers (lastPublished s tr) = (start.heap s).buffers (lastPublished s tr))
    (installed : ∀ k < (w.heap s).length.toNat,
      ((w.heap s).buffers (!lastPublished s tr)).bytes k = data k)
    (active : lastPublished s (tr ++ during) = !lastPublished s tr)
    (count : (w.heap s).publishRejectedCount = (start.heap s).publishRejectedCount)
  | refused (pre : List (Event ι σ κ)) (l : World ι σ κ)
    (loaded : LoadedAt s data start during w pre l)
    (read : ¬ Unread s (!Snapshot.activeIndex (l.heap s).state) (tr ++ pre)) (result : results s during = [false])
    (position : w.publisher s = .idle)
    (heap : w.heap s = { start.heap s with
      state := (l.heap s).state
      publishRejectedCount := (start.heap s).publishRejectedCount + 1 })
    (active : lastPublished s (tr ++ during) = lastPublished s tr)

variable {start l : World ι σ κ} {pre : List (Event ι σ κ)} {choice : Choice ι σ}

theorem LoadedAt.next (h : LoadedAt s data start during w pre l)
    (step : (calling ι κ s).step w choice = some (w', es)) :
    LoadedAt s data start (during ++ es) w' pre l := by
  obtain ⟨spurious, fs, l', post, load, run, rfl⟩ := h.after
  exact ⟨h.before, h.position, spurious, fs, l', post ++ es, load, run.next step, by simp⟩

theorem Stage.bystander (h : Stage s data tr start during w) (busy : (w.publisher s).busy = true)
    (step : (calling ι κ s).step w choice = some (w', es)) (frame : Bystander s w es w') :
    Stage s data tr start (during ++ es) w' := by
  obtain ⟨⟨state, heap⟩, publisher, none⟩ := frame
  cases h with
  | waiting run position before quiet =>
    obtain ⟨word, before⟩ := before
    refine .waiting (run.next step) (by rw [publisher, position]) ⟨state, ?_⟩ (by simp [quiet, none])
    rw [heap, before]
  | copying pre l loaded unread quiet position kept count =>
    refine .copying pre l (loaded.next step) unread (by simp [quiet, none]) ?_ ?_ ?_
    · rwa [publisher]
    · rwa [heap]
    · rwa [heap]
  | published _ _ _ _ _ position | refused _ _ _ _ _ position =>
    rw [position] at busy
    cases busy

/-- The count the publisher sees is of the latches that are outstanding. -/
theorem Reached.unread_iff (h : Reached tables lengths s image tr w g) :
    Snapshot.readerCount (w.heap s).state (!Snapshot.activeIndex (w.heap s).state) = 0 ↔
      Unread s (!Snapshot.activeIndex (w.heap s).state) tr := by
  have counts := h.counts (!g.active)
  have seen := Snapshot.pack_readerCount false g.active (!g.active) h.inv.fit
  rw [h.inv.word, Snapshot.pack_activeIndex h.inv.fit, ← BitVec.toNat_inj, seen, Unread]
  change g.readers _ = 0 ↔ _
  omega

theorem Stage.load (h : Stage s data tr start during w)
    (reached : Reached tables lengths s image (tr ++ during) w g) {data' : Nat → BitVec 8}
    (position : w.publisher s = .load data') {spurious : Bool}
    (step : (machine ι σ κ).step w (.publisher s spurious) = some (w', es)) :
    Stage s data tr start (during ++ es) w' := by
  cases h with
  | waiting run position' heap quiet =>
    obtain ⟨state, heap⟩ := heap
    obtain rfl : data' = data := by simpa [position] using position'
    have unread := reached.unread_iff
    have loaded : LoadedAt s data' start (during ++ es) w' during w :=
      ⟨run, position, spurious, es, w', [], step, .start, by simp⟩
    simp only [machine, Publisher.step, position] at step
    split at step
    · rename_i held
      cases step
      refine .refused during w loaded (fun free => held (unread.mpr free)) ?_ ?_ ?_ ?_
      · simp [quiet]
      · simp
      · simp [Snapshot.notePublishRejected, heap]
      · rw [← List.append_assoc, lastPublished, List.foldl_append]
        exact lastPublished_append quiet tr
    · rename_i free
      cases step
      refine .copying during w loaded (unread.mp (not_not.mp free)) (by simp [quiet]) ?_ ?_ ?_
      · simp only [World.setPublisher_self, copyLoop]
        split
        · exact .inl ⟨_, _, _, rfl⟩
        · exact .inr ⟨_, _, rfl⟩
      · rw [World.setPublisher_heap, heap]
      · rw [World.setPublisher_heap, heap]
  | copying _ _ _ _ _ position' =>
    rcases position' with ⟨_, _, _, position'⟩ | ⟨_, _, position'⟩ <;> simp [position] at position'
  | published _ _ _ _ _ position' | refused _ _ _ _ _ position' => simp [position] at position'

omit [DecidableEq ι] [DecidableEq σ] in
/-- The test in the compare-exchange loop never refuses: only the publisher
changes the active buffer. -/
theorem Inv.exchanging (h : Inv tables lengths s w g) {state : BitVec 32} {inactiveIndex : Bool}
    (position : w.publisher s = .exchange data state inactiveIndex) :
    (!Snapshot.activeIndex (w.heap s).state) = inactiveIndex := by
  have sane := h.publisher
  rw [position] at sane
  rw [h.word, Snapshot.pack_activeIndex h.fit]
  exact sane.1.symm

theorem Stage.proceed (h : Stage s data tr start during w)
    (reached : Reached tables lengths s image (tr ++ during) w g)
    (position : (∃ data' state b index, w.publisher s = .copy data' state b index) ∨
      ∃ data' state b, w.publisher s = .exchange data' state b) {spurious : Bool}
    (step : (machine ι σ κ).step w (.publisher s spurious) = some (w', es)) :
    Stage s data tr start (during ++ es) w' := by
  have sane := reached.inv.publisher
  cases h with
  | copying pre l loaded unread quiet position' kept count =>
    have active : g.active = lastPublished s tr := by
      rw [reached.active, lastPublished_append quiet]
    have next : LoadedAt s data start (during ++ es) w' pre l := by
      have step' : (calling ι κ s).step w (.publisher s spurious) = some (w', es) := by
        rcases position' with ⟨_, _, _, at'⟩ | ⟨_, _, at'⟩ <;>
          simpa [calling, Machine.restrict, at', Publisher.busy] using step
      exact loaded.next step'
    rcases position' with ⟨state, b, index, at'⟩ | ⟨state, b, at'⟩
    · rw [at'] at sane
      obtain ⟨rfl, -⟩ := sane
      simp only [machine, Publisher.step, at'] at step
      cases step
      refine .copying pre l next unread (by simp [quiet]) ?_ ?_ ?_
      · simp only [World.setPublisher_self, copyLoop]
        split
        · exact .inl ⟨_, _, _, rfl⟩
        · exact .inr ⟨_, _, rfl⟩
      · simpa [Snapshot.setByte, ← active] using kept
      · simpa [Snapshot.setByte] using count
    · have unreachable := reached.inv.exchanging at'
      rw [at'] at sane
      obtain ⟨rfl, -, -, copied⟩ := sane
      simp only [machine, Publisher.step, at', unreachable, ne_eq, not_true, if_false] at step
      split at step <;> cases step
      · refine .published pre l next unread (by simp [quiet]) (by simp) ?_ ?_ ?_ ?_
        · simpa using kept
        · simpa [← active] using copied
        · rw [← List.append_assoc, lastPublished, List.foldl_append]
          simp [← active]
        · simpa using count
      · refine .copying pre l next unread (by simp [quiet]) ?_ kept count
        exact .inr ⟨_, _, World.setPublisher_self ..⟩
  | waiting _ position' =>
    rcases position with ⟨_, _, _, _, at'⟩ | ⟨_, _, _, at'⟩ <;> simp [position'] at at'
  | published _ _ _ _ _ position' | refused _ _ _ _ _ position' =>
    rcases position with ⟨_, _, _, _, at'⟩ | ⟨_, _, _, at'⟩ <;> simp [position'] at at'

theorem Stage.next (h : Stage s data tr start during w)
    (reached : Reached tables lengths s image (tr ++ during) w g)
    (step : (calling ι κ s).step w choice = some (w', es)) :
    Stage s data tr start (during ++ es) w' := by
  obtain ⟨busy, access⟩ := Machine.restrict_step step
  by_cases own : ∃ spurious, choice = .publisher s spurious
  · obtain ⟨spurious, rfl⟩ := own
    cases position : w.publisher s with
    | idle =>
      rw [position] at busy
      cases busy
    | load data' => exact h.load reached position access
    | copy data' state b index => exact h.proceed reached (.inl ⟨_, _, _, _, position⟩) access
    | exchange data' state b => exact h.proceed reached (.inr ⟨_, _, _, position⟩) access
  · exact h.bystander busy step (step_bystander busy access fun spurious h => own ⟨spurious, h⟩)

theorem run_stage (h : Reached tables lengths s image tr start g)
    (position : start.publisher s = .load data) (run : (calling ι κ s).Run start during w) :
    Stage s data tr start during w ∧ ∃ g, Reached tables lengths s image (tr ++ during) w g := by
  refine Machine.Run.invariant (P := fun during w => Stage s data tr start during w ∧
    ∃ g, Reached tables lengths s image (tr ++ during) w g) ?_ ?_ run
  · exact ⟨.waiting .start position ⟨_, rfl⟩ rfl, g, by simpa using h⟩
  · rintro during w choice es w' ⟨stage, g, reached⟩ step
    obtain ⟨g', -, reached'⟩ := reached.next (Machine.restrict_step step).2
    exact ⟨stage.next reached step, g', by simpa using reached'⟩

/-! ## One access -/

/-- The image that a call under way publishes. -/
def Publisher.carries : Publisher → Option (Nat → BitVec 8)
  | .idle => none
  | .load data | .copy data _ _ _ | .exchange data _ _ => some data

omit [DecidableEq σ] in
theorem copyLoop_carries (snapshot : Snapshot) (data : Nat → BitVec 8) (state : BitVec 32)
    (b : Bool) (index : Nat) : (copyLoop snapshot data state b index).carries = some data := by
  unfold copyLoop
  split <;> rfl

omit [DecidableEq σ] in
theorem carries_eq_none {publisher : Publisher} : publisher.carries = none ↔ publisher = .idle := by
  cases publisher <;> simp [Publisher.carries]

omit [DecidableEq σ] in
theorem carries_busy {publisher : Publisher} (h : publisher.carries = some data) :
    publisher.busy = true := by
  cases publisher with
  | idle => simp [Publisher.carries] at h
  | _ => rfl

/-- What an access of a call that publishes `data` comes to. -/
inductive Progress (s : σ) (data : Nat → BitVec 8) (w : World ι σ κ) :
    List (Event ι σ κ) → World ι σ κ → Prop
  | goesOn (w' : World ι σ κ) (carries : (w'.publisher s).carries = some data)
    (count : (w'.heap s).publishRejectedCount = (w.heap s).publishRejectedCount) :
    Progress s data w [] w'
  | published (w' : World ι σ κ) (b : Bool) (position : w'.publisher s = .idle)
    (count : (w'.heap s).publishRejectedCount = (w.heap s).publishRejectedCount) :
    Progress s data w [.published s data b] w'
  | refused (w' : World ι σ κ) (position : w'.publisher s = .idle)
    (count : (w'.heap s).publishRejectedCount = (w.heap s).publishRejectedCount + 1) :
    Progress s data w [.publishRejected s] w'

omit [DecidableEq ι] in
theorem reject_progress (s : σ) (data : Nat → BitVec 8) (w : World ι σ κ) :
    Progress s data w (w.reject s).2 (w.reject s).1 := by
  apply Progress.refused
  · exact World.setPublisher_self ..
  · simp [World.reject, Snapshot.notePublishRejected]

omit [DecidableEq ι] in
theorem publisher_progress {spurious : Bool} (carries : (w.publisher s).carries = some data)
    (step : Publisher.step w s spurious = some (w', es)) : Progress s data w es w' := by
  cases Publisher.step_moves step with
  | refused | turned => exact reject_progress s data w
  | loaded data' position =>
    obtain rfl : data' = data := by simpa [position, Publisher.carries] using carries
    apply Progress.goesOn
    · simp [copyLoop_carries]
    · rfl
  | copied data' state b index position =>
    obtain rfl : data' = data := by simpa [position, Publisher.carries] using carries
    apply Progress.goesOn
    · simp [copyLoop_carries]
    · simp [Snapshot.setByte]
  | published data' b position =>
    obtain rfl : data' = data := by simpa [position, Publisher.carries] using carries
    apply Progress.published
    · exact World.setPublisher_self ..
    · simp
  | retried data' state b position =>
    obtain rfl : data' = data := by simpa [position, Publisher.carries] using carries
    apply Progress.goesOn
    · simp [Publisher.carries]
    · rfl

/-! ## The arguments -/

/-- What makes a snapshot valid: the state word cannot make it invalid. -/
theorem Snapshot.isValid_iff (snapshot : Snapshot) : Snapshot.isValid (some snapshot) = true ↔
    (∀ b, (snapshot.buffers b).present = true) ∧ snapshot.length ≠ 0 := by
  have bit : snapshot.state &&& 1#32 ≤ 1#32 := by
    rw [BitVec.le_def, BitVec.toNat_and]
    exact Nat.and_le_right
  simp [Snapshot.isValid, bit, and_assoc]

theorem step_valid (step : (machine ι σ κ).step w choice = some (w', es))
    (valid : Snapshot.isValid (some (w.heap s)) = true) :
    Snapshot.isValid (some (w'.heap s)) = true := by
  rw [Snapshot.isValid_iff] at valid ⊢
  have frame (h : Bystander s w es w') : (∀ b, ((w'.heap s).buffers b).present = true) ∧
      (w'.heap s).length ≠ 0 := by
    obtain ⟨state, heap⟩ := h.heap
    rwa [heap]
  cases choice with
  | call i c =>
    simp only [machine] at step
    split at step <;> cases step
    exact valid
  | reader i spurious => exact frame (reader_bystander step)
  | publish s' data length =>
    simp only [machine] at step
    split at step <;> cases step
    exact valid
  | publisher s' spurious =>
    by_cases hs : s' = s
    · subst hs
      simp only [machine] at step
      cases Publisher.step_moves step with
      | refused | turned => simpa [World.reject, Snapshot.notePublishRejected] using valid
      | loaded | retried => exact valid
      | copied data state b index =>
        refine ⟨fun c => ?_, by simpa [Snapshot.setByte] using valid.2⟩
        by_cases hc : c = b
        · subst hc
          simpa [Snapshot.setByte] using valid.1 c
        · simpa [Snapshot.setByte, hc] using valid.1 c
      | published => simpa using valid
    · exact frame (publisher_bystander hs step)

theorem run_valid (h : Initial w₀ s image) (run : (machine ι σ κ).Run w₀ tr w) :
    Snapshot.isValid (some (w.heap s)) = true := by
  refine Machine.Run.invariant (P := fun _ w => Snapshot.isValid (some (w.heap s)) = true) ?_ ?_ run
  · obtain ⟨given, zero, one, length, data, accepted, -⟩ := h.snapshot
    simp only [Snapshot.init] at accepted
    split at accepted
    · split at accepted
      · cases accepted
      · rename_i nonempty
        rw [Snapshot.isValid_iff, ← Option.some.inj accepted]
        exact ⟨fun _ => rfl, nonempty⟩
    · cases accepted
  · intro tr w choice es w' valid step
    exact step_valid step valid

/-! ## Undisturbed -/

/-- At most `n` accesses of its own end the call, if nothing disturbs it. -/
def Ends (s : σ) (w : World ι σ κ) (n : Nat) : Prop :=
  ∃ m ≤ n, ∃ w' es, (machine ι σ κ).exec w (List.replicate m (.publisher s false)) = some (w', es) ∧
    w'.publisher s = .idle

theorem Ends.idle (position : w.publisher s = .idle) (n : Nat) : Ends s w n :=
  ⟨0, Nat.zero_le n, w, [], rfl, position⟩

theorem Ends.step {n : Nat} (step : Publisher.step w s false = some (w', es)) (h : Ends s w' n) :
    Ends s w (n + 1) := by
  obtain ⟨m, bound, w'', fs, run, position⟩ := h
  have access : (machine ι σ κ).step w (.publisher s false) = some (w', es) := step
  exact ⟨m + 1, by omega, w'', es ++ fs, Machine.exec_cons access run, position⟩

theorem ends_exchange {state : BitVec 32} {b : Bool}
    (position : w.publisher s = .exchange data state b) : Ends s w 2 := by
  have done (u : World ι σ κ) (n : Nat) : Ends s (u.setPublisher s .idle) n :=
    .idle (World.setPublisher_self ..) n
  by_cases same : (w.heap s).state = state
  · have step : Publisher.step w s false =
        some ((w.setState s (state ^^^ 0x00000001)).setPublisher s .idle, [.published s data b]) := by
      simp [Publisher.step, position, same]
    exact .step step (done _ 1)
  · by_cases turned : (!Snapshot.activeIndex (w.heap s).state) = b
    · -- the second compare-exchange expects the word that the first one saw
      have step : Publisher.step w s false =
          some (w.setPublisher s (.exchange data (w.heap s).state b), []) := by
        simp [Publisher.step, position, same, turned]
      have again : Publisher.step (w.setPublisher s (.exchange data (w.heap s).state b)) s false =
          some (((w.setPublisher s (.exchange data (w.heap s).state b)).setState s
            ((w.heap s).state ^^^ 0x00000001)).setPublisher s .idle, [.published s data b]) := by
        simp [Publisher.step]
      exact .step step (.step again (done _ 0))
    · have step : Publisher.step w s false = some (w.reject s) := by
        simp [Publisher.step, position, same, turned]
      exact .step step (done _ 1)

omit [DecidableEq ι] in
theorem copy_step {state : BitVec 32} {b : Bool} {index : Nat}
    (position : w.publisher s = .copy data state b index) :
    ∃ w', Publisher.step w s false = some (w', []) ∧ (w'.heap s).length = (w.heap s).length ∧
      w'.publisher s = copyLoop (w'.heap s) data state b (index + 1) := by
  refine ⟨(w.store s ((w.heap s).setByte b index (data index))).setPublisher s
    (copyLoop (w.heap s) data state b (index + 1)), ?_, ?_, ?_⟩
  · simp [Publisher.step, position]
  · simp [Snapshot.setByte]
  · simp [copyLoop, Snapshot.setByte]

theorem ends_copyLoop {state : BitVec 32} {b : Bool} {index : Nat}
    (position : w.publisher s = copyLoop (w.heap s) data state b index) :
    Ends s w ((w.heap s).length.toNat - index + 2) := by
  generalize left : (w.heap s).length.toNat - index = n
  induction n generalizing w index with
  | zero =>
    have finished : ¬ index < (w.heap s).length.toNat := by omega
    rw [copyLoop, if_neg finished] at position
    exact ends_exchange position
  | succ n ih =>
    have unfinished : index < (w.heap s).length.toNat := by omega
    rw [copyLoop, if_pos unfinished] at position
    obtain ⟨w', step, length, position'⟩ := copy_step position
    rw [← length] at left
    exact .step step (ih position' (by omega))

/-- Only interference can keep a publish from returning. -/
theorem publisher_ends (w : World ι σ κ) (s : σ) : Ends s w ((w.heap s).length.toNat + 3) := by
  cases position : w.publisher s with
  | idle => exact .idle position _
  | load data =>
    by_cases unread :
        Snapshot.readerCount (w.heap s).state (!Snapshot.activeIndex (w.heap s).state) = 0#32
    · have step : Publisher.step w s false = some (w.setPublisher s (copyLoop (w.heap s) data
          (w.heap s).state (!Snapshot.activeIndex (w.heap s).state) 0), []) := by
        simp [Publisher.step, position, unread]
      have copying : Ends s (w.setPublisher s (copyLoop (w.heap s) data (w.heap s).state
          (!Snapshot.activeIndex (w.heap s).state) 0)) ((w.heap s).length.toNat - 0 + 2) :=
        ends_copyLoop (World.setPublisher_self ..)
      exact .step step copying
    · have step : Publisher.step w s false = some (w.reject s) := by
        simp [Publisher.step, position, unread]
      exact .step step (.idle (World.setPublisher_self ..) _)
  | copy data state b index =>
    obtain ⟨w', step, length, position'⟩ := copy_step position
    obtain ⟨m, bound, rest⟩ := Ends.step step (ends_copyLoop position')
    rw [length] at bound
    exact ⟨m, by omega, rest⟩
  | exchange data state b =>
    obtain ⟨m, bound, rest⟩ := ends_exchange position
    exact ⟨m, by omega, rest⟩

/-! ## The calls -/

/-- What a call begun in `start`, after the trace `tr`, has done when it returns
`result` in `w`. -/
structure Returned (s : σ) (data : Nat → BitVec 8) (tr : List (Event ι σ κ)) (start : World ι σ κ)
    (during : List (Event ι σ κ)) (w : World ι σ κ) (result : Bool) : Prop where
  /-- It succeeds just if nobody reads the inactive buffer when it loads the
  state word, and a refused call returns with the word that it loaded. -/
  decided : ∃ pre l, LoadedAt s data start during w pre l ∧
    (result = true ↔ Unread s (!Snapshot.activeIndex (l.heap s).state) (tr ++ pre)) ∧
    (result = false → (w.heap s).state = (l.heap s).state)
  installed : result = true →
    Snapshot.activeIndex (w.heap s).state = !Snapshot.activeIndex (start.heap s).state ∧
    (∀ k < (start.heap s).length.toNat,
      ((w.heap s).buffers (Snapshot.activeIndex (w.heap s).state)).bytes k = data k) ∧
    (w.heap s).buffers (Snapshot.activeIndex (start.heap s).state) =
      (start.heap s).buffers (Snapshot.activeIndex (start.heap s).state) ∧
    (w.heap s).publishRejectedCount = (start.heap s).publishRejectedCount
  refused : result = false →
    Snapshot.activeIndex (w.heap s).state = Snapshot.activeIndex (start.heap s).state ∧
    (w.heap s).buffers = (start.heap s).buffers ∧
    (w.heap s).publishRejectedCount = (start.heap s).publishRejectedCount + 1
  /-- The reader counts are the register maps' alone. -/
  readers : ∀ b, (Snapshot.readerCount (w.heap s).state b).toNat + releases s b during =
    (Snapshot.readerCount (start.heap s).state b).toNat + acquires s b during

/-- What a call of `lib_regmap_snapshot_publish` can do to snapshot `s` in a
state `w` that a run with trace `tr` reached. -/
structure AllOrNothing (s : σ) (tr : List (Event ι σ κ)) (w : World ι σ κ) : Prop where
  /-- Invalid arguments change nothing. -/
  invalid : ∀ data length start es during w', data = none ∨ length ≠ (w.heap s).length →
    (machine ι σ κ).step w (.publish s data length) = some (start, es) →
    (calling ι κ s).Run start during w' → w' = w ∧ es = [] ∧ during = []
  valid : ∀ data start es during w',
    (machine ι σ κ).step w (.publish s (some data) (w.heap s).length) = some (start, es) →
    (calling ι κ s).Run start during w' → w'.publisher s = .idle →
    start.heap = w.heap ∧ ∃ result, results s during = [result] ∧
      Returned s data tr start during w' result
  /-- Undisturbed, a call returns. -/
  ends : Ends s w ((w.heap s).length.toNat + 3)
  /-- The refusal in the compare-exchange loop is never taken. -/
  unreachable : ∀ data state inactiveIndex, w.publisher s = .exchange data state inactiveIndex →
    (!Snapshot.activeIndex state) = inactiveIndex ∧
    (!Snapshot.activeIndex (w.heap s).state) = inactiveIndex

theorem Stage.returned (h : Stage s data tr start during w) (position : w.publisher s = .idle)
    (before : Reached tables lengths s image tr start g)
    (after : ∃ g, Reached tables lengths s image (tr ++ during) w g) :
    ∃ result, results s during = [result] ∧ Returned s data tr start during w result := by
  obtain ⟨g', after⟩ := after
  have active : Snapshot.activeIndex (start.heap s).state = lastPublished s tr := by
    rw [before.inv.word, Snapshot.pack_activeIndex before.inv.fit, before.active]
  have active' : Snapshot.activeIndex (w.heap s).state = lastPublished s (tr ++ during) := by
    rw [after.inv.word, Snapshot.pack_activeIndex after.inv.fit, after.active]
  have readers : ∀ b, (Snapshot.readerCount (w.heap s).state b).toNat + releases s b during =
      (Snapshot.readerCount (start.heap s).state b).toNat + acquires s b during := by
    intro b
    have old := before.counts b
    have new := after.counts b
    rw [after.inv.word, before.inv.word, Snapshot.pack_readerCount false g'.active b after.inv.fit,
      Snapshot.pack_readerCount false g.active b before.inv.fit]
    simp only [releases, acquires, List.countP_append] at old new ⊢
    change g'.readers b + _ = g.readers b + _
    omega
  cases h with
  | waiting _ position' => simp [position] at position'
  | copying _ _ _ _ _ position' =>
    rcases position' with ⟨_, _, _, position'⟩ | ⟨_, _, position'⟩ <;> simp [position] at position'
  | published pre l loaded unread result _ kept installed flipped count =>
    refine ⟨true, result, ⟨pre, l, loaded, by simp [unread], by simp⟩, ?_, by simp, readers⟩
    intro _
    refine ⟨by rw [active', active, flipped], ?_, by rw [active, kept], count⟩
    rw [active', flipped]
    rwa [before.inv.length, ← after.inv.length]
  | refused pre l loaded read result _ heap same =>
    refine ⟨false, result, ⟨pre, l, loaded, by simp [read], by simp [heap]⟩, by simp, ?_, readers⟩
    intro _
    exact ⟨by rw [active', active, same], by rw [heap], by rw [heap]⟩

/-- **Publish is all-or-nothing.** Whatever register maps do in between, a call
either installs its data or leaves the snapshot as it was, and refuses just if
the buffer it would write is being read. -/
theorem publish_decides (h : Initial w₀ s image) (run : (machine ι σ κ).Run w₀ tr w) :
    AllOrNothing s tr w := by
  obtain ⟨g, reached⟩ := run_reached h run
  refine ⟨?_, ?_, publisher_ends w s, ?_⟩
  · intro data length start es during w' bad step rest
    simp only [machine] at step
    split at step
    · rename_i position
      have refusal : (w.heap s).acceptsPublish data length = none := by
        rcases bad with rfl | other
        · simp [Snapshot.acceptsPublish]
        · simp [Snapshot.acceptsPublish, other]
      have unchanged : w.setPublisher s .idle = w := by
        rw [World.setPublisher, ← position, Function.update_eq_self]
      simp only [Publisher.call, refusal, unchanged, Option.some.injEq, Prod.mk.injEq] at step
      obtain ⟨rfl, rfl⟩ := step
      have stuck : during = [] ∧ w' = w := by
        refine Machine.Run.invariant (P := fun tr u => tr = [] ∧ u = w) ⟨rfl, rfl⟩ ?_ rest
        rintro _ _ choice es u ⟨-, rfl⟩ step
        have busy := (Machine.restrict_step step).1
        rw [position] at busy
        cases busy
      exact ⟨stuck.2, rfl, stuck.1⟩
    · cases step
  · intro data start es during w' step rest position
    have valid := run_valid h run
    have called : start.heap = w.heap ∧ start.publisher s = .load data ∧ es = [] := by
      simp only [machine] at step
      split at step <;> cases step
      exact ⟨rfl, by simp [Publisher.call, Snapshot.acceptsPublish, valid], rfl⟩
    obtain ⟨heap, loading, rfl⟩ := called
    obtain ⟨g', -, before⟩ := reached.next step
    rw [List.append_nil] at before
    obtain ⟨stage, after⟩ := run_stage before loading rest
    exact ⟨heap, stage.returned position before after⟩
  · intro data state inactiveIndex position
    have sane := reached.inv.publisher
    rw [position] at sane
    refine ⟨?_, reached.inv.exchanging position⟩
    rw [sane.2.2.1, sane.1]

/-- A latch taken during the first publish does not stop it, but keeps the
second one from overwriting the buffer it holds; the third one gets through. -/
theorem publish_decides_held :
    ∃ w tr, (machine Bool Unit Unit).Run twoReaders tr w ∧ results () tr = [true, false, true] ∧
      AllOrNothing () tr w := by
  obtain ⟨w, tr, run, returned⟩ := Machine.exec_shows (machine Bool Unit Unit) twoReaders
    [.publish () (some fun _ => 0x20) 2, .publisher () false, .publisher () false,
      .call false .readCurrent, .reader false false, .reader false false,
      .publisher () false, .publisher () false, .publisher () false,
      .publish () (some fun _ => 0x30) 2, .publisher () false,
      .reader false false, .call false .endRead, .reader false false,
      .publish () (some fun _ => 0x30) 2, .publisher () false, .publisher () false,
      .publisher () false, .publisher () false]
    (fun reached => results () reached.2) [true, false, true] (by decide +kernel)
  exact ⟨w, tr, run, returned, publish_decides twoReaders_initial run⟩

end MspmBaremetal.Regmap
