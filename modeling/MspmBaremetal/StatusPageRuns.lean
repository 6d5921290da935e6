import MspmBaremetal.StatusPage

/-!
# What the status page shows

Any number of passes of `i2c_regmap_demo_publish_status`, with the interrupt
handler anywhere in between. `Inv` says what the page shows wherever a pass
stands, and `status_page_current` what every pass leaves behind.
-/

namespace MspmBaremetal.RegmapDemo

open Regmap (newestImage results)

/-! ## The bytes of the page -/

/-- What the stores left is read back. -/
@[simp] theorem parseStatus_statusBytes (status : Counts) :
    parseStatus (statusBytes status) = status := by
  have errors : Crash.readU32Be (statusBytes status) 0 = status.errorCount := by
    simp only [statusBytes, writeU32Be]
    rw [Crash.readU32Be_frame _ _ (by decide), Crash.readU32Be_frame _ _ (by decide),
      Crash.readU32Be_writeU32Be]
  have rejected : Crash.readU32Be (statusBytes status) 4 = status.publishRejectedCount := by
    simp only [statusBytes, writeU32Be]
    rw [Crash.readU32Be_frame _ _ (by decide), Crash.readU32Be_writeU32Be]
  have unexpected : Crash.readU32Be (statusBytes status) 8 = status.unexpectedEventCount := by
    simp only [statusBytes, writeU32Be]
    rw [Crash.readU32Be_writeU32Be]
  simp only [parseStatus, errors, rejected, unexpected]

theorem parseStatus_congr {bytes bytes' : Nat → BitVec 8}
    (h : ∀ k < statusSize.toNat, bytes k = bytes' k) : parseStatus bytes = parseStatus bytes' := by
  have word (offset : Nat) (inside : offset + 4 ≤ 12) :
      Crash.readU32Be bytes offset = Crash.readU32Be bytes' offset := by
    apply Crash.readU32Be_congr
    intro k low high
    apply h
    change k < 12
    omega
  simp only [parseStatus, word 0 (by decide), word 4 (by decide), word 8 (by decide)]

/-! ## What a trace says -/

variable {ι : Type*}

/-- What happened to the snapshots. -/
def regmapEvents (tr : List (Event ι)) : List (Regmap.Event ι PageName Empty) :=
  tr.filterMap fun | .regmap e => some e | _ => none

/-- How the passes ended, and what they had sampled. -/
def outcomes (tr : List (Event ι)) : List (Outcome × Counts) :=
  tr.filterMap fun | .returned outcome sampled => some (outcome, sampled) | _ => none

/-- The publishes that were refused. -/
def refusals (tr : List (Event ι)) : Nat := (outcomes tr).countP fun o => o.1 = .refused

/-- What the page last got. -/
def newestStatus (tr : List (Event ι)) : Counts :=
  parseStatus (newestImage (fun _ => 0) .status (regmapEvents tr))

section

variable (tr tr' : List (Event ι)) (es : List (Regmap.Event ι PageName Empty))

@[simp] theorem regmapEvents_append :
    regmapEvents (tr ++ tr') = regmapEvents tr ++ regmapEvents tr' := List.filterMap_append ..

@[simp] theorem regmapEvents_map : regmapEvents (es.map (.regmap : _ → Event ι)) = es := by
  simp [regmapEvents, List.filterMap_map]

@[simp] theorem regmapEvents_returned (outcome : Outcome) (sampled : Counts) :
    regmapEvents [(.returned outcome sampled : Event ι)] = [] := rfl

@[simp] theorem outcomes_append : outcomes (tr ++ tr') = outcomes tr ++ outcomes tr' :=
  List.filterMap_append ..

@[simp] theorem outcomes_map : outcomes (es.map (.regmap : _ → Event ι)) = [] := by
  simp [outcomes, List.filterMap_map]

@[simp] theorem outcomes_returned (outcome : Outcome) (sampled : Counts) :
    outcomes [(.returned outcome sampled : Event ι)] = [(outcome, sampled)] := rfl

theorem refusals_append : refusals (tr ++ tr') = refusals tr + refusals tr' := by
  simp [refusals]

theorem newestStatus_append (h : results .status (regmapEvents tr') = []) :
    newestStatus (tr ++ tr') = newestStatus tr := by
  rw [newestStatus, regmapEvents_append, Regmap.newestImage_append h, ← newestStatus]

end

/-! ## What a step comes to -/

variable {s s' s₀ : System ι} {tr es : List (Event ι)}

/-- The image that the publish of a pass carries. -/
def Pass.carries : Pass → Option (Nat → BitVec 8)
  | .publishing status => some (statusBytes status)
  | _ => none

/-- What an access of the pass comes to. -/
inductive PassStep (s : System ι) : List (Event ι) → System ι → Prop
  | began (position : s.pass = .idle) :
    PassStep s [] { s with pass := .publishRejectedCount s.targetErrorCount }
  | sampled (errorCount : BitVec 32) (position : s.pass = .publishRejectedCount errorCount) :
    PassStep s [] { s with pass := .unexpectedEventCount errorCount s.publishRejectedCount }
  | unchanged (errorCount publishRejectedCount : BitVec 32)
    (position : s.pass = .unexpectedEventCount errorCount publishRejectedCount)
    (published : s.statusPublished = true)
    (same : ⟨errorCount, publishRejectedCount, s.targetUnexpectedEventCount⟩ = s.statusLast) :
    PassStep s [.returned .unchanged s.statusLast] { s with pass := .idle }
  | changed (errorCount publishRejectedCount : BitVec 32)
    (position : s.pass = .unexpectedEventCount errorCount publishRejectedCount) :
    PassStep s [] { s with
      pass := .publish ⟨errorCount, publishRejectedCount, s.targetUnexpectedEventCount⟩ }
  | called (status : Counts) (position : s.pass = .publish status) (w : Regmap.World ι PageName Empty)
    (heap : w.heap = s.world.heap) (carries : (w.publisher .status).carries = some (statusBytes status)) :
    PassStep s [] { s with world := w, pass := .publishing status }
  | goesOn (status : Counts) (position : s.pass = .publishing status)
    (w : Regmap.World ι PageName Empty)
    (carries : (w.publisher .status).carries = some (statusBytes status))
    (count : (w.heap .status).publishRejectedCount = s.publishRejectedCount) :
    PassStep s [] { s with world := w }
  | installed (status : Counts) (position : s.pass = .publishing status)
    (w : Regmap.World ι PageName Empty) (b : Bool) (idle : w.publisher .status = .idle)
    (count : (w.heap .status).publishRejectedCount = s.publishRejectedCount) :
    PassStep s [.regmap (.published .status (statusBytes status) b)]
      { s with world := w, pass := .store status }
  | refused (status : Counts) (position : s.pass = .publishing status)
    (w : Regmap.World ι PageName Empty) (idle : w.publisher .status = .idle)
    (count : (w.heap .status).publishRejectedCount = s.publishRejectedCount + 1) :
    PassStep s [.regmap (.publishRejected .status), .returned .refused status]
      { s with world := w, pass := .idle }
  | published (status : Counts) (position : s.pass = .store status) :
    PassStep s [.returned .published status]
      { s with statusLast := status, statusPublished := true, pass := .idle }

/-- The interrupt handler leaves the pass and the page alone. -/
structure Aside (s : System ι) (es : List (Event ι)) (s' : System ι) : Prop where
  last : s'.statusLast = s.statusLast
  published : s'.statusPublished = s.statusPublished
  pass : s'.pass = s.pass
  count : s'.publishRejectedCount = s.publishRejectedCount
  publisher : s'.world.publisher .status = s.world.publisher .status
  results : results .status (regmapEvents es) = []
  outcomes : outcomes es = []

/-- What holds of the page and its counts after the trace `tr`, wherever the
pass stands. -/
structure Inv (tr : List (Event ι)) (s : System ι) : Prop where
  carries : (s.world.publisher .status).carries = s.pass.carries
  count : s.publishRejectedCount = BitVec.ofNat 32 (refusals tr)
  stored : ∀ status, s.pass = .store status → newestStatus tr = status
  shown : (∀ status, s.pass ≠ .store status) → s.statusPublished = true →
    newestStatus tr = s.statusLast

theorem Inv.aside (h : Inv tr s) (step : Aside s es s') : Inv (tr ++ es) s' where
  carries := by rw [step.publisher, step.pass, h.carries]
  count := by simpa [step.count, refusals, step.outcomes] using h.count
  stored := by simpa only [step.pass, newestStatus_append tr es step.results] using h.stored
  shown := by
    simpa only [step.pass, step.published, step.last, newestStatus_append tr es step.results]
      using h.shown

theorem newestStatus_published (tr : List (Event ι)) (status : Counts) (b : Bool) :
    newestStatus (tr ++ [.regmap (.published .status (statusBytes status) b)]) = status := by
  simp [newestStatus, regmapEvents, newestImage]

/-- Accesses of a pass that neither publish nor return. -/
theorem Inv.kept (h : Inv tr s) (results : results .status (regmapEvents es) = [])
    (refused : refusals es = 0) (carries : (s'.world.publisher .status).carries = s'.pass.carries)
    (count : s'.publishRejectedCount = s.publishRejectedCount)
    (before : ∀ status, s.pass ≠ .store status) (after : ∀ status, s'.pass ≠ .store status)
    (last : s'.statusLast = s.statusLast) (published : s'.statusPublished = s.statusPublished) :
    Inv (tr ++ es) s' where
  carries := carries
  count := by rw [count, h.count, refusals_append, refused, Nat.add_zero]
  stored status position := absurd position (after status)
  shown _ show_ := by
    rw [newestStatus_append tr es results, last]
    exact h.shown before (published ▸ show_)

theorem Inv.pass (h : Inv tr s) (step : PassStep s es s') : Inv (tr ++ es) s' := by
  have carries := h.carries
  cases step with
  | began position | sampled errorCount position | changed errorCount rejected position =>
    rw [position] at carries
    exact h.kept rfl rfl carries rfl (by simp [position]) (by simp) rfl rfl
  | unchanged errorCount rejected position =>
    rw [position] at carries
    exact h.kept rfl rfl carries rfl (by simp [position]) (by simp) rfl rfl
  | called status position w heap carries' =>
    exact h.kept rfl rfl carries' (by simp [System.publishRejectedCount, heap]) (by simp [position])
      (by simp) rfl rfl
  | goesOn status position w carries' count =>
    refine h.kept rfl rfl ?_ count (by simp [position]) (by simp [position]) rfl rfl
    rw [position]
    exact carries'
  | installed status position w b idle count =>
    refine ⟨?_, ?_, ?_, ?_⟩
    · rw [idle]
      rfl
    · change (w.heap .status).publishRejectedCount = _
      rw [count, h.count, refusals_append]
      rfl
    · intro status' position'
      rw [newestStatus_published]
      exact Pass.store.inj position'
    · intro other
      exact absurd rfl (other status)
  | refused status position w idle count =>
    have same : newestStatus (tr ++ [.regmap (.publishRejected .status), .returned .refused status]) =
        newestStatus tr := by
      simp [newestStatus, regmapEvents, newestImage]
    refine ⟨?_, ?_, ?_, ?_⟩
    · rw [idle]
      rfl
    · change (w.heap .status).publishRejectedCount = _
      rw [count, h.count, refusals_append, BitVec.ofNat_add]
      rfl
    · intro status' position'
      cases position'
    · intro _ published
      rw [same]
      exact h.shown (by simp [position]) published
  | published status position =>
    rw [position] at carries
    refine ⟨carries, ?_, ?_, ?_⟩
    · change s.publishRejectedCount = _
      rw [h.count, refusals_append]
      rfl
    · intro status' position'
      cases position'
    · intro _ _
      rw [newestStatus_append tr _ rfl]
      exact h.stored status position

/-! ## Every step -/

variable [DecidableEq ι] {choice : Choice ι}

/-- A step of the system is at most one access to the snapshots. -/
theorem world_step (step : (machine ι).step s choice = some (s', es)) :
    (s'.world = s.world ∧ regmapEvents es = []) ∨
    ∃ c, (Regmap.machine ι PageName Empty).step s.world c = some (s'.world, regmapEvents es) := by
  have access {c : Regmap.Choice ι PageName} (h : s.access c = some (s', es)) :
      (Regmap.machine ι PageName Empty).step s.world c = some (s'.world, regmapEvents es) := by
    obtain ⟨⟨w, fs⟩, move, next⟩ := Option.map_eq_some_iff.mp h
    cases next
    simpa using move
  have publish {status : Counts} {c : Regmap.Choice ι PageName}
      (h : s.publish status c = some (s', es)) :
      (Regmap.machine ι PageName Empty).step s.world c = some (s'.world, regmapEvents es) := by
    obtain ⟨⟨w, fs⟩, move, next⟩ := Option.map_eq_some_iff.mp h
    split at next
    · cases next
      simpa using move
    · split at next <;> cases next <;> simpa using move
  cases choice with
  | call i call => exact .inr ⟨_, access step⟩
  | reader i spurious => exact .inr ⟨_, access step⟩
  | error | unexpectedEvent =>
    cases step
    exact .inl ⟨rfl, rfl⟩
  | pass spurious =>
    simp only [machine, System.publishStatus] at step
    cases position : s.pass with
    | publish status =>
      rw [position] at step
      exact .inr ⟨_, publish step⟩
    | publishing status =>
      rw [position] at step
      exact .inr ⟨_, publish step⟩
    | unexpectedEventCount errorCount publishRejectedCount =>
      simp only [position] at step
      split at step <;> cases step <;> exact .inl ⟨rfl, rfl⟩
    | idle | publishRejectedCount | store =>
      simp only [position] at step
      cases step
      exact .inl ⟨rfl, rfl⟩

theorem run_world (run : (machine ι).Run s₀ tr s) :
    (Regmap.machine ι PageName Empty).Run s₀.world (regmapEvents tr) s.world := by
  induction run with
  | start => exact .start
  | next _ step ih =>
    rw [regmapEvents_append]
    rcases world_step step with ⟨same, none⟩ | ⟨c, move⟩
    · rw [same, none, List.append_nil]
      exact ih
    · exact ih.next move

/-- The arguments of the pass's publish are valid. -/
structure Ready (s : System ι) : Prop where
  valid : Snapshot.isValid (some (s.world.heap .status)) = true
  length : (s.world.heap .status).length = statusSize
  carries : (s.world.publisher .status).carries = s.pass.carries

theorem pass_step (ready : Ready s) {spurious : Bool}
    (step : s.publishStatus spurious = some (s', es)) : PassStep s es s' := by
  have carries := ready.carries
  cases position : s.pass with
  | idle =>
    simp only [System.publishStatus, position] at step
    cases step
    exact .began position
  | publishRejectedCount errorCount =>
    simp only [System.publishStatus, position] at step
    cases step
    exact .sampled errorCount position
  | unexpectedEventCount errorCount publishRejectedCount =>
    simp only [System.publishStatus, position] at step
    split at step
    · rename_i same
      cases step
      rw [same.2]
      exact .unchanged _ _ position same.1 same.2
    · cases step
      exact .changed _ _ position
  | publish status =>
    simp only [System.publishStatus, position] at step
    obtain ⟨⟨w, fs⟩, move, next⟩ := Option.map_eq_some_iff.mp step
    rw [position] at carries
    have idle := Regmap.carries_eq_none.mp carries
    have accepts : (s.world.heap .status).acceptsPublish (some (statusBytes status)) statusSize =
        some (statusBytes status) := by
      simp [Snapshot.acceptsPublish, ready.valid, ready.length]
    simp only [Regmap.machine, idle, Regmap.Publisher.call, accepts] at move
    cases move
    simp only [Regmap.World.setPublisher_self] at next
    cases next
    exact .called status position _ rfl (by simp [Regmap.Publisher.carries])
  | publishing status =>
    simp only [System.publishStatus, position] at step
    obtain ⟨⟨w, fs⟩, move, next⟩ := Option.map_eq_some_iff.mp step
    rw [position] at carries
    have progress := Regmap.publisher_progress carries move
    cases progress with
    | goesOn _ carries' count =>
      simp only [Regmap.carries_busy carries'] at next
      cases next
      simpa [← position] using PassStep.goesOn status position w carries' count
    | published _ b idle count =>
      rw [if_neg (by simp [idle, Regmap.Publisher.busy]), if_pos (by simp)] at next
      cases next
      exact .installed status position w b idle count
    | refused _ idle count =>
      rw [if_neg (by simp [idle, Regmap.Publisher.busy]), if_neg (by simp)] at next
      cases next
      exact .refused status position w idle count
  | store status =>
    simp only [System.publishStatus, position] at step
    cases step
    exact .published status position

theorem access_aside {c : Regmap.Choice ι PageName} (step : s.access c = some (s', es))
    (frame : ∀ w fs, (Regmap.machine ι PageName Empty).step s.world c = some (w, fs) →
      Regmap.Bystander .status s.world fs w) : Aside s es s' := by
  obtain ⟨⟨w, fs⟩, move, next⟩ := Option.map_eq_some_iff.mp step
  cases next
  obtain ⟨⟨state, heap⟩, publisher, none⟩ := frame w fs move
  exact ⟨rfl, rfl, rfl, by simp [System.publishRejectedCount, heap], publisher, by simpa using none,
    by simp⟩

theorem step_aside (step : (machine ι).step s choice = some (s', es))
    (other : ∀ spurious, choice ≠ .pass spurious) : Aside s es s' := by
  cases choice with
  | pass spurious => exact absurd rfl (other spurious)
  | call i call => exact access_aside step fun w fs move => Regmap.call_bystander move
  | reader i spurious => exact access_aside step fun w fs move => Regmap.reader_bystander move
  | error | unexpectedEvent =>
    cases step
    exact ⟨rfl, rfl, rfl, rfl, rfl, rfl, rfl⟩

/-! ## Every run -/

/-- The demo as `i2c_regmap_demo_init` leaves it. -/
structure Started (s : System ι) : Prop where
  initial : Regmap.Initial s.world .status fun _ => 0
  length : (s.world.heap .status).length = statusSize
  count : s.publishRejectedCount = 0
  published : s.statusPublished = false
  pass : s.pass = .idle

omit [DecidableEq ι] in
theorem init_started {deviceInfo : Option (Nat → BitVec 8)} {record : Crash.Record}
    {stack : Nat → BitVec 8} (h : init deviceInfo record stack = some s) : Started s := by
  obtain ⟨heap, snapshots, h⟩ := Option.bind_eq_some_iff.mp h
  obtain ⟨regmap, accepted, rfl⟩ := Option.map_eq_some_iff.mp h
  simp only [initSnapshots, Option.bind_eq_bind, Option.bind_eq_some_iff, Option.pure_def,
    Option.some.injEq] at snapshots
  obtain ⟨info, -, deviceInfo, -, crash, -, status, hstatus, rfl⟩ := snapshots
  have fields : status.length = statusSize ∧ status.publishRejectedCount = 0 := by
    simp only [Snapshot.init, statusSize] at hstatus
    cases hstatus
    exact ⟨rfl, rfl⟩
  refine ⟨⟨⟨some unset, _, _, statusSize, some fun _ => 0, hstatus, rfl⟩, ?_, ?_, ?_⟩, fields.1,
    fields.2, rfl, rfl⟩
  · intro i
    exact ⟨_, _, accepted⟩
  · intro i
    rfl
  · intro page
    rfl

omit [DecidableEq ι] in
theorem Started.inv (h : Started s) : Inv [] s where
  carries := by rw [h.initial.publisher, h.pass]; rfl
  count := h.count
  stored status position := by simp [h.pass] at position
  shown _ published := by simp [h.published] at published

/-- What a run leaves of the snapshot that the demo has set up. -/
theorem run_snapshot (start : Started s₀) (run : (machine ι).Run s₀ tr s) :
    Snapshot.isValid (some (s.world.heap .status)) = true ∧
    (s.world.heap .status).length = statusSize ∧ s.statusPage = newestStatus tr := by
  have moves := run_world run
  obtain ⟨g, reached⟩ := Regmap.run_reached start.initial moves
  have length : (s.world.heap .status).length = statusSize := by
    rw [reached.inv.length, start.length]
  refine ⟨Regmap.run_valid start.initial moves, length, ?_⟩
  apply parseStatus_congr
  intro k hk
  apply reached.page
  rwa [length]

theorem Inv.ready (h : Inv tr s) (start : Started s₀) (run : (machine ι).Run s₀ tr s) : Ready s := by
  obtain ⟨valid, length, -⟩ := run_snapshot start run
  exact ⟨valid, length, h.carries⟩

theorem run_inv (start : Started s₀) (run : (machine ι).Run s₀ tr s) : Inv tr s := by
  induction run with
  | start => exact start.inv
  | @next tr s choice es s' run step ih =>
    cases choice with
    | pass spurious => exact ih.pass (pass_step (ih.ready start run) step)
    | _ => exact ih.aside (step_aside step (by simp))

/-! ## One pass -/

/-- The steps of a pass, with the interrupt handler's between them. -/
def passing (ι : Type*) [DecidableEq ι] : Machine (System ι) (Choice ι) (Event ι) :=
  (machine ι).restrict fun s _ => s.pass.busy

/-- What the pass sampled that began in `start`, took its first access to `first`
and has got to `s`. -/
structure Sampled (start first : System ι) (during : List (Event ι)) (s : System ι)
    (sampled : Counts) : Prop where
  errorCount : sampled.errorCount = start.targetErrorCount
  publishRejectedCount : sampled.publishRejectedCount = start.publishRejectedCount
  unexpectedEventCount : ∃ l pre post, (passing ι).Run first pre l ∧ (passing ι).Run l post s ∧
    during = pre ++ post ∧ sampled.unexpectedEventCount = l.targetUnexpectedEventCount

/-- The page and what is remembered of it are as they were in `start`. -/
structure Kept (start : System ι) (during : List (Event ι)) (s : System ι) : Prop where
  last : s.statusLast = start.statusLast
  published : s.statusPublished = start.statusPublished
  page : ∀ tr, newestStatus (tr ++ during) = newestStatus tr

/-- How far the pass has got that began in `start`: it stands at `pass` in `s`. -/
inductive Stage (start first : System ι) (during : List (Event ι)) (s : System ι) : Pass → Prop
  | errors (kept : Kept start during s) (none : outcomes during = [])
    (count : s.publishRejectedCount = start.publishRejectedCount) :
    Stage start first during s (.publishRejectedCount start.targetErrorCount)
  | rejected (kept : Kept start during s) (none : outcomes during = []) :
    Stage start first during s (.unexpectedEventCount start.targetErrorCount start.publishRejectedCount)
  | publish (status : Counts) (sampled : Sampled start first during s status)
    (kept : Kept start during s) (none : outcomes during = []) :
    Stage start first during s (.publish status)
  | publishing (status : Counts) (sampled : Sampled start first during s status)
    (kept : Kept start during s) (none : outcomes during = []) :
    Stage start first during s (.publishing status)
  | store (status : Counts) (sampled : Sampled start first during s status)
    (none : outcomes during = []) : Stage start first during s (.store status)
  | returned (outcome : Outcome) (status : Counts) (sampled : Sampled start first during s status)
    (one : outcomes during = [(outcome, status)])
    (kept : outcome ≠ .published → Kept start during s)
    (shown : outcome ≠ .refused → s.statusPublished = true ∧ s.statusLast = status) :
    Stage start first during s .idle

variable {start first : System ι} {during : List (Event ι)} {status : Counts}

omit [DecidableEq ι] in
theorem Kept.next (h : Kept start during s) (last : s'.statusLast = s.statusLast)
    (published : s'.statusPublished = s.statusPublished)
    (results : results .status (regmapEvents es) = []) : Kept start (during ++ es) s' where
  last := last.trans h.last
  published := published.trans h.published
  page tr := by rw [← List.append_assoc, newestStatus_append _ _ results, h.page]

theorem Sampled.next (h : Sampled start first during s status)
    (step : (passing ι).step s choice = some (s', es)) :
    Sampled start first (during ++ es) s' status := by
  obtain ⟨l, pre, post, before, after, split, value⟩ := h.unexpectedEventCount
  refine ⟨h.errorCount, h.publishRejectedCount, l, pre, post ++ es, before, after.next step, ?_, value⟩
  rw [split, List.append_assoc]

theorem Stage.aside {pass : Pass} (h : Stage start first during s pass) (busy : pass.busy = true)
    (step : (passing ι).step s choice = some (s', es)) (aside : Aside s es s') :
    Stage start first (during ++ es) s' pass := by
  have keep (kept : Kept start during s) : Kept start (during ++ es) s' :=
    kept.next aside.last aside.published aside.results
  have quiet (none : outcomes during = []) : outcomes (during ++ es) = [] := by
    rw [outcomes_append, none, aside.outcomes, List.append_nil]
  cases h with
  | errors kept none count => exact .errors (keep kept) (quiet none) (aside.count.trans count)
  | rejected kept none => exact .rejected (keep kept) (quiet none)
  | publish status sampled kept none => exact .publish status (sampled.next step) (keep kept) (quiet none)
  | publishing status sampled kept none =>
    exact .publishing status (sampled.next step) (keep kept) (quiet none)
  | store status sampled none => exact .store status (sampled.next step) (quiet none)
  | returned => cases busy

theorem Stage.pass (h : Stage start first during s s.pass) (run : (passing ι).Run first during s)
    (busy : s.pass.busy = true) (step : (passing ι).step s choice = some (s', es))
    (access : PassStep s es s') : Stage start first (during ++ es) s' s'.pass := by
  cases access with
  | began position =>
    rw [position] at busy
    cases busy
  | sampled errorCount position =>
    rw [position] at h
    cases h with
    | errors kept none count =>
      rw [List.append_nil, count]
      exact .rejected ⟨kept.last, kept.published, kept.page⟩ none
  | unchanged errorCount publishRejectedCount position published same =>
    rw [position] at h
    cases h with
    | rejected kept none =>
      have sampled : Sampled start first (during ++ [.returned .unchanged s.statusLast])
          { s with pass := .idle } s.statusLast :=
        ⟨by rw [← same], by rw [← same], s, during, _, run, .next .start step, rfl, by rw [← same]⟩
      refine .returned .unchanged s.statusLast sampled ?_ (fun _ => kept.next rfl rfl rfl)
        (fun _ => ⟨published, rfl⟩)
      rw [outcomes_append, none]
      rfl
  | changed errorCount publishRejectedCount position =>
    rw [position] at h
    cases h with
    | rejected kept none =>
      rw [List.append_nil]
      refine .publish _ ⟨rfl, rfl, s, during, [], run, ?_, by simp, rfl⟩
        ⟨kept.last, kept.published, kept.page⟩ none
      exact .next .start step
  | called status position w heap carries =>
    rw [position] at h
    cases h with
    | publish _ sampled kept none =>
      exact .publishing status (sampled.next step) (kept.next rfl rfl rfl) (by simpa using none)
  | goesOn status position w carries count =>
    rw [position] at h
    cases h with
    | publishing _ sampled kept none =>
      have next : Stage start first (during ++ []) { s with world := w } (.publishing status) :=
        .publishing status (sampled.next step) (kept.next rfl rfl rfl) (by simpa using none)
      rwa [← position] at next
  | installed status position w b idle count =>
    rw [position] at h
    cases h with
    | publishing _ sampled kept none =>
      apply Stage.store status (sampled.next step)
      rw [outcomes_append, none]
      rfl
  | refused status position w idle count =>
    rw [position] at h
    cases h with
    | publishing _ sampled kept none =>
      refine .returned .refused status (sampled.next step) ?_ ?_ (by simp)
      · rw [outcomes_append, none]
        rfl
      · intro _
        refine ⟨kept.last, kept.published, ?_⟩
        intro tr
        rw [← List.append_assoc, ← kept.page tr]
        simp [newestStatus, regmapEvents, newestImage]
  | published status position =>
    rw [position] at h
    cases h with
    | store _ sampled none =>
      refine .returned .published status (sampled.next step) ?_ (by simp) (fun _ => ⟨rfl, rfl⟩)
      rw [outcomes_append, none]
      rfl

theorem passing_run (run : (machine ι).Run s₀ tr first) (rest : (passing ι).Run first during s) :
    (machine ι).Run s₀ (tr ++ during) s := by
  induction rest with
  | start => simpa using run
  | next _ step ih =>
    rw [← List.append_assoc]
    exact ih.next (Machine.restrict_step step).2

/-- What a pass has done wherever it stands. -/
theorem run_stage (begun : Started s₀) (run : (machine ι).Run s₀ tr start) (idle : start.pass = .idle)
    {spurious : Bool} (call : (machine ι).step start (.pass spurious) = some (first, es))
    (rest : (passing ι).Run first during s) : es = [] ∧ Stage start first during s s.pass := by
  have inv := run_inv begun run
  have access := pass_step (inv.ready begun run) call
  have entered : es = [] ∧ first = { start with pass := .publishRejectedCount start.targetErrorCount } := by
    cases access with
    | began => exact ⟨rfl, rfl⟩
    | _ => simp_all
  obtain ⟨rfl, rfl⟩ := entered
  refine ⟨rfl, ?_⟩
  have reached := run.next call
  rw [List.append_nil] at reached
  induction rest with
  | start => exact .errors ⟨rfl, rfl, fun tr => by rw [List.append_nil]⟩ rfl rfl
  | @next during s choice es s' rest step ih =>
    obtain ⟨busy, move⟩ := Machine.restrict_step step
    have here := passing_run reached rest
    have inv := run_inv begun here
    cases choice with
    | pass spurious => exact ih.pass rest busy step (pass_step (inv.ready begun here) move)
    | _ =>
      have aside := step_aside move (by simp)
      rw [aside.pass]
      exact ih.aside busy step aside

/-- What a pass begun in `start`, after the trace `tr`, has done when it ends in `s`. -/
structure Returned (tr : List (Event ι)) (start first : System ι) (during : List (Event ι))
    (s : System ι) (outcome : Outcome) (status : Counts) : Prop where
  sampled : Sampled start first during s status
  /-- A pass that returns early leaves a page with what it sampled. -/
  unchanged : outcome = .unchanged → s.statusPage = status ∧ s.statusLast = start.statusLast
  /-- A refused publish changes only the count of refusals. -/
  refused : outcome = .refused → s.statusPage = start.statusPage ∧ s.statusLast = start.statusLast ∧
    s.statusPublished = start.statusPublished ∧
    s.publishRejectedCount = start.publishRejectedCount + 1
  /-- A publish that succeeds shows every refusal before it. -/
  published : outcome = .published → s.statusPage = status ∧ s.statusLast = status ∧
    s.statusPublished = true ∧ status.publishRejectedCount = BitVec.ofNat 32 (refusals tr)

/-- The page of a demo that a run with trace `tr` has brought to `s`. -/
structure StatusCurrent (tr : List (Event ι)) (s : System ι) : Prop where
  /-- Between passes, a page once published shows `g_status_last_*`. -/
  shown : s.pass = .idle → s.statusPublished = true → s.statusPage = s.statusLast
  passes : ∀ spurious first es during t, s.pass = .idle →
    (machine ι).step s (.pass spurious) = some (first, es) → (passing ι).Run first during t →
    t.pass = .idle →
    es = [] ∧ ∃ outcome status, outcomes during = [(outcome, status)] ∧
      Returned tr s first during t outcome status

/-- **The status page is never silently stale.** In every run of the demo,
whatever the interrupt handler counts and latches in between. -/
theorem status_page_current {deviceInfo : Option (Nat → BitVec 8)} {record : Crash.Record}
    {stack : Nat → BitVec 8} (h : init deviceInfo record stack = some s₀)
    (run : (machine ι).Run s₀ tr s) : StatusCurrent tr s := by
  have begun := init_started h
  have page {tr : List (Event ι)} {s : System ι} (run : (machine ι).Run s₀ tr s) :
      s.statusPage = newestStatus tr := (run_snapshot begun run).2.2
  have shown {tr : List (Event ι)} {s : System ι} (run : (machine ι).Run s₀ tr s)
      (idle : s.pass = .idle) (published : s.statusPublished = true) :
      s.statusPage = s.statusLast := by
    rw [page run]
    exact (run_inv begun run).shown (by simp [idle]) published
  refine ⟨shown run, ?_⟩
  intro spurious first es during t idle call rest ended
  obtain ⟨rfl, stage⟩ := run_stage begun run idle call rest
  have reached := run.next call
  rw [List.append_nil] at reached
  have finished := passing_run reached rest
  rw [ended] at stage
  cases stage with
  | returned outcome status sampled one kept current =>
    refine ⟨rfl, outcome, status, one, sampled, ?_, ?_, ?_⟩
    · rintro rfl
      obtain ⟨published, last⟩ := current (by simp)
      exact ⟨by rw [shown finished ended published, last], (kept (by simp)).last⟩
    · rintro rfl
      obtain ⟨last, published, same⟩ := kept (by simp)
      refine ⟨by rw [page finished, page run, same], last, published, ?_⟩
      rw [(run_inv begun finished).count, (run_inv begun run).count, refusals_append, BitVec.ofNat_add,
        refusals, refusals, one]
      rfl
    · rintro rfl
      obtain ⟨published, last⟩ := current (by simp)
      refine ⟨by rw [shown finished ended published, last], last, published, ?_⟩
      rw [sampled.publishRejectedCount, (run_inv begun run).count]

/-- A publish refused because the other buffer is being read, and the next one
that shows it. -/
theorem status_page_current_refused :
    ∃ s₀ s : System Unit, ∃ tr, (machine Unit).Run s₀ tr s ∧ StatusCurrent tr s ∧
      s.statusPage = ⟨1, 1, 0⟩ ∧
      outcomes tr = [(.published, ⟨0, 0, 0⟩), (.refused, ⟨1, 0, 0⟩), (.published, ⟨1, 1, 0⟩)] := by
  have computed : ((init (some fun _ => 0) ⟨0, 0, 0, 0, 0, 0, 0, 0, 0⟩ fun _ => 0).bind fun s₀ =>
      ((machine Unit).exec s₀ ([.call () (.setAddress 0x0300), .call () .readCurrent] ++
        List.replicate 3 (.reader () false) ++ List.replicate 19 (.pass false) ++ [.error] ++
        List.replicate 5 (.pass false) ++ [.call () .endRead, .reader () false] ++
        List.replicate 19 (.pass false))).map fun t => (t.1.statusPage, outcomes t.2)) =
      some (⟨1, 1, 0⟩,
        [(.published, ⟨0, 0, 0⟩), (.refused, ⟨1, 0, 0⟩), (.published, ⟨1, 1, 0⟩)]) := by
    decide +kernel
  obtain ⟨s₀, started, shown⟩ := Option.bind_eq_some_iff.mp computed
  obtain ⟨⟨s, tr⟩, executed, shown⟩ := Option.map_eq_some_iff.mp shown
  obtain ⟨page, passes⟩ := Prod.mk.inj shown
  have run := Machine.exec_run executed
  exact ⟨s₀, s, tr, run, status_page_current started run, page, passes⟩

end MspmBaremetal.RegmapDemo
