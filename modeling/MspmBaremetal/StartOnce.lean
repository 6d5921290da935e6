import MspmBaremetal.BusPhases

/-!
# Every START is applied once

One phase of the bus, from its START to the next one, after any history at all.
`start_applied` says that the handler resets the engine once for that START and
decodes the data that follows as one phase, if the phase itself is timely;
`start_applied_twice` says that it need not be once otherwise.
-/

namespace MspmBaremetal.TargetIsr

variable {σ κ : Type*}

/-- A START that the engine was not reset for. -/
def State.due (s : State σ κ) : Nat := if s.hw.sstart && !s.startPrehandled then 1 else 0

/-! ## Any history -/

/-- How the flags and the handler's position fit together, whatever the bus does. -/
structure Flags (s : State σ κ) : Prop where
  prehandled : s.startPrehandled = true → s.hw.sstart = true
  unread : s.hw.rxFifo.isSome = true ↔
    s.hw.srxdone = true ∨ s.position = .rxCheck ∨ s.position = .rxData
  once : s.hw.srxdone = true → s.position ≠ .rxCheck ∧ s.position ≠ .rxData
  flagged : s.hw.treq = true → s.hw.stxdone = true ∨ s.hw.stxempty = true ∨
    s.position = .txSsr ∨ s.position = .txCheck ∨ s.position.writes = true
  asked : s.position = .txCheck ∨ s.position.writes = true → s.hw.treq = true
  receiving : s.position = .rxData → s.engine.direction = .receive

variable {s s' : State σ κ} {tr es during : List (Event σ κ)} {choice : Choice}

theorem Flags.raise (h : Flags s) {hw : Peripheral} {es : List Bus}
    (raised : TargetIsr.raise s.hw choice = some (hw, es)) : Flags { s with hw } := by
  obtain ⟨prehandled, unread, once, flagged, asked, receiving⟩ := h
  cases choice with
  | isr answer => cases raised
  | _ =>
    simp only [TargetIsr.raise, Option.ite_none_left_eq_some, Option.some.injEq,
      Prod.mk.injEq] at raised
    obtain ⟨allowed, rfl, -⟩ := raised
    constructor <;> grind -ring -linarith

/-- The data of older phases serviced, a START makes the state sane. -/
theorem Flags.start (h : Flags s) {read : Bool} (ok : timely s (.start read) = true)
    {hw : Peripheral} {es : List Bus} (raised : TargetIsr.raise s.hw (.start read) = some (hw, es)) :
    Sane { s with hw } ∧ es = [.start] ∧ State.due { s with hw } = 1 := by
  obtain ⟨prehandled, unread, once, flagged, asked, receiving⟩ := h
  simp only [TargetIsr.raise, Option.ite_none_left_eq_some, Option.some.injEq,
    Prod.mk.injEq] at raised
  obtain ⟨allowed, rfl, rfl⟩ := raised
  have new : s.startPrehandled = false := by grind -ring -linarith
  refine ⟨?_, rfl, by simp [State.due, new]⟩
  constructor <;> grind -ring -linarith [timely, State.unserviced]

variable [DecidableEq σ]

theorem Flags.dispatch (h : Flags s) (loop : s.position = .loop) : Flags s.dispatch.1 := by
  obtain ⟨prehandled, unread, once, flagged, asked, receiving⟩ := h
  have next := dispatch_dispatched s
  generalize s.dispatch = out at next ⊢
  cases next <;> constructor <;> grind -ring -linarith [Position.writes]

theorem Flags.isr (h : Flags s) (answer : Bool) : Flags (s.isr answer).1 := by
  obtain ⟨hw, position, start⟩ := beginIfStartPending_fields s
  have direction := ensure_receive s.beginIfStartPending.1.engine
  unfold State.isr
  cases here : s.position with
  | loop => exact h.dispatch here
  | rxCheck | txCheck | rxData | txSsr | txData =>
    obtain ⟨prehandled, unread, once, flagged, asked, receiving⟩ := h
    constructor <;> grind -ring -linarith [Position.writes, State.rxCheck, State.txCheck, State.rxData, State.call]

theorem run_flags {engine : TargetEngine σ κ} (run : (machine σ κ).Run (initial engine) tr s) :
    Flags s := by
  refine Machine.Run.invariant (P := fun _ s => Flags s) ?_ ?_ run
  · constructor <;> simp [initial, Position.writes]
  · intro tr s choice es s' h step
    cases choice with
    | isr answer =>
      have out : s.isr answer = (s', es) := Option.some.inj step
      have next := h.isr answer
      rwa [out] at next
    | _ =>
      simp only [machine, Option.map_eq_some_iff, Prod.mk.injEq] at step
      obtain ⟨⟨hw, bus⟩, raised, rfl, rfl⟩ := step
      exact h.raise raised

/-! ## One phase -/

/-- The steps before the next START. -/
def inPhase (_ : State σ κ) : Choice → Bool
  | .start _ => false
  | _ => true

def timelyPhase (s : State σ κ) (choice : Choice) : Bool := inPhase s choice && timely s choice

def Event.isBusData : Event σ κ → Bool
  | .bus (.byte _) | .bus .request => true
  | _ => false

/-- The engine is reset, for a START or a STOP. -/
def Event.isReset : Event σ κ → Bool
  | .started | .stopped => true
  | _ => false

/-- Data that the phase itself put on the bus. -/
def OwnData (pre : List (Event σ κ)) : Event σ κ → Prop
  | .engine (.received _) => ∃ value, .bus (.byte value) ∈ pre
  | .engine (.transmitted _) => .bus .request ∈ pre
  | _ => False

/-- Engine calls in order. -/
def callAll (engine : TargetEngine σ κ) :
    List TargetEngine.Call → TargetEngine σ κ × List (TargetEngine.Event σ κ)
  | [] => (engine, [])
  | call :: rest =>
    ((callAll (engine.call call).1 rest).1,
      (engine.call call).2 ++ (callAll (engine.call call).1 rest).2)

/-- The last engine calls, with what is still pending, are `calls`. -/
def Decoded (s₁ : State σ κ) (during : List (Event σ κ)) (s : State σ κ)
    (calls : List TargetEngine.Call) : Prop :=
  ∃ engine es, s.flush.1 = (callAll engine calls).1 ∧
    performed during ++ s.flush.2 = s₁.position.unwritten ++ es ++ (callAll engine calls).2

/-- A START raised in a state that became `s₁` was applied once in the part
`during` of its phase that has led to `s`. -/
structure AppliedOnce (s₁ : State σ κ) (during : List (Event σ κ)) (s : State σ κ) : Prop where
  /-- The engine was reset for it once, unless that is still due. -/
  once : started during + s.due = 1
  /-- The phase's own data comes after that reset. -/
  first : ∀ pre e post, during = pre ++ e :: post → OwnData pre e → started pre = 1
  /-- No reset falls between two data of the phase. -/
  unbroken : ∀ pre d mid reset post, during = pre ++ d :: mid ++ reset :: post → OwnData pre d →
    reset.isReset = true → ∀ e ∈ post, e.isData = false
  /-- Received bytes are one address-then-data phase. -/
  written : ∀ bytes m, bytes ≠ [] → busEvents during = bytes.map .byte ++ List.replicate m .stop →
    Decoded s₁ during s
      (.abort :: .beginReceive :: bytes.map (.receive · true) ++ List.replicate m .end)
  /-- Transmitted bytes are read in one phase, under the latch it took. -/
  read : ∀ n m, 0 < n →
    busEvents during = List.replicate n .request ++ List.replicate m .stop →
    Decoded s₁ during s
      (.abort :: .beginTransmit :: List.replicate n .transmit ++ List.replicate m .end)

/-! ## What a step of the phase does -/

/-- The check for a pending START resets the engine if one is due. -/
theorem beginIfStartPending_started (new : s.startPrehandled = false) :
    started s.beginIfStartPending.2 = s.due := by
  unfold State.beginIfStartPending State.due
  by_cases start : s.hw.sstart = true
  · rw [if_pos start, start, new]
    simp only [State.handleStart, State.call]
    rw [← List.singleton_append, started_append, (plain_abort s.engine).started]
    rfl
  · rw [if_neg start]
    simp [start, started]

/-- A check for a pending START, with the engine calls `es` after it. -/
theorem Sane.due_checked (h : Sane s) (unserviced : s.unserviced = true) {next : Step σ κ}
    (plain : Plain es) (events : next.2 = s.beginIfStartPending.2 ++ es) (hw : next.1.hw = s.hw)
    (acted : next.1.startPrehandled = (s.hw.sstart || s.startPrehandled)) :
    started next.2 = s.due ∧ next.1.due = 0 := by
  constructor
  · rw [events, started_append, beginIfStartPending_started (h.fresh unserviced), plain.started,
      Nat.add_zero]
  · unfold State.due
    rw [hw, acted]
    cases s.hw.sstart <;> simp

theorem Sane.due_rxCheck (h : Sane s) (here : s.position = .rxCheck) :
    started s.rxCheck.2 = s.due ∧ s.rxCheck.1.due = 0 := by
  obtain ⟨hw, -, acted⟩ := beginIfStartPending_fields s
  exact h.due_checked (by simp [State.unserviced, here])
    (plain_ensure s.beginIfStartPending.1.engine).1 rfl hw acted

theorem Sane.due_txCheck (h : Sane s) (here : s.position = .txCheck) :
    started s.txCheck.2 = s.due ∧ s.txCheck.1.due = 0 := by
  obtain ⟨hw, -, acted⟩ := beginIfStartPending_fields s
  have unserviced : s.unserviced = true := by
    simp [State.unserviced, here, h.asked (.inl here), Position.writes]
  have plain := (plain_ensure s.beginIfStartPending.1.engine).2.append (plain_map
    (ensure s.beginIfStartPending.1.engine .transmit .beginTransmit).1.transmit.2.1)
  refine h.due_checked unserviced plain ?_ hw acted
  simp only [State.txCheck, List.map_append]

/-- A reset for the START is counted when it stops being due. -/
theorem Sane.due_isr (h : Sane s) (answer : Bool) :
    started (s.isr answer).2 + (s.isr answer).1.due = s.due := by
  unfold State.isr
  cases here : s.position with
  | loop =>
    have next := dispatch_dispatched s
    generalize s.dispatch = out at next ⊢
    cases next with
    | byte | nothing => simp [started, State.due]
    | request hw none cleared => rcases cleared with rfl | rfl <;> simp [started, State.due]
    | skipped none idle pending acted => simp [started, State.due, acted]
    | start none idle pending new =>
      rw [← List.singleton_append, started_append, (plain_abort s.engine).started]
      simp [started, State.due, pending, new]
    | stop none idle noStart pending =>
      have plain : Plain ((s.engine.call .end).2.map Event.engine) := plain_abort s.engine
      rw [← List.singleton_append, started_append, plain.started]
      simp [started, State.due, noStart]
  | rxCheck =>
    obtain ⟨counted, settled⟩ := h.due_rxCheck here
    simp only [counted, settled, Nat.add_zero]
  | txCheck =>
    obtain ⟨counted, settled⟩ := h.due_txCheck here
    simp only [counted, settled, Nat.add_zero]
  | rxData =>
    obtain ⟨es, result, events, plain⟩ := rxData_events s answer
    simp only [events, started_append, plain.started]
    simp [started, State.due, State.rxData, State.call]
  | txSsr => simp [started, State.due]
  | txData value => simp [started, State.due]

/-- What has led from the START to `s`. -/
structure Phase (s₁ : State σ κ) (during : List (Event σ κ)) (s : State σ κ) : Prop where
  sane : Sane s
  counts : started during + s.due = 1
  byteChecked : s.position = .rxData → (∃ value, .bus (.byte value) ∈ during) → s.due = 0
  requestChecked : s.position.writes = true → .bus .request ∈ during → s.due = 0
  lateStop : (∃ e ∈ during, e.isBusData = true) → s.hw.sstop = true → s.hw.busy = false
  caught : (serveAll s₁.engine (s₁.pending ++ busEvents during)).1 = s.flush.1
  performed : s₁.position.unwritten ++ (serveAll s₁.engine (s₁.pending ++ busEvents during)).2 =
    performed during ++ s.flush.2

variable {s₁ : State σ κ}

theorem Phase.raise (h : Phase s₁ during s) {hw : Peripheral} {es : List Bus}
    (ok : timelyPhase s choice = true) (raised : TargetIsr.raise s.hw choice = some (hw, es)) :
    Phase s₁ (during ++ es.map .bus) { s with hw } := by
  obtain ⟨sane, counts, byteChecked, requestChecked, lateStop, caught, did⟩ := h
  simp only [timelyPhase, Bool.and_eq_true] at ok
  have later := serveAll_raise sane ok.2 raised
  have sane' := sane.raise ok.2 raised
  have behind : (serveAll s₁.engine (s₁.pending ++ busEvents (during ++ es.map .bus))).1 =
        (State.flush { s with hw }).1 ∧
      s₁.position.unwritten ++
          (serveAll s₁.engine (s₁.pending ++ busEvents (during ++ es.map .bus))).2 =
        TargetIsr.performed (during ++ es.map .bus) ++ (State.flush { s with hw }).2 := by
    simp only [State.flush] at caught did ⊢
    rw [busEvents_append, busEvents_bus, ← List.append_assoc, serveAll_append, performed_append,
      performed_bus, List.append_nil, later, serveAll_append s.engine, caught]
    exact ⟨rfl, by rw [← List.append_assoc, did]; simp only [List.append_assoc]⟩
  have counts' (due : State.due { s with hw } = s.due) :
      started (during ++ es.map .bus) + State.due { s with hw } = 1 := by
    rw [started_bus, due]
    exact counts
  cases sane.raised ok.2 raised with
  | start read => simp [inPhase] at ok
  | byte value room elsewhere idle noStop =>
    refine ⟨sane', counts' rfl, fun here => absurd here elsewhere, ?_, ?_, behind.1, behind.2⟩
    · intro writes asked
      exact requestChecked writes (by simpa using asked)
    · intro _ pending
      rw [noStop] at pending
      cases pending
  | request done empty idle waiting emptied noStop =>
    refine ⟨sane', counts' rfl, ?_, ?_, ?_, behind.1, behind.2⟩
    · intro here own
      exact byteChecked here (by simpa using own)
    · intro writes
      rw [waiting] at writes
      cases writes
    · intro _ pending
      rw [noStop] at pending
      cases pending
  | sent =>
    refine ⟨sane', counts' rfl, ?_, ?_, ?_, behind.1, behind.2⟩
    · rw [List.map_nil, List.append_nil]
      exact byteChecked
    · rw [List.map_nil, List.append_nil]
      exact requestChecked
    · rw [List.map_nil, List.append_nil]
      exact lateStop
  | stop unseen =>
    refine ⟨sane', counts' rfl, ?_, ?_, fun _ _ => rfl, behind.1, behind.2⟩
    · intro here own
      exact byteChecked here (by simpa using own)
    · intro writes asked
      exact requestChecked writes (by simpa using asked)

/-- The handler's own events put nothing on the bus. -/
theorem bus_isr (s : State σ κ) (answer : Bool) (b : Bus) : .bus b ∉ (s.isr answer).2 := by
  intro member
  have none := busEvents_isr s answer
  have shown : b ∈ busEvents (s.isr answer).2 := List.mem_filterMap.mpr ⟨_, member, rfl⟩
  rw [none] at shown
  cases shown

/-- The position after an access that is not the handler's check is not one
behind the check. -/
theorem checked_isr (h : Sane s) (answer : Bool) :
    ((s.isr answer).1.position = .rxData → s.position = .rxCheck ∧ (s.isr answer).1.due = 0) ∧
    ((s.isr answer).1.position.writes = true → s.position = .txCheck ∧ (s.isr answer).1.due = 0) := by
  unfold State.isr
  cases here : s.position with
  | loop =>
    have next := dispatch_dispatched s
    generalize s.dispatch = out at next ⊢
    cases next <;> simp [Position.writes, here]
  | rxCheck => exact ⟨fun _ => ⟨rfl, (h.due_rxCheck here).2⟩, by simp [State.rxCheck, Position.writes]⟩
  | txCheck => exact ⟨by simp [State.txCheck], fun _ => ⟨rfl, (h.due_txCheck here).2⟩⟩
  | rxData => simp [State.rxData, State.call, Position.writes]
  | txSsr => cases request : s.hw.treq <;> simp [Position.writes]
  | txData value => simp [Position.writes]

/-- The handler raises no STOP. -/
theorem stop_isr (s : State σ κ) (answer : Bool) :
    (s.isr answer).1.hw.busy = s.hw.busy ∧
      ((s.isr answer).1.hw.sstop = true → s.hw.sstop = true) := by
  obtain ⟨hw, -, -⟩ := beginIfStartPending_fields s
  unfold State.isr
  cases s.position with
  | loop =>
    have next := dispatch_dispatched s
    generalize s.dispatch = out at next ⊢
    cases next <;> grind -ring -linarith
  | rxCheck => simp [State.rxCheck, hw]
  | txCheck => simp [State.txCheck, hw]
  | rxData | txSsr | txData => simp [State.rxData, State.call]

theorem Phase.isr (h : Phase s₁ during s) (answer : Bool) :
    Phase s₁ (during ++ (s.isr answer).2) (s.isr answer).1 := by
  obtain ⟨sane, counts, byteChecked, requestChecked, lateStop, caught, did⟩ := h
  have due := sane.due_isr answer
  have checked := checked_isr sane answer
  have goes := sane.goes answer
  have quiet := busEvents_isr s answer
  refine ⟨sane.isr answer, ?_, fun here _ => (checked.1 here).2, fun here _ => (checked.2 here).2,
    ?_, ?_, ?_⟩
  · rw [started_append]
    omega
  · rintro ⟨e, he, data⟩ pending
    obtain ⟨busy, stop⟩ := stop_isr s answer
    rw [busy]
    rcases List.mem_append.mp he with old | new
    · exact lateStop ⟨e, old, data⟩ (stop pending)
    · cases e with
      | bus b => exact absurd new (bus_isr s answer b)
      | _ => cases data
  · rw [busEvents_append, quiet, List.append_nil, caught, goes]
  · rw [busEvents_append, quiet, List.append_nil, did, goes, performed_append, List.append_assoc]

/-- Every step of the phase keeps it. -/
theorem Phase.next (h : Phase s₁ during s)
    (step : ((machine σ κ).restrict timelyPhase).step s choice = some (s', es)) :
    Phase s₁ (during ++ es) s' := by
  obtain ⟨ok, step⟩ := Machine.restrict_step step
  cases choice with
  | isr answer =>
    have out : s.isr answer = (s', es) := Option.some.inj step
    have next := h.isr answer
    rwa [out] at next
  | _ =>
    simp only [machine, Option.map_eq_some_iff, Prod.mk.injEq] at step
    obtain ⟨⟨hw, bus⟩, raised, rfl, rfl⟩ := step
    exact h.raise ok raised

/-! ## After the phase's STOP -/

omit [DecidableEq σ] in
theorem Plain.noData (plain : Plain es) : ∀ e ∈ es, e.isData = false := by
  intro e he
  obtain ⟨x, rfl⟩ := plain e he
  rfl

/-- No data is left, and none can come without a START. -/
structure Finished (s : State σ κ) : Prop where
  idle : s.hw.busy = false
  empty : s.hw.srxdone = false ∧ s.hw.rxFifo = none ∧ s.hw.treq = false
  position : s.position = .loop ∨ s.position = .txSsr

theorem Finished.next (h : Finished s)
    (step : ((machine σ κ).restrict timelyPhase).step s choice = some (s', es)) :
    Finished s' ∧ ∀ e ∈ es, e.isData = false := by
  obtain ⟨ok, step⟩ := Machine.restrict_step step
  obtain ⟨idle, ⟨rx, fifo, treq⟩, position⟩ := h
  cases choice with
  | isr answer =>
    have out : s.isr answer = (s', es) := Option.some.inj step
    rw [State.isr] at out
    rcases position with here | here
    · rw [here] at out
      simp only at out
      have next := dispatch_dispatched s
      rw [out] at next
      cases next with
      | byte pending => rw [rx] at pending; cases pending
      | request hw none cleared =>
        rcases cleared with rfl | rfl <;> exact ⟨⟨idle, ⟨rx, fifo, treq⟩, .inr rfl⟩, by simp⟩
      | skipped | nothing => exact ⟨⟨idle, ⟨rx, fifo, treq⟩, .inl here⟩, by simp⟩
      | start | stop =>
        refine ⟨⟨idle, ⟨rx, fifo, treq⟩, .inl here⟩, ?_⟩
        exact List.forall_mem_cons.mpr ⟨rfl, (plain_abort s.engine).noData⟩
    · rw [here] at out
      simp only [treq] at out
      cases out
      exact ⟨⟨idle, ⟨rx, fifo, treq⟩, .inl (by simp)⟩, by simp⟩
  | start read => simp [timelyPhase, inPhase] at ok
  | byte value => simp [machine, raise, rx, fifo, idle] at step
  | request done empty => simp [machine, raise, idle] at step
  | stop => simp [machine, raise, idle] at step
  | sent =>
    simp only [machine, Option.map_eq_some_iff, Prod.mk.injEq] at step
    obtain ⟨⟨hw, bus⟩, raised, rfl, rfl⟩ := step
    simp only [TargetIsr.raise, Option.ite_none_left_eq_some, Option.some.injEq,
      Prod.mk.injEq] at raised
    obtain ⟨-, rfl, rfl⟩ := raised
    exact ⟨⟨idle, ⟨rx, fifo, treq⟩, position⟩, by simp⟩

/-- A STOP is serviced when the data before it is. -/
theorem Phase.finishes (h : Phase s₁ during s) {answer : Bool} {l r : List (Event σ κ)}
    (data : ∃ e ∈ during, e.isBusData = true) (emitted : (s.isr answer).2 = l ++ .stopped :: r) :
    Finished (s.isr answer).1 ∧ ∀ e ∈ r, e.isData = false := by
  obtain ⟨loop, noStart, pending, rfl⟩ := stopped_isr emitted
  have idle := h.lateStop data pending
  obtain ⟨prehandled, unread, once, flagged, asked, fresh, receiving, writing, reading⟩ := h.sane
  rw [List.nil_append] at emitted
  rw [State.isr, loop] at emitted ⊢
  simp only at emitted ⊢
  have next := dispatch_dispatched s
  generalize s.dispatch = out at next emitted ⊢
  cases next with
  | stop none clear noStart pending =>
    have noByte := Option.not_isSome_iff_eq_none.mp (by grind : ¬s.hw.rxFifo.isSome = true)
    have noRequest : s.hw.treq = false := by grind -ring -linarith [Position.writes]
    refine ⟨⟨idle, ⟨none, noByte, noRequest⟩, .inl loop⟩, ?_⟩
    obtain rfl := (List.cons.inj emitted).2
    exact (plain_abort s.engine).noData
  | start | byte | request | skipped | nothing => simp at emitted

/-- After a STOP that follows data, no data is serviced any more. -/
def Closed (during : List (Event σ κ)) (s : State σ κ) : Prop :=
  ∀ pre post, during = pre ++ .stopped :: post → (∃ e ∈ pre, e.isBusData = true) →
    Finished s ∧ ∀ e ∈ post, e.isData = false

theorem Closed.next (h : Closed during s) (phase : Phase s₁ during s)
    (step : ((machine σ κ).restrict timelyPhase).step s choice = some (s', es)) :
    Closed (during ++ es) s' := by
  intro pre post split data
  rcases append_eq_split split with ⟨l, rfl, hes⟩ | ⟨rest, hduring, rfl⟩
  · -- the STOP is serviced by this step
    have access := (Machine.restrict_step step).2
    cases choice with
    | isr answer =>
      have out : s.isr answer = (s', es) := Option.some.inj access
      have emitted : (s.isr answer).2 = l ++ .stopped :: post := by rw [out, hes]
      obtain ⟨-, -, -, rfl⟩ := stopped_isr emitted
      rw [List.append_nil] at data
      have finished := phase.finishes data emitted
      rwa [out] at finished
    | _ =>
      simp only [machine, Option.map_eq_some_iff, Prod.mk.injEq] at access
      obtain ⟨⟨hw, bus⟩, -, -, rfl⟩ := access
      have member : (.stopped : Event σ κ) ∈ bus.map .bus := by simp [hes]
      simp at member
  · obtain ⟨finished, quiet⟩ := h pre rest hduring data
    obtain ⟨finished', quiet'⟩ := finished.next step
    refine ⟨finished', ?_⟩
    intro e he
    rcases List.mem_append.mp he with old | new
    · exact quiet e old
    · exact quiet' e new

/-! ## Decoding -/

theorem callAll_append (engine : TargetEngine σ κ) (cs ds : List TargetEngine.Call) :
    callAll engine (cs ++ ds) = ((callAll (callAll engine cs).1 ds).1,
      (callAll engine cs).2 ++ (callAll (callAll engine cs).1 ds).2) := by
  induction cs generalizing engine with
  | nil => rfl
  | cons c cs ih => simp only [List.cons_append, callAll, ih, List.append_assoc]

theorem serveAll_bytes {engine : TargetEngine σ κ} (receiving : engine.direction = .receive)
    (bytes : List (BitVec 8)) :
    serveAll engine (bytes.map .byte) = callAll engine (bytes.map (.receive · true)) := by
  induction bytes generalizing engine with
  | nil => rfl
  | cons value bytes ih =>
    have served : serve engine (.byte value) = engine.call (.receive value true) := by
      simp only [serve, ensure_same engine .receive .beginReceive receiving, List.nil_append]
    have still : (engine.call (.receive value true)).1.direction = .receive := by
      simp only [TargetEngine.call, TargetEngine.receive]
      split
      · exact receiving
      · split
        · exact receiving
        · split <;> exact receiving
    simp only [List.map_cons, serveAll, callAll, served, ih still]

theorem serveAll_requests {engine : TargetEngine σ κ} (transmitting : engine.direction = .transmit)
    (n : Nat) :
    serveAll engine (List.replicate n .request) = callAll engine (List.replicate n .transmit) := by
  induction n generalizing engine with
  | zero => rfl
  | succ n ih =>
    have served : serve engine .request = engine.call .transmit := by
      simp only [serve, ensure_same engine .transmit .beginTransmit transmitting, List.nil_append]
    have still : (engine.call .transmit).1.direction = .transmit := by
      rw [TargetEngine.transmit_read transmitting]
      exact transmitting
    simp only [List.replicate_succ, serveAll, callAll, served, ih still]

theorem serveAll_stops (engine : TargetEngine σ κ) (m : Nat) :
    serveAll engine (List.replicate m .stop) = callAll engine (List.replicate m .end) := by
  induction m generalizing engine with
  | zero => rfl
  | succ m ih => simp only [List.replicate_succ, serveAll, callAll, serve, ih]

/-- The first data event of a phase begins it. -/
theorem serve_begins (engine : TargetEngine σ κ) (value : BitVec 8) (rest : List Bus) :
    serveAll (engine.call .abort).1 (.byte value :: rest) =
      ((serveAll ((engine.call .abort).1.call .beginReceive).1 (.byte value :: rest)).1,
        ((engine.call .abort).1.call .beginReceive).2 ++
          (serveAll ((engine.call .abort).1.call .beginReceive).1 (.byte value :: rest)).2) ∧
    serveAll (engine.call .abort).1 (.request :: rest) =
      ((serveAll ((engine.call .abort).1.call .beginTransmit).1 (.request :: rest)).1,
        ((engine.call .abort).1.call .beginTransmit).2 ++
          (serveAll ((engine.call .abort).1.call .beginTransmit).1 (.request :: rest)).2) := by
  have idle : (engine.call .abort).1.direction = .idle := rfl
  have receiving : ((engine.call .abort).1.call .beginReceive).1.direction = .receive := rfl
  have transmitting : ((engine.call .abort).1.call .beginTransmit).1.direction = .transmit := rfl
  constructor
  · simp only [serveAll, serve, ensure, idle, receiving, ne_eq, reduceCtorEq, not_false_eq_true,
      not_true, if_true, if_false, List.nil_append, List.append_assoc]
  · simp only [serveAll, serve, ensure, idle, transmitting, ne_eq, reduceCtorEq, not_false_eq_true,
      not_true, if_true, if_false, List.nil_append, List.append_assoc]

theorem serveAll_write (engine : TargetEngine σ κ) {bytes : List (BitVec 8)} (some : bytes ≠ [])
    (m : Nat) :
    serveAll (engine.call .abort).1 (bytes.map .byte ++ List.replicate m .stop) =
      callAll (engine.call .abort).1
        (.beginReceive :: bytes.map (.receive · true) ++ List.replicate m .end) := by
  obtain ⟨value, bytes, rfl⟩ := List.exists_cons_of_ne_nil some
  have receiving : ((engine.call .abort).1.call .beginReceive).1.direction = .receive := rfl
  have begun : serveAll (engine.call .abort).1 ((value :: bytes).map .byte) =
      callAll (engine.call .abort).1 (.beginReceive :: (value :: bytes).map (.receive · true)) := by
    rw [List.map_cons, (serve_begins engine value _).1, ← List.map_cons, serveAll_bytes receiving]
    rfl
  rw [serveAll_append, callAll_append, begun, serveAll_stops]

theorem serveAll_read (engine : TargetEngine σ κ) {n : Nat} (some : 0 < n) (m : Nat) :
    serveAll (engine.call .abort).1 (List.replicate n .request ++ List.replicate m .stop) =
      callAll (engine.call .abort).1
        (.beginTransmit :: List.replicate n .transmit ++ List.replicate m .end) := by
  obtain ⟨n, rfl⟩ := Nat.exists_eq_add_one.mpr some
  have transmitting : ((engine.call .abort).1.call .beginTransmit).1.direction = .transmit := rfl
  have begun : serveAll (engine.call .abort).1 (List.replicate (n + 1) .request) =
      callAll (engine.call .abort).1 (.beginTransmit :: List.replicate (n + 1) .transmit) := by
    rw [List.replicate_succ, (serve_begins engine 0 _).2, ← List.replicate_succ,
      serveAll_requests transmitting]
    rfl
  rw [serveAll_append, callAll_append, begun, serveAll_stops]

/-- What was pending when the START became pending ends in a reset. -/
theorem pending_resets (sane : Sane s₁) (due : s₁.due = 1) (serviced : s₁.unserviced = false) :
    ∃ (engine : TargetEngine σ κ) (es : List (TargetEngine.Event σ κ)),
      serveAll s₁.engine s₁.pending = ((engine.call .abort).1,
        es ++ (engine.call .abort).2) := by
  obtain ⟨prehandled, unread, once, flagged, asked, fresh, receiving, writing, reading⟩ := sane
  have start : s₁.dueStart = [.start] := by
    unfold State.due at due
    simp [State.dueStart, show (s₁.hw.sstart && !s₁.startPrehandled) = true by grind]
  have noRequest : (s₁.hw.treq && !s₁.position.writes) = false := by grind -ring -linarith [State.unserviced]
  have later : s₁.dueLater = if s₁.hw.sstop then [.stop] else [] := by
    simp [State.dueLater, noRequest]
  obtain ⟨old, pending⟩ : ∃ old, s₁.pending = old ++ (.start :: s₁.dueLater) := by
    by_cases here : s₁.position = .rxData
    · exact ⟨s₁.hw.rxFifo.toList.map .byte, by simp [State.pending, here, start]⟩
    · have noByte := Option.not_isSome_iff_eq_none.mp
        (by grind -ring -linarith [State.unserviced] : ¬s₁.hw.rxFifo.isSome = true)
      exact ⟨[], by simp [State.pending, here, start, noByte]⟩
  rw [pending, later, serveAll_append]
  cases s₁.hw.sstop with
  | false => exact ⟨(serveAll s₁.engine old).1, (serveAll s₁.engine old).2, by simp [serveAll, serve]⟩
  | true =>
    refine ⟨((serveAll s₁.engine old).1.call .abort).1,
      (serveAll s₁.engine old).2 ++ ((serveAll s₁.engine old).1.call .abort).2, ?_⟩
    simp only [serveAll, serve, if_true, List.append_nil, List.append_assoc]
    rfl

theorem Phase.decoded (h : Phase s₁ during s) {engine : TargetEngine σ κ}
    {es : List (TargetEngine.Event σ κ)}
    (reset : serveAll s₁.engine s₁.pending = ((engine.call .abort).1, es ++ (engine.call .abort).2))
    {calls : List TargetEngine.Call}
    (served : serveAll (engine.call .abort).1 (busEvents during) =
      callAll (engine.call .abort).1 calls) : Decoded s₁ during s (.abort :: calls) := by
  have caught := h.caught
  have did := h.performed
  rw [serveAll_append, reset, served] at caught did
  refine ⟨engine, es, caught.symm, ?_⟩
  rw [← did]
  simp only [callAll, List.append_assoc]

/-! ## Every phase -/

/-- A byte is transmitted at `STXDATA`. -/
theorem transmitted_isr {answer : Bool} {value : BitVec 8} {l r : List (Event σ κ)}
    (emitted : (s.isr answer).2 = l ++ .engine (.transmitted value) :: r) :
    s.position.writes = true ∧ l = [] := by
  have member : .engine (.transmitted value) ∈ (s.isr answer).2 := by simp [emitted]
  have plain {es : List (Event σ κ)} (h : Plain es) : .engine (.transmitted value) ∉ es := by
    intro he
    obtain ⟨x, hx⟩ := h _ he
    cases hx
  have check : .engine (.transmitted value) ∉ s.beginIfStartPending.2 := by
    unfold State.beginIfStartPending
    split
    · intro he
      exact plain (plain_abort s.engine) ((List.mem_cons.mp he).resolve_left (by simp))
    · simp
  rw [State.isr] at emitted member
  cases here : s.position with
  | txData value' =>
    refine ⟨rfl, ?_⟩
    rw [here] at emitted
    cases l with
    | nil => rfl
    | cons x l => simp at emitted
  | loop =>
    rw [here] at member
    simp only at member
    have next := dispatch_dispatched s
    generalize s.dispatch = out at next member
    cases next with
    | start | stop =>
      exact absurd ((List.mem_cons.mp member).resolve_left (by simp)) (plain (plain_abort s.engine))
    | byte | request | skipped | nothing => cases member
  | rxCheck =>
    rw [here] at member
    rcases List.mem_append.mp member with left | right
    · exact absurd left check
    · exact absurd right (plain (plain_ensure _).1)
  | txCheck =>
    rw [here] at member
    rcases List.mem_append.mp member with left | right
    · exact absurd left check
    · rw [List.map_append] at right
      exact absurd right (plain ((plain_ensure _).2.append (plain_map _)))
  | rxData =>
    obtain ⟨es, result, events, rest⟩ := rxData_events s answer
    rw [here] at member
    simp only [events] at member
    rcases List.mem_append.mp member with left | right
    · exact absurd left (plain rest)
    · simp at right
  | txSsr =>
    rw [here] at member
    cases member

theorem run_phase (phase : Phase s₁ [] s₁)
    (run : ((machine σ κ).restrict timelyPhase).Run s₁ during s) :
    Phase s₁ during s ∧ Closed during s := by
  refine Machine.Run.invariant (P := fun during s => Phase s₁ during s ∧ Closed during s) ?_ ?_ run
  · exact ⟨phase, fun pre post split => by simp at split⟩
  · rintro during s choice es s' ⟨phase, closed⟩ step
    exact ⟨phase.next step, closed.next phase step⟩

/-- The phase's own data is serviced after the reset for its START. -/
theorem own_after_reset (phase : Phase s₁ [] s₁)
    (run : ((machine σ κ).restrict timelyPhase).Run s₁ during s) {pre post : List (Event σ κ)}
    {e : Event σ κ} (split : during = pre ++ e :: post) (own : OwnData pre e) : started pre = 1 := by
  obtain ⟨before, t, choice, es, t', l, r, run', step, hes, rfl⟩ := run.split split
  have there := (run_phase phase run').1
  have access := (Machine.restrict_step step).2
  have notBus : ∀ b, e ≠ .bus b := by
    rintro b rfl
    exact own
  cases choice with
  | isr answer =>
    have out : t.isr answer = (t', es) := Option.some.inj access
    have emitted : (t.isr answer).2 = l ++ e :: r := by rw [out, hes]
    have earlier (b : Bus) (hb : .bus b ∈ before ++ l) : .bus b ∈ before := by
      rcases List.mem_append.mp hb with old | new
      · exact old
      · exact absurd (by rw [emitted]; exact List.mem_append_left _ new) (bus_isr t answer b)
    have counts := there.counts
    cases e with
    | engine x =>
      cases x with
      | received result =>
        obtain ⟨value, own⟩ := own
        obtain ⟨here, plain⟩ := received_isr emitted
        have done := there.byteChecked here ⟨value, earlier _ own⟩
        rw [started_append, plain.started]
        omega
      | transmitted value =>
        obtain ⟨here, rfl⟩ := transmitted_isr emitted
        have done := there.requestChecked here (earlier _ own)
        rw [List.append_nil]
        omega
      | called | regmap => exact own.elim
    | bus | started | stopped => exact own.elim
  | _ =>
    simp only [machine, Option.map_eq_some_iff, Prod.mk.injEq] at access
    obtain ⟨⟨hw, bus⟩, -, -, rfl⟩ := access
    have member : e ∈ bus.map Event.bus := by rw [hes]; simp
    obtain ⟨b, -, rfl⟩ := List.mem_map.mp member
    exact absurd rfl (notBus b)

omit [DecidableEq σ] in
theorem OwnData.busData {pre : List (Event σ κ)} {e : Event σ κ} (own : OwnData pre e) :
    ∃ x ∈ pre, x.isBusData = true := by
  cases e with
  | engine x =>
    cases x with
    | received result =>
      obtain ⟨value, own⟩ := own
      exact ⟨_, own, rfl⟩
    | transmitted value => exact ⟨_, own, rfl⟩
    | called | regmap => exact own.elim
  | bus | started | stopped => exact own.elim

/-- **A START is applied once.** After any history, a START raised when no older
data waits for its check, in a phase whose data is raised when no STOP and no
START the handler has acted on is pending. -/
theorem start_applied {engine : TargetEngine σ κ} {s₀ : State σ κ} {read : Bool}
    (history : (machine σ κ).Run (initial engine) tr s₀)
    (start : ((machine σ κ).restrict timely).step s₀ (.start read) = some (s₁, es))
    (run : ((machine σ κ).restrict timelyPhase).Run s₁ during s) : AppliedOnce s₁ during s := by
  obtain ⟨ok, access⟩ := Machine.restrict_step start
  simp only [machine, Option.map_eq_some_iff, Prod.mk.injEq] at access
  obtain ⟨⟨hw, bus⟩, raised, rfl, rfl⟩ := access
  obtain ⟨sane, rfl, due⟩ := (run_flags history).start ok raised
  have serviced : State.unserviced { s₀ with hw } = false := by
    have unserviced : s₀.unserviced = false := by simpa [timely] using ok
    simp only [raise, Option.ite_none_left_eq_some, Option.some.injEq, Prod.mk.injEq] at raised
    obtain ⟨-, rfl, -⟩ := raised
    exact unserviced
  have first : Phase { s₀ with hw } [] { s₀ with hw } := by
    refine ⟨sane, by simp [started, due], by simp, by simp, by simp, ?_, ?_⟩
    · simp [busEvents, State.flush]
    · simp [busEvents, State.flush, performed]
  obtain ⟨phase, closed⟩ := run_phase first run
  obtain ⟨engine', older, reset⟩ := pending_resets sane due serviced
  refine ⟨phase.counts, fun pre e post split own => own_after_reset first run split own, ?_, ?_, ?_⟩
  · intro pre d mid reset' post split own isReset
    have split' : during = pre ++ d :: (mid ++ reset' :: post) := by simpa using split
    have one := own_after_reset first run split' own
    cases reset' with
    | started =>
      -- a second reset for the START would be counted
      have counts := phase.counts
      have again : started (.started :: post) = started post + 1 := List.countP_cons_of_pos rfl
      rw [split, started_append, started_append, one, again] at counts
      omega
    | stopped =>
      obtain ⟨x, hx, data⟩ := own.busData
      exact (closed (pre ++ d :: mid) post split ⟨x, by simp [hx], data⟩).2
    | bus | engine => cases isReset
  · intro bytes m some data
    refine phase.decoded reset ?_
    rw [data]
    exact serveAll_write engine' some m
  · intro n m some data
    refine phase.decoded reset ?_
    rw [data]
    exact serveAll_read engine' some m

/-! ## Runs of the sample engine -/

/-- The sample engine's bus after its first START, for a write. -/
def sampleStarted : State Unit Unit :=
  { initial TargetEngine.sample with
    hw := { (initial TargetEngine.sample).hw with sstart := true, busy := true } }

/-- The first byte is serviced while its START is still pending, the others
once it is not. -/
theorem start_applied_late : ∃ during s,
    (machine Unit Unit).Run (initial TargetEngine.sample) [] (initial TargetEngine.sample) ∧
    ((machine Unit Unit).restrict timely).step (initial TargetEngine.sample) (.start false) =
      some (sampleStarted, [.bus .start]) ∧
    ((machine Unit Unit).restrict timelyPhase).Run sampleStarted during s ∧
    busEvents during = [.byte 0x01, .byte 0x02, .byte 0x7f] ∧ started during = 1 ∧
    s.engine.regmap.regmap.currentAddress = 0x0103 ∧ AppliedOnce sampleStarted during s := by
  obtain ⟨s, during, run, shown⟩ := Machine.exec_shows ((machine Unit Unit).restrict timelyPhase)
    sampleStarted
    [.byte 0x01, .isr true, .isr true, .isr true, .isr true, .byte 0x02, .isr true, .isr true,
      .isr true, .byte 0x7f, .isr true, .isr true, .isr true]
    (fun reached => (busEvents reached.2, started reached.2,
      reached.1.engine.regmap.regmap.currentAddress))
    ([.byte 0x01, .byte 0x02, .byte 0x7f], 1, 0x0103) (by decide +kernel)
  simp only [Prod.mk.injEq] at shown
  obtain ⟨bus, once, pointer⟩ := shown
  exact ⟨during, s, .start, rfl, run, bus, once, pointer, start_applied .start rfl run⟩

/-- The second address byte arrives while the START that the first one was
checked for is still pending: the handler takes it for another START and the
pointer write is lost. -/
theorem start_applied_twice : ¬∀ (tr : List (Event Unit Unit)) s₀ s₁ es during s read,
    (machine Unit Unit).Run (initial TargetEngine.sample) tr s₀ →
    (machine Unit Unit).step s₀ (.start read) = some (s₁, es) →
    ((machine Unit Unit).restrict inPhase).Run s₁ during s → AppliedOnce s₁ during s := by
  intro applied
  obtain ⟨s, during, run, twice⟩ := Machine.exec_shows ((machine Unit Unit).restrict inPhase)
    sampleStarted
    [.byte 0x01, .isr true, .isr true, .isr true, .byte 0x02, .isr true, .isr true, .isr true,
      .isr true, .isr true]
    (fun reached => (started reached.2, reached.1.engine.regmap.regmap.currentAddress)) (2, 0x0000)
    (by decide +kernel)
  have once := (applied [] _ sampleStarted _ during s false .start rfl run).once
  rw [(Prod.mk.inj twice).1] at once
  omega

end MspmBaremetal.TargetIsr
