import MspmBaremetal.LateService

/-!
# Bus phases

What the handler does with each byte and each STOP, and the phase it does it
in. `phases_kept` says that every run with a timely bus keeps them in their own
phase; `restart_overtakes_byte` says that other runs do not.
-/

namespace MspmBaremetal.TargetIsr

variable {σ κ : Type*}

/-! ## Counting phases -/

/-- The STARTs on the bus. -/
def starts (tr : List (Event σ κ)) : Nat := (busEvents tr).count .start

/-- The STARTs the handler reset the engine for. -/
def started (tr : List (Event σ κ)) : Nat := tr.countP fun | .started => true | _ => false

def Event.isData : Event σ κ → Bool
  | .engine (.received _) | .engine (.transmitted _) => true
  | _ => false

/-- Data was received or transmitted since the engine was last reset for a START. -/
def dataSinceStart (tr : List (Event σ κ)) : Bool :=
  tr.foldl (fun data e => match e with | .started => false | e => data || e.isData) false

/-- A byte on the bus, or its receipt. -/
def Event.isByte : Event σ κ → Bool
  | .bus (.byte _) | .engine (.received _) => true
  | _ => false

/-- A STOP on the bus, or its service. -/
def Event.isStop : Event σ κ → Bool
  | .bus .stop | .stopped => true
  | _ => false

/-- `e` was on the bus after `n` STARTs, and nothing of its kind came after it. -/
def Newest (kind : Event σ κ → Bool) (tr : List (Event σ κ)) (e : Bus) (n : Nat) : Prop :=
  ∃ before after, tr = before ++ .bus e :: after ∧ (∀ x ∈ after, kind x = false) ∧
    starts before = n

/-- Register map events. -/
def Plain (es : List (Event σ κ)) : Prop := ∀ e ∈ es, ∃ x, e = .engine (.regmap x)

section

variable {kind : Event σ κ → Bool} {tr es : List (Event σ κ)} {e : Bus} {n : Nat}

theorem Newest.append (h : Newest kind tr e n) (quiet : ∀ x ∈ es, kind x = false) :
    Newest kind (tr ++ es) e n := by
  obtain ⟨before, after, rfl, none, count⟩ := h
  refine ⟨before, after ++ es, by simp, ?_, count⟩
  intro x hx
  rcases List.mem_append.mp hx with left | right
  · exact none x left
  · exact quiet x right

theorem newest_here : Newest kind (tr ++ [.bus e]) e (starts tr) :=
  ⟨tr, [], rfl, by simp, rfl⟩

theorem starts_append : starts (tr ++ es) = starts tr + starts es := by
  rw [starts, busEvents_append, List.count_append]
  rfl

theorem started_append : started (tr ++ es) = started tr + started es := List.countP_append

theorem Plain.starts (plain : Plain es) : starts es = 0 := by
  have none : busEvents es = [] := by
    apply List.filterMap_eq_nil_iff.mpr
    intro e he
    obtain ⟨x, rfl⟩ := plain e he
    rfl
  rw [TargetIsr.starts, none]
  rfl

theorem Plain.started (plain : Plain es) : started es = 0 := by
  apply List.countP_eq_zero.mpr
  intro e he
  obtain ⟨x, rfl⟩ := plain e he
  simp

theorem Plain.dataSinceStart (plain : Plain es) :
    dataSinceStart (tr ++ es) = dataSinceStart tr := by
  induction es generalizing tr with
  | nil => rw [List.append_nil]
  | cons e es ih =>
    obtain ⟨x, rfl⟩ := plain e List.mem_cons_self
    have first : TargetIsr.dataSinceStart (tr ++ [.engine (.regmap x)]) =
        TargetIsr.dataSinceStart tr := by
      simp [TargetIsr.dataSinceStart, Event.isData]
    rw [← List.singleton_append, ← List.append_assoc,
      ih fun e he => plain e (List.mem_cons_of_mem _ he), first]

theorem plain_map (es : List (Regmap.Event Unit σ κ)) :
    Plain ((es.map TargetEngine.Event.regmap).map Event.engine) := by
  intro e he
  simp only [List.map_map, List.mem_map, Function.comp_apply] at he
  obtain ⟨x, -, rfl⟩ := he
  exact ⟨x, rfl⟩

theorem Plain.append {fs : List (Event σ κ)} (h : Plain es) (h' : Plain fs) : Plain (es ++ fs) := by
  intro e he
  rcases List.mem_append.mp he with left | right
  · exact h e left
  · exact h' e right

end

variable [DecidableEq σ]

theorem plain_abort (engine : TargetEngine σ κ) :
    Plain ((engine.call .abort).2.map (Event.engine (σ := σ) (κ := κ))) := plain_map _

/-- A START came after the pending STOP, and no data after that START. -/
def Detached (tr : List (Event σ κ)) (s : State σ κ) : Prop :=
  s.unserviced = false ∧ ((s.hw.sstart = true ∧ s.startPrehandled = false) ∨
    (dataSinceStart tr = false ∧ s.position ≠ .rxData ∧ s.position.writes = false))

/-- The STARTs on the bus and in the engine, and where the unread byte and the
pending STOP stand among them. -/
structure Ledger (tr : List (Event σ κ)) (s : State σ κ) : Prop where
  starts : starts tr = started tr + if s.hw.sstart && !s.startPrehandled then 1 else 0
  byte : ∀ value, s.hw.rxFifo = some value → Newest Event.isByte tr (.byte value)
    (if s.position = .rxData then started tr else TargetIsr.starts tr)
  stop : s.hw.sstop = true →
    ∃ n, Newest Event.isStop tr .stop n ∧ (n = TargetIsr.starts tr ∨ Detached tr s)

variable {tr : List (Event σ κ)} {s : State σ κ}

omit [DecidableEq σ] in
theorem started_bus (es : List Bus) : started (tr ++ es.map Event.bus) = started tr := by
  have none : started (es.map Event.bus : List (Event σ κ)) = 0 := by
    apply List.countP_eq_zero.mpr
    intro e he
    obtain ⟨x, -, rfl⟩ := List.mem_map.mp he
    simp
  rw [started_append, none, Nat.add_zero]

omit [DecidableEq σ] in
theorem starts_bus (es : List Bus) :
    starts (tr ++ es.map Event.bus) = starts tr + es.count .start := by
  rw [starts_append, starts, starts, busEvents_bus]

omit [DecidableEq σ] in
/-- What moves no START, no byte and no STOP keeps the ledger. -/
theorem Ledger.keep (h : Ledger tr s) {s' : State σ κ} {es : List (Event σ κ)}
    (noStart : TargetIsr.starts es = 0) (noStarted : started es = 0)
    (quiet : ∀ e ∈ es, e.isByte = false ∧ e.isStop = false)
    (due : (s'.hw.sstart && !s'.startPrehandled) = (s.hw.sstart && !s.startPrehandled))
    (fifo : s'.hw.rxFifo = s.hw.rxFifo) (position : s'.position = .rxData ↔ s.position = .rxData)
    (sstop : s'.hw.sstop = s.hw.sstop) (detached : Detached tr s → Detached (tr ++ es) s') :
    Ledger (tr ++ es) s' := by
  obtain ⟨counts, byte, stop⟩ := h
  have sameStarts : TargetIsr.starts (tr ++ es) = TargetIsr.starts tr := by
    rw [starts_append, noStart, Nat.add_zero]
  have sameStarted : started (tr ++ es) = started tr := by
    rw [started_append, noStarted, Nat.add_zero]
  constructor
  · rw [sameStarts, sameStarted, due, counts]
  · intro value hvalue
    rw [fifo] at hvalue
    simp only [sameStarts, sameStarted, position]
    exact (byte value hvalue).append fun e he => (quiet e he).1
  · intro pending
    rw [sstop] at pending
    obtain ⟨n, newest, place⟩ := stop pending
    refine ⟨n, newest.append fun e he => (quiet e he).2, ?_⟩
    rcases place with same | detached'
    · exact .inl (same.trans sameStarts.symm)
    · exact .inr (detached detached')

omit [DecidableEq σ] in
theorem Ledger.raise (h : Ledger tr s) (sane : Sane s) {choice : Choice} {hw : Peripheral}
    {es : List Bus} (ok : timely s choice = true)
    (raised : TargetIsr.raise s.hw choice = some (hw, es)) :
    Ledger (tr ++ es.map .bus) { s with hw } := by
  obtain ⟨counts, byte, stop⟩ := h
  cases sane.raised ok raised with
  | start read unseen new serviced emptied =>
    constructor
    · rw [starts_bus, started_bus]
      simp_all
    · intro value hvalue
      have here : s.position = .rxData := by
        by_contra elsewhere
        cases (emptied elsewhere).symm.trans hvalue
      have newest := byte value hvalue
      rw [if_pos here] at newest ⊢
      rw [started_bus]
      exact newest.append (by simp [Event.isByte])
    · intro pending
      obtain ⟨n, newest, -⟩ := stop pending
      exact ⟨n, newest.append (by simp [Event.isStop]), .inr ⟨serviced, .inl ⟨rfl, new⟩⟩⟩
  | byte value room elsewhere idle noStop =>
    constructor
    · rw [starts_bus, started_bus]
      exact counts
    · intro value' hvalue
      cases hvalue
      rw [if_neg elsewhere, starts_bus]
      exact newest_here
    · intro pending
      rw [noStop] at pending
      cases pending
  | request done empty idle waiting emptied noStop =>
    constructor
    · rw [starts_bus, started_bus]
      exact counts
    · intro value hvalue
      simp only [starts_bus, started_bus]
      exact (byte value hvalue).append (by simp [Event.isByte])
    · intro pending
      rw [noStop] at pending
      cases pending
  | sent =>
    refine Ledger.keep ⟨counts, byte, stop⟩ rfl rfl (by simp) rfl rfl .rfl rfl ?_
    rw [List.map_nil, List.append_nil]
    exact id
  | stop unseen =>
    constructor
    · rw [starts_bus, started_bus]
      exact counts
    · intro value hvalue
      simp only [starts_bus, started_bus]
      exact (byte value hvalue).append (by simp [Event.isByte])
    · intro pending
      refine ⟨TargetIsr.starts tr, newest_here, .inl ?_⟩
      rw [starts_bus]
      rfl

omit [DecidableEq σ] in
theorem Plain.quiet {es : List (Event σ κ)} (plain : Plain es) :
    ∀ e ∈ es, e.isByte = false ∧ e.isStop = false := by
  intro e he
  obtain ⟨x, rfl⟩ := plain e he
  exact ⟨rfl, rfl⟩

omit [DecidableEq σ] in
/-- The events of a reset of the engine for a START. -/
theorem Plain.reset {es : List (Event σ κ)} (plain : Plain es) (tr : List (Event σ κ)) :
    TargetIsr.starts (tr ++ .started :: es) = TargetIsr.starts tr ∧
    TargetIsr.started (tr ++ .started :: es) = TargetIsr.started tr + 1 ∧
    TargetIsr.dataSinceStart (tr ++ .started :: es) = false ∧
    ∀ e ∈ (.started :: es : List (Event σ κ)), e.isByte = false ∧ e.isStop = false := by
  rw [← List.singleton_append, ← List.append_assoc]
  refine ⟨?_, ?_, ?_, ?_⟩
  · rw [starts_append, starts_append, plain.starts]
    rfl
  · rw [started_append, started_append, plain.started]
    rfl
  · rw [plain.dataSinceStart, TargetIsr.dataSinceStart, List.foldl_append]
    rfl
  · intro e he
    rcases List.mem_append.mp he with left | right
    · obtain rfl := List.mem_singleton.mp left
      exact ⟨rfl, rfl⟩
    · exact plain.quiet e right

theorem Ledger.dispatch (h : Ledger tr s) (loop : s.position = .loop) :
    Ledger (tr ++ s.dispatch.2) s.dispatch.1 := by
  have next := dispatch_dispatched s
  generalize s.dispatch = out at next ⊢
  have elsewhere : s.position ≠ .rxData := by simp [loop]
  cases next with
  | byte pending =>
    refine h.keep rfl rfl (by simp) rfl rfl (by simp [loop]) rfl ?_
    rintro ⟨serviced, -⟩
    simp [State.unserviced, pending] at serviced
  | request hw none cleared =>
    have same : hw.sstart = s.hw.sstart ∧ hw.rxFifo = s.hw.rxFifo ∧ hw.sstop = s.hw.sstop ∧
        hw.treq = s.hw.treq ∧ hw.srxdone = s.hw.srxdone := by
      rcases cleared with rfl | rfl <;> simp
    obtain ⟨start, fifo, stop, request, rx⟩ := same
    refine h.keep rfl rfl (by simp) (by rw [start]) fifo (by simp [loop]) stop ?_
    rw [List.append_nil]
    grind -ring -linarith [Detached, State.unserviced, Position.writes]
  | skipped none idle pending acted =>
    refine h.keep rfl rfl (by simp) (by simp [acted]) rfl .rfl rfl ?_
    rw [List.append_nil]
    grind -ring -linarith [Detached, State.unserviced]
  | start none idle pending new =>
    obtain ⟨counts, byte, stop⟩ := h
    obtain ⟨sameStarts, oneStarted, noData, quiet⟩ := (plain_abort s.engine).reset tr
    constructor
    · rw [sameStarts, oneStarted, counts]
      simp [pending, new]
    · intro value hvalue
      rw [if_neg elsewhere, sameStarts]
      have newest := byte value hvalue
      rw [if_neg elsewhere] at newest
      exact newest.append fun e he => (quiet e he).1
    · intro hstop
      obtain ⟨n, newest, place⟩ := stop hstop
      refine ⟨n, newest.append fun e he => (quiet e he).2, ?_⟩
      rw [sameStarts]
      rcases place with same | ⟨serviced, -⟩
      · exact .inl same
      · exact .inr ⟨serviced, .inr ⟨noData, elsewhere, by simp [loop, Position.writes]⟩⟩
  | stop none idle noStart pending =>
    obtain ⟨counts, byte, -⟩ := h
    have plain : Plain ((s.engine.call .end).2.map Event.engine) := plain_abort s.engine
    rw [← List.singleton_append, ← List.append_assoc]
    constructor
    · rw [starts_append, started_append, plain.starts, plain.started, starts_append, started_append,
        counts]
      simp [noStart, TargetIsr.starts, busEvents, started]
    · intro value hvalue
      have newest := byte value hvalue
      rw [if_neg elsewhere] at newest
      rw [if_neg elsewhere, starts_append, starts_append, plain.starts]
      exact (newest.append (by simp [Event.isByte])).append fun e he => (plain.quiet e he).1
    · intro pending
      cases pending
  | nothing none noStart => simpa using h

/-- The check for a pending START brings the engine's count up to the bus's. -/
theorem beginIfStartPending_counts (h : Ledger tr s) (sane : Sane s)
    (unserviced : s.unserviced = true) :
    TargetIsr.starts (tr ++ s.beginIfStartPending.2) = TargetIsr.starts tr ∧
    started (tr ++ s.beginIfStartPending.2) = TargetIsr.starts tr ∧
    ∀ e ∈ s.beginIfStartPending.2, e.isByte = false ∧ e.isStop = false := by
  have new := sane.fresh unserviced
  have counts := h.starts
  unfold State.beginIfStartPending
  by_cases start : s.hw.sstart = true
  · rw [if_pos start]
    obtain ⟨sameStarts, oneStarted, -, quiet⟩ := (plain_abort s.engine).reset tr
    refine ⟨sameStarts, ?_, quiet⟩
    rw [counts, start, new]
    exact oneStarted
  · rw [if_neg start, List.append_nil]
    refine ⟨rfl, ?_, by simp⟩
    rw [counts]
    simp [start]

theorem plain_ensure (engine : TargetEngine σ κ) :
    Plain ((ensure engine .receive .beginReceive).2.map Event.engine) ∧
    Plain ((ensure engine .transmit .beginTransmit).2.map Event.engine) := by
  have none : Plain (([] : List (TargetEngine.Event σ κ)).map Event.engine) := by simp [Plain]
  unfold ensure
  constructor
  · split
    · exact plain_map _
    · exact none
  · split
    · exact plain_map _
    · exact none

/-- A check for a pending START, with the engine calls `es` after it. -/
theorem Ledger.checked (h : Ledger tr s) (sane : Sane s) (unserviced : s.unserviced = true)
    {next : Step σ κ} {es : List (Event σ κ)} (plain : Plain es)
    (events : next.2 = s.beginIfStartPending.2 ++ es) (elsewhere : s.position ≠ .rxData)
    (hw : next.1.hw = s.hw)
    (acted : next.1.startPrehandled = (s.hw.sstart || s.startPrehandled)) :
    Ledger (tr ++ next.2) next.1 := by
  obtain ⟨sameStarts, counts, quiet⟩ := beginIfStartPending_counts h sane unserviced
  have quiet' : ∀ e ∈ next.2, e.isByte = false ∧ e.isStop = false := by
    intro e he
    rw [events] at he
    rcases List.mem_append.mp he with left | right
    · exact quiet e left
    · exact plain.quiet e right
  have starts' : TargetIsr.starts (tr ++ next.2) = TargetIsr.starts tr := by
    rw [events, ← List.append_assoc, starts_append, plain.starts, sameStarts, Nat.add_zero]
  have started' : started (tr ++ next.2) = TargetIsr.starts tr := by
    rw [events, ← List.append_assoc, started_append, plain.started, counts, Nat.add_zero]
  constructor
  · rw [starts', started', hw, acted]
    cases start : s.hw.sstart <;> simp
  · intro value hvalue
    rw [hw] at hvalue
    have newest := h.byte value hvalue
    rw [if_neg elsewhere] at newest
    rw [starts', started', ite_self]
    exact newest.append fun e he => (quiet' e he).1
  · intro pending
    rw [hw] at pending
    obtain ⟨n, newest, place⟩ := h.stop pending
    refine ⟨n, newest.append fun e he => (quiet' e he).2, ?_⟩
    rcases place with same | ⟨serviced, -⟩
    · exact .inl (same.trans starts'.symm)
    · rw [unserviced] at serviced
      cases serviced

theorem Ledger.rxCheck (h : Ledger tr s) (sane : Sane s) (here : s.position = .rxCheck) :
    Ledger (tr ++ s.rxCheck.2) s.rxCheck.1 := by
  obtain ⟨hw, -, acted⟩ := beginIfStartPending_fields s
  exact h.checked sane (by simp [State.unserviced, here])
    (plain_ensure s.beginIfStartPending.1.engine).1 rfl (by simp [here]) hw acted

theorem Ledger.txCheck (h : Ledger tr s) (sane : Sane s) (here : s.position = .txCheck) :
    Ledger (tr ++ s.txCheck.2) s.txCheck.1 := by
  obtain ⟨hw, -, acted⟩ := beginIfStartPending_fields s
  have unserviced : s.unserviced = true := by
    simp [State.unserviced, here, sane.asked (.inl here), Position.writes]
  have plain := (plain_ensure s.beginIfStartPending.1.engine).2.append (plain_map
    (ensure s.beginIfStartPending.1.engine .transmit .beginTransmit).1.transmit.2.1)
  refine h.checked sane unserviced plain ?_ (by simp [here]) hw acted
  simp only [State.txCheck, List.map_append]

/-- The events of a receipt: register map events, then the receipt itself. -/
theorem rxData_events (s : State σ κ) (answer : Bool) :
    ∃ es result, (s.rxData answer).2 = es ++ [.engine (.received result)] ∧ Plain es := by
  refine ⟨_, (s.engine.receive (s.hw.rxFifo.getD 0) answer).2.2, ?_,
    plain_map (s.engine.receive (s.hw.rxFifo.getD 0) answer).2.1⟩
  simp only [State.rxData, State.call, TargetEngine.call, List.map_append, List.map_cons,
    List.map_nil]

theorem Ledger.rxData (h : Ledger tr s) (here : s.position = .rxData) (answer : Bool) :
    Ledger (tr ++ (s.rxData answer).2) (s.rxData answer).1 := by
  obtain ⟨es, result, events, plain⟩ := rxData_events s answer
  obtain ⟨counts, -, stop⟩ := h
  have sameStarts : TargetIsr.starts (tr ++ (s.rxData answer).2) = TargetIsr.starts tr := by
    rw [events, ← List.append_assoc, starts_append, starts_append, plain.starts]
    rfl
  have sameStarted : started (tr ++ (s.rxData answer).2) = started tr := by
    rw [events, ← List.append_assoc, started_append, started_append, plain.started]
    rfl
  constructor
  · rw [sameStarts, sameStarted]
    exact counts
  · intro value hvalue
    cases hvalue
  · intro pending
    obtain ⟨n, newest, place⟩ := stop pending
    refine ⟨n, ?_, ?_⟩
    · rw [events, ← List.append_assoc]
      exact (newest.append fun e he => (plain.quiet e he).2).append (by simp [Event.isStop])
    · rw [sameStarts]
      rcases place with same | ⟨serviced, ⟨start, new⟩ | ⟨-, elsewhere, -⟩⟩
      · exact .inl same
      · refine .inr ⟨?_, .inl ⟨start, new⟩⟩
        simpa [State.unserviced, State.rxData, State.call, here, Position.writes] using serviced
      · exact absurd here elsewhere

omit [DecidableEq σ] in
theorem Ledger.txSsr (h : Ledger tr s) (here : s.position = .txSsr) :
    Ledger (tr ++ []) { s with position := if s.hw.treq then .txCheck else .loop } := by
  refine h.keep rfl rfl (by simp) rfl rfl ?_ rfl ?_
  · cases s.hw.treq <;> simp [here]
  · rw [List.append_nil]
    cases request : s.hw.treq <;> grind -ring -linarith [Detached, State.unserviced, Position.writes]

omit [DecidableEq σ] in
theorem Ledger.txData (h : Ledger tr s) {value : BitVec 8} (here : s.position = .txData value) :
    Ledger (tr ++ [.engine (.transmitted value)])
      { s with hw := { s.hw with treq := false }, position := .loop } := by
  refine h.keep rfl rfl (by simp [Event.isByte, Event.isStop]) rfl rfl (by simp [here]) rfl ?_
  rintro ⟨serviced, ⟨start, new⟩ | ⟨-, -, written⟩⟩
  · refine ⟨?_, .inl ⟨start, new⟩⟩
    simpa [State.unserviced, here, Position.writes] using serviced
  · rw [here] at written
    cases written

theorem Ledger.isr (h : Ledger tr s) (sane : Sane s) (answer : Bool) :
    Ledger (tr ++ (s.isr answer).2) (s.isr answer).1 := by
  unfold State.isr
  cases here : s.position with
  | loop => exact h.dispatch here
  | rxCheck => exact h.rxCheck sane here
  | rxData => exact h.rxData here answer
  | txSsr => exact h.txSsr here
  | txCheck => exact h.txCheck sane here
  | txData value => exact h.txData here

/-! ## Timely runs -/

/-- The flags, the ledger, and an engine that is one service of everything
pending behind the bus. -/
structure Behind (start : TargetEngine σ κ) (tr : List (Event σ κ)) (s : State σ κ) : Prop where
  sane : Sane s
  ledger : Ledger tr s
  caught : serveAll start (busEvents tr) = (s.flush.1, performed tr ++ s.flush.2)

omit [DecidableEq σ] in
theorem busEvents_engine (es : List (TargetEngine.Event σ κ)) :
    busEvents (es.map Event.engine) = [] := by
  apply List.filterMap_eq_nil_iff.mpr
  intro e he
  obtain ⟨x, -, rfl⟩ := List.mem_map.mp he
  rfl

theorem busEvents_check (s : State σ κ) : busEvents s.beginIfStartPending.2 = [] := by
  unfold State.beginIfStartPending
  split
  · exact busEvents_engine (s.engine.call .abort).2
  · rfl

theorem busEvents_dispatch (s : State σ κ) : busEvents s.dispatch.2 = [] := by
  have next := dispatch_dispatched s
  generalize s.dispatch = out at next ⊢
  cases next with
  | start => exact busEvents_engine (s.engine.call .abort).2
  | stop => exact busEvents_engine (s.engine.call .end).2
  | byte | request | skipped | nothing => rfl

/-- The handler raises nothing on the bus. -/
theorem busEvents_isr (s : State σ κ) (answer : Bool) : busEvents (s.isr answer).2 = [] := by
  unfold State.isr
  cases s.position with
  | loop => exact busEvents_dispatch s
  | rxCheck => simp only [State.rxCheck, busEvents_append, busEvents_check, busEvents_engine, List.append_nil]
  | rxData => exact busEvents_engine _
  | txSsr => rfl
  | txCheck => simp only [State.txCheck, busEvents_append, busEvents_check, busEvents_engine, List.append_nil]
  | txData value => rfl

theorem Behind.step {start : TargetEngine σ κ} (h : Behind start tr s) {choice : Choice}
    {es : List (Event σ κ)} {s' : State σ κ}
    (step : ((machine σ κ).restrict timely).step s choice = some (s', es)) :
    Behind start (tr ++ es) s' := by
  obtain ⟨ok, step⟩ := Machine.restrict_step step
  obtain ⟨sane, ledger, caught⟩ := h
  cases choice with
  | isr answer =>
    have out : s.isr answer = (s', es) := Option.some.inj step
    have goes := sane.goes answer
    have quiet := busEvents_isr s answer
    have sane' := sane.isr answer
    have ledger' := ledger.isr sane answer
    rw [out] at goes quiet sane' ledger'
    refine ⟨sane', ledger', ?_⟩
    rw [busEvents_append, quiet, List.append_nil, caught, performed_append, goes,
      List.append_assoc]
  | _ =>
    simp only [machine, Option.map_eq_some_iff, Prod.mk.injEq] at step
    obtain ⟨⟨hw, bus⟩, raised, rfl, rfl⟩ := step
    refine ⟨sane.raise ok raised, ledger.raise sane ok raised, ?_⟩
    have later := serveAll_raise sane ok raised
    rw [busEvents_append, busEvents_bus, serveAll_append, caught, performed_append, performed_bus,
      List.append_nil]
    simp only [State.flush, later, serveAll_append, List.append_assoc]

theorem quiet_abort (engine : TargetEngine σ κ) :
    ∀ e ∈ (.started :: (engine.call .abort).2.map .engine : List (Event σ κ)),
      e.isByte = false ∧ e.isStop = false :=
  ((plain_abort engine).reset []).2.2.2

/-- The checks, and the accesses around a transmitted byte, neither receive a
byte nor service a STOP. -/
theorem quiet_isr (notLoop : s.position ≠ .loop) (notData : s.position ≠ .rxData) (answer : Bool) :
    ∀ e ∈ (s.isr answer).2, e.isByte = false ∧ e.isStop = false := by
  have check : ∀ e ∈ s.beginIfStartPending.2, e.isByte = false ∧ e.isStop = false := by
    unfold State.beginIfStartPending
    split
    · exact quiet_abort s.engine
    · simp
  unfold State.isr
  cases here : s.position with
  | loop => exact absurd here notLoop
  | rxData => exact absurd here notData
  | txSsr => simp
  | txData value => simp [Event.isByte, Event.isStop]
  | rxCheck =>
    intro e he
    rcases List.mem_append.mp he with left | right
    · exact check e left
    · exact (plain_ensure _).1.quiet e right
  | txCheck =>
    intro e he
    rcases List.mem_append.mp he with left | right
    · exact check e left
    · rw [List.map_append] at right
      exact ((plain_ensure _).2.append (plain_map _)).quiet e right

/-- A byte is received at `SRXDATA`, after its register map events. -/
theorem received_isr {answer result : Bool} {l r : List (Event σ κ)}
    (emitted : (s.isr answer).2 = l ++ .engine (.received result) :: r) :
    s.position = .rxData ∧ Plain l := by
  have member : .engine (.received result) ∈ (s.isr answer).2 := by simp [emitted]
  by_cases data : s.position = .rxData
  · refine ⟨data, ?_⟩
    obtain ⟨es, result', events, plain⟩ := rxData_events s answer
    have out : (s.isr answer).2 = es ++ [.engine (.received result')] := by
      rw [← events, State.isr, data]
    rw [emitted] at out
    rcases List.append_eq_append_iff.mp out with ⟨a, rfl, rest⟩ | ⟨c, rfl, rest⟩
    · exact fun e he => plain e (List.mem_append_left a he)
    · cases c with
      | nil => simpa using plain
      | cons x c => simp at rest
  · by_cases loop : s.position = .loop
    · have next := dispatch_dispatched s
      rw [State.isr, loop] at member
      simp only at member
      generalize s.dispatch = out at next member
      cases next with
      | start => simpa [Event.isByte] using (quiet_abort s.engine _ member).1
      | stop =>
        obtain ⟨x, hx⟩ :=
          plain_abort s.engine _ ((List.mem_cons.mp member).resolve_left (by simp))
        cases hx
      | byte | request | skipped | nothing => cases member
    · simpa [Event.isByte] using (quiet_isr loop data answer _ member).1

/-- A STOP is serviced when no START is pending. -/
theorem stopped_isr {answer : Bool} {l r : List (Event σ κ)}
    (emitted : (s.isr answer).2 = l ++ .stopped :: r) :
    s.position = .loop ∧ s.hw.sstart = false ∧ s.hw.sstop = true ∧ l = [] := by
  have member : .stopped ∈ (s.isr answer).2 := by simp [emitted]
  by_cases loop : s.position = .loop
  · have next := dispatch_dispatched s
    rw [State.isr, loop] at member emitted
    simp only at member emitted
    generalize s.dispatch = out at next member emitted
    cases next with
    | start => simpa [Event.isStop] using (quiet_abort s.engine _ member).2
    | stop none idle noStart pending =>
      refine ⟨loop, noStart, pending, ?_⟩
      cases l with
      | nil => rfl
      | cons x l =>
        obtain ⟨-, rest⟩ := List.cons.inj emitted
        obtain ⟨x, hx⟩ := plain_abort s.engine .stopped (by
          rw [show (s.engine.call .abort) = s.engine.call .end from rfl, rest]
          simp)
        cases hx
    | byte | request | skipped | nothing => cases member
  · by_cases data : s.position = .rxData
    · obtain ⟨es, result', events, plain⟩ := rxData_events s answer
      rw [State.isr, data] at member
      simp only [events, List.mem_append, List.mem_singleton, reduceCtorEq, or_false] at member
      obtain ⟨x, hx⟩ := plain _ member
      cases hx
    · simpa [Event.isStop] using (quiet_isr loop data answer _ member).2

/-- Nothing is pending and the handler is not in the middle of anything. -/
def State.settled (s : State σ κ) : Bool := s.pending == [] && s.position == .loop

/-- Every byte and every STOP is serviced in its own phase, and the engine does
what prompt service of the bus would have it do. -/
structure PhasesKept (start : TargetEngine σ κ) (tr : List (Event σ κ)) (s : State σ κ) : Prop where
  /-- When a byte is received, the engine was reset for just the STARTs before
  that byte. -/
  bytes : ∀ pre result post, tr = pre ++ .engine (.received result) :: post →
    ∃ value, Newest Event.isByte pre (.byte value) (started pre)
  /-- When a STOP is serviced, the engine was reset for just the STARTs before
  that STOP, or no data was serviced since the last reset. -/
  stops : ∀ pre post, tr = pre ++ .stopped :: post →
    ∃ n, Newest Event.isStop pre .stop n ∧ (n = started pre ∨ dataSinceStart pre = false)
  /-- Servicing what is pending gives what prompt service gives. -/
  caught : serveAll start (busEvents tr) = (s.flush.1, performed tr ++ s.flush.2)
  settled : s.settled = true → serveAll start (busEvents tr) = (s.engine, performed tr)

theorem run_behind {start : TargetEngine σ κ}
    (run : ((machine σ κ).restrict timely).Run (initial start) tr s) : Behind start tr s := by
  apply run.invariant (P := fun tr s => Behind start tr s)
  · refine ⟨?_, ?_, rfl⟩
    · constructor <;> simp [initial, State.unserviced, Position.writes]
    · constructor <;> simp [initial, starts, started, busEvents]
  · intro tr s choice es s' h step
    exact h.step step

/-- What is not on the bus, the handler did. -/
theorem step_isr {choice : Choice} {s' : State σ κ} {es l r : List (Event σ κ)} {e : Event σ κ}
    (step : ((machine σ κ).restrict timely).step s choice = some (s', es)) (split : es = l ++ e :: r)
    (done : ∀ b, e ≠ .bus b) : ∃ answer, s.isr answer = (s', es) := by
  obtain ⟨-, step⟩ := Machine.restrict_step step
  cases choice with
  | isr answer => exact ⟨answer, Option.some.inj step⟩
  | _ =>
    simp only [machine, Option.map_eq_some_iff, Prod.mk.injEq] at step
    obtain ⟨⟨hw, bus⟩, -, -, rfl⟩ := step
    have member : e ∈ bus.map Event.bus := by simp only [split, List.mem_append, List.mem_cons, true_or, or_true]
    obtain ⟨b, -, rfl⟩ := List.mem_map.mp member
    exact absurd rfl (done b)

/-- **Timely bus phases are kept.** However late the handler runs, it services
every byte and every STOP in its own phase, as long as the bus is timely. -/
theorem phases_kept {start : TargetEngine σ κ}
    (run : ((machine σ κ).restrict timely).Run (initial start) tr s) : PhasesKept start tr s := by
  have behind := run_behind run
  refine ⟨?_, ?_, behind.caught, ?_⟩
  · intro pre result post htr
    obtain ⟨before, s₁, choice, es, s₂, l, r, run₁, step, split, rfl⟩ := run.split htr
    obtain ⟨sane, ledger, -⟩ := run_behind run₁
    obtain ⟨answer, out⟩ := step_isr step split (by simp)
    obtain ⟨here, plain⟩ := received_isr (by rw [out, split])
    obtain ⟨value, byte⟩ := Option.isSome_iff_exists.mp (sane.unread.mpr (.inr (.inr here)))
    have newest := ledger.byte value byte
    rw [if_pos here] at newest
    refine ⟨value, ?_⟩
    rw [started_append, plain.started, Nat.add_zero]
    exact newest.append fun e he => (plain.quiet e he).1
  · intro pre post htr
    obtain ⟨before, s₁, choice, es, s₂, l, r, run₁, step, split, rfl⟩ := run.split htr
    obtain ⟨sane, ledger, -⟩ := run_behind run₁
    obtain ⟨answer, out⟩ := step_isr step split (by simp)
    obtain ⟨loop, noStart, pending, rfl⟩ := stopped_isr (by rw [out, split])
    have counts := ledger.starts
    rw [noStart] at counts
    obtain ⟨n, newest, place⟩ := ledger.stop pending
    rw [List.append_nil]
    refine ⟨n, newest, ?_⟩
    rcases place with same | ⟨-, ⟨start', -⟩ | ⟨noData, -⟩⟩
    · exact .inl (same.trans counts)
    · rw [noStart] at start'
      cases start'
    · exact .inr noData
  · intro settled
    simp only [State.settled, Bool.and_eq_true, beq_iff_eq] at settled
    rw [behind.caught, State.flush, settled.1, settled.2]
    simp [serveAll, Position.unwritten]

/-! ## Runs of the sample engine -/

/-- A pointer write serviced late, then a read. -/
theorem phases_kept_late : ∃ tr s,
    ((machine Unit Unit).restrict timely).Run (initial TargetEngine.sample) tr s ∧
    s.engine.regmap.regmap.currentAddress = 0x0103 ∧ s.settled = true ∧
    PhasesKept TargetEngine.sample tr s := by
  obtain ⟨s, tr, run, shown⟩ := Machine.exec_shows ((machine Unit Unit).restrict timely)
    (initial TargetEngine.sample)
    [.start false, .byte 0x01, .isr true, .isr true, .isr true, .isr true, .byte 0x02, .isr true,
      .isr true, .start true, .isr true, .request true true, .isr true, .isr true, .isr true,
      .isr true, .stop, .isr true, .isr true, .isr true, .isr true]
    (fun reached => (reached.1.engine.regmap.regmap.currentAddress, reached.1.settled))
    (0x0103, true) (by decide +kernel)
  obtain ⟨pointer, settled⟩ := Prod.mk.inj shown
  exact ⟨tr, s, run, pointer, settled, phases_kept run⟩

/-- A repeated START that becomes pending before the low address byte is
serviced discards the whole address phase: the byte counts as the high byte of
the next one, and the read starts at the old pointer. -/
theorem restart_overtakes_byte : ¬∀ tr s,
    (machine Unit Unit).Run (initial TargetEngine.sample) tr s → PhasesKept TargetEngine.sample tr s := by
  intro kept
  obtain ⟨s, tr, run, shown⟩ := Machine.exec_shows (machine Unit Unit)
    (initial TargetEngine.sample)
    [.start false, .isr true, .byte 0x01, .isr true, .isr true, .isr true, .byte 0x02, .start true,
      .isr true, .isr true, .isr true, .isr true]
    (fun reached => (reached.1.engine.regmap.regmap.currentAddress, reached.1.settled,
      (serveAll TargetEngine.sample (busEvents reached.2)).1.regmap.regmap.currentAddress))
    (0x0000, true, 0x0102) (by decide +kernel)
  simp only [Prod.mk.injEq] at shown
  obtain ⟨pointer, settled, prompt⟩ := shown
  rw [(kept tr s run).settled settled, pointer] at prompt
  cases prompt

end MspmBaremetal.TargetIsr
