import MspmBaremetal.TargetIsr

/-!
# Late interrupts

The handler infers from a pending START flag that the data it is about to
service belongs to the new phase. `timely` is a condition on the bus under
which that inference is right: then the handler, whatever its delay, services
what is `pending` in bus order (`serveAll_raise`, `Sane.goes`).
-/

namespace MspmBaremetal.TargetIsr

variable {σ κ : Type*}

/-! ## What is still to be serviced -/

def Position.writes : Position → Bool
  | .txData _ => true
  | _ => false

/-- A byte or a request that the handler has yet to check for a pending START. -/
def State.unserviced (s : State σ κ) : Bool :=
  s.hw.srxdone || s.position == .rxCheck || (s.hw.treq && !s.position.writes)

/-- A START whose service is due. -/
def State.dueStart (s : State σ κ) : List Bus :=
  if s.hw.sstart && !s.startPrehandled then [.start] else []

/-- A request and a STOP whose service is due. -/
def State.dueLater (s : State σ κ) : List Bus :=
  (if s.hw.treq && !s.position.writes then [.request] else []) ++
    if s.hw.sstop then [.stop] else []

/-- The bus events whose service is due, in bus order. -/
def State.pending (s : State σ κ) : List Bus :=
  let byte := s.hw.rxFifo.toList.map Bus.byte
  if s.position = .rxData then byte ++ (s.dueStart ++ s.dueLater)
  else s.dueStart ++ (byte ++ s.dueLater)

/-- A byte that is computed but not yet written to `STXDATA`. -/
def Position.unwritten : Position → List (TargetEngine.Event σ κ)
  | .txData value => [.transmitted value]
  | _ => []

/-- The bus leaves data of the old phase serviced before a START, and raises no
data while an older STOP, or a START the handler has already acted on, is still
pending. -/
def timely (s : State σ κ) : Choice → Bool
  | .start _ => !s.unserviced
  | .byte _ | .request .. => !s.hw.sstop && !(s.hw.sstart && s.startPrehandled)
  | _ => true

variable [DecidableEq σ]

theorem serveAll_append (engine : TargetEngine σ κ) (es fs : List Bus) :
    serveAll engine (es ++ fs) =
      ((serveAll (serveAll engine es).1 fs).1,
        (serveAll engine es).2 ++ (serveAll (serveAll engine es).1 fs).2) := by
  induction es generalizing engine with
  | nil => rfl
  | cons e es ih => simp only [List.cons_append, serveAll, ih, List.append_assoc]

/-- START and STOP do the same to the engine, so their order does not matter. -/
theorem serveAll_swap (engine : TargetEngine σ κ) (es fs : List Bus) :
    serveAll engine (es ++ .stop :: .start :: fs) =
      serveAll engine (es ++ .start :: .stop :: fs) := by
  rw [serveAll_append, serveAll_append engine es]
  rfl

/-! ## The handler's state in a timely run -/

/-- How the flags, the handler's position and `g_start_prehandled` fit together. -/
structure Sane (s : State σ κ) : Prop where
  prehandled : s.startPrehandled = true → s.hw.sstart = true
  unread : s.hw.rxFifo.isSome = true ↔
    s.hw.srxdone = true ∨ s.position = .rxCheck ∨ s.position = .rxData
  once : s.hw.srxdone = true → s.position ≠ .rxCheck ∧ s.position ≠ .rxData
  flagged : s.hw.treq = true → s.hw.stxdone = true ∨ s.hw.stxempty = true ∨
    s.position = .txSsr ∨ s.position = .txCheck ∨ s.position.writes = true
  asked : s.position = .txCheck ∨ s.position.writes = true → s.hw.treq = true
  fresh : s.unserviced = true → s.startPrehandled = false
  receiving : s.position = .rxData → s.engine.direction = .receive
  writing : s.hw.reading = false → s.hw.treq = true → s.position.writes = true
  reading : s.hw.reading = true → s.hw.rxFifo.isSome = true → s.position = .rxData

variable {s : State σ κ}

omit [DecidableEq σ] in
theorem Sane.raise (h : Sane s) {choice : Choice} {hw : Peripheral} {es : List Bus}
    (ok : timely s choice = true) (raised : TargetIsr.raise s.hw choice = some (hw, es)) :
    Sane { s with hw } := by
  obtain ⟨prehandled, unread, once, flagged, asked, fresh, receiving, writing, reading⟩ := h
  cases choice with
  | isr answer => cases raised
  | _ =>
    simp only [TargetIsr.raise, Option.ite_none_left_eq_some, Option.some.injEq,
      Prod.mk.injEq] at raised
    obtain ⟨allowed, rfl, -⟩ := raised
    constructor <;> grind -ring -linarith [timely, State.unserviced]

theorem ensure_receive (engine : TargetEngine σ κ) :
    (ensure engine .receive .beginReceive).1.direction = .receive := by
  unfold ensure
  split
  · rfl
  · exact not_not.mp ‹_›

/-- What checking for a pending START leaves of the handler's state. -/
theorem beginIfStartPending_fields (s : State σ κ) :
    s.beginIfStartPending.1.hw = s.hw ∧ s.beginIfStartPending.1.position = s.position ∧
    s.beginIfStartPending.1.startPrehandled = (s.hw.sstart || s.startPrehandled) := by
  unfold State.beginIfStartPending
  split
  · simp_all [State.handleStart, State.call]
  · simp_all

/-- What the loop of the handler does on its next interrupt. -/
inductive Dispatched (s : State σ κ) : Step σ κ → Prop
  | byte (pending : s.hw.srxdone = true) :
      Dispatched s ({ s with hw := { s.hw with srxdone := false }, position := .rxCheck }, [])
  | request (hw : Peripheral) (none : s.hw.srxdone = false)
      (cleared : hw = { s.hw with stxdone := false } ∨ hw = { s.hw with stxempty := false }) :
      Dispatched s ({ s with hw, position := .txSsr }, [])
  | skipped (none : s.hw.srxdone = false) (idle : s.hw.stxdone = false ∧ s.hw.stxempty = false)
      (pending : s.hw.sstart = true) (acted : s.startPrehandled = true) :
      Dispatched s
        ({ s with hw := { s.hw with sstart := false }, startPrehandled := false }, [])
  | start (none : s.hw.srxdone = false) (idle : s.hw.stxdone = false ∧ s.hw.stxempty = false)
      (pending : s.hw.sstart = true) (new : s.startPrehandled = false) :
      Dispatched s
        ({ s with hw := { s.hw with sstart := false }, engine := (s.engine.call .abort).1 },
          .started :: (s.engine.call .abort).2.map .engine)
  | stop (none : s.hw.srxdone = false) (idle : s.hw.stxdone = false ∧ s.hw.stxempty = false)
      (noStart : s.hw.sstart = false) (pending : s.hw.sstop = true) :
      Dispatched s
        ({ s with hw := { s.hw with sstop := false }, engine := (s.engine.call .end).1,
                  startPrehandled := false },
          .stopped :: (s.engine.call .end).2.map .engine)
  | nothing (none : s.hw.srxdone = false) (noStart : s.hw.sstart = false) : Dispatched s (s, [])

theorem dispatch_dispatched (s : State σ κ) : Dispatched s s.dispatch := by
  unfold State.dispatch Peripheral.iidx
  by_cases rx : s.hw.srxdone = true
  · rw [if_pos rx]
    exact .byte rx
  have noByte := Bool.eq_false_of_not_eq_true rx
  rw [if_neg rx]
  by_cases done : s.hw.stxdone = true
  · rw [if_pos done]
    exact .request _ noByte (.inl rfl)
  rw [if_neg done]
  by_cases empty : s.hw.stxempty = true
  · rw [if_pos empty]
    exact .request _ noByte (.inr rfl)
  have idle := And.intro (Bool.eq_false_of_not_eq_true done) (Bool.eq_false_of_not_eq_true empty)
  rw [if_neg empty]
  by_cases start : s.hw.sstart = true
  · rw [if_pos start]
    by_cases acted : s.startPrehandled = true
    · simp only [if_pos acted]
      exact .skipped noByte idle start acted
    · simp only [if_neg acted]
      exact .start noByte idle start (Bool.eq_false_of_not_eq_true acted)
  have noStart := Bool.eq_false_of_not_eq_true start
  rw [if_neg start]
  by_cases stop : s.hw.sstop = true
  · rw [if_pos stop]
    exact .stop noByte idle noStart stop
  · rw [if_neg stop]
    exact .nothing noByte noStart

theorem Sane.dispatch (h : Sane s) (loop : s.position = .loop) : Sane s.dispatch.1 := by
  obtain ⟨prehandled, unread, once, flagged, asked, fresh, receiving, writing, reading⟩ := h
  have next := dispatch_dispatched s
  generalize s.dispatch = out at next ⊢
  cases next <;> constructor <;> grind -ring -linarith [State.unserviced, Position.writes]

theorem Sane.rxCheck (h : Sane s) (here : s.position = .rxCheck) : Sane s.rxCheck.1 := by
  obtain ⟨prehandled, unread, once, flagged, asked, fresh, receiving, writing, reading⟩ := h
  obtain ⟨hw, position, start⟩ := beginIfStartPending_fields s
  have direction := ensure_receive s.beginIfStartPending.1.engine
  unfold State.rxCheck
  constructor <;> grind -ring -linarith [State.unserviced, Position.writes]

theorem Sane.txCheck (h : Sane s) (here : s.position = .txCheck) : Sane s.txCheck.1 := by
  obtain ⟨prehandled, unread, once, flagged, asked, fresh, receiving, writing, reading⟩ := h
  obtain ⟨hw, position, start⟩ := beginIfStartPending_fields s
  unfold State.txCheck
  constructor <;> grind -ring -linarith [State.unserviced, Position.writes]

theorem Sane.isr (h : Sane s) (answer : Bool) : Sane (s.isr answer).1 := by
  unfold State.isr
  cases here : s.position with
  | loop => exact h.dispatch here
  | rxCheck => exact h.rxCheck here
  | txCheck => exact h.txCheck here
  | rxData | txSsr | txData value =>
    obtain ⟨prehandled, unread, once, flagged, asked, fresh, receiving, writing, reading⟩ := h
    constructor <;> grind -ring -linarith [State.unserviced, Position.writes, State.rxData, State.call]

/-! ## Servicing what is pending -/

def busEvents (tr : List (Event σ κ)) : List Bus :=
  tr.filterMap fun | .bus e => some e | _ => none

/-- What the engine did and transmitted. -/
def performed (tr : List (Event σ κ)) : List (TargetEngine.Event σ κ) :=
  tr.filterMap fun | .engine e => some e | _ => none

omit [DecidableEq σ] in
theorem performed_engine (es : List (TargetEngine.Event σ κ)) :
    performed (es.map Event.engine) = es := by
  rw [performed, List.filterMap_map]
  exact List.filterMap_some

omit [DecidableEq σ] in
theorem performed_append (tr es : List (Event σ κ)) :
    performed (tr ++ es) = performed tr ++ performed es := List.filterMap_append

omit [DecidableEq σ] in
theorem performed_bus (es : List Bus) : performed (es.map Event.bus : List (Event σ κ)) = [] := by
  rw [performed, List.filterMap_map]
  exact List.filterMap_eq_nil_iff.mpr fun _ _ => rfl

omit [DecidableEq σ] in
theorem busEvents_bus (es : List Bus) : busEvents (es.map Event.bus : List (Event σ κ)) = es := by
  rw [busEvents, List.filterMap_map]
  exact List.filterMap_some

omit [DecidableEq σ] in
theorem busEvents_append (tr es : List (Event σ κ)) :
    busEvents (tr ++ es) = busEvents tr ++ busEvents es := List.filterMap_append

/-- The engine once everything pending is serviced in bus order, and what it
does on the way. -/
def State.flush (s : State σ κ) : TargetEngine σ κ × List (TargetEngine.Event σ κ) :=
  ((serveAll s.engine s.pending).1, s.position.unwritten ++ (serveAll s.engine s.pending).2)

/-- What a timely bus event finds, and what it raises. -/
inductive Raised (s : State σ κ) : Choice → Peripheral → List Bus → Prop
  | start (read : Bool) (unseen : s.hw.sstart = false) (new : s.startPrehandled = false)
      (serviced : s.unserviced = false) (emptied : s.position ≠ .rxData → s.hw.rxFifo = none) :
      Raised s (.start read) { s.hw with sstart := true, reading := read, busy := true } [.start]
  | byte (value : BitVec 8) (room : s.hw.rxFifo = none) (elsewhere : s.position ≠ .rxData)
      (idle : (s.hw.treq && !s.position.writes) = false) (noStop : s.hw.sstop = false) :
      Raised s (.byte value) { s.hw with srxdone := true, rxFifo := some value } [.byte value]
  | request (done empty : Bool) (idle : s.hw.treq = false) (waiting : s.position.writes = false)
      (emptied : s.position ≠ .rxData → s.hw.rxFifo = none) (noStop : s.hw.sstop = false) :
      Raised s (.request done empty) { s.hw with treq := true, stxdone := s.hw.stxdone || done,
                                                 stxempty := s.hw.stxempty || empty } [.request]
  | sent : Raised s .sent { s.hw with stxdone := true } []
  | stop (unseen : s.hw.sstop = false) :
      Raised s .stop { s.hw with sstop := true, busy := false } [.stop]

omit [DecidableEq σ] in
theorem Sane.raised (h : Sane s) {choice : Choice} {hw : Peripheral} {es : List Bus}
    (ok : timely s choice = true) (raised : TargetIsr.raise s.hw choice = some (hw, es)) :
    Raised s choice hw es := by
  obtain ⟨prehandled, unread, once, flagged, asked, fresh, receiving, writing, reading⟩ := h
  cases choice with
  | isr answer => cases raised
  | start read =>
    simp only [TargetIsr.raise, Option.ite_none_left_eq_some, Option.some.injEq,
      Prod.mk.injEq] at raised
    obtain ⟨allowed, rfl, rfl⟩ := raised
    have unseen : s.hw.sstart = false := Bool.eq_false_of_not_eq_true allowed
    have serviced : s.unserviced = false := by simpa [timely] using ok
    refine .start read unseen (by grind -ring -linarith) serviced fun elsewhere => ?_
    exact Option.not_isSome_iff_eq_none.mp (by grind -ring -linarith [State.unserviced])
  | byte value =>
    simp only [TargetIsr.raise, Option.ite_none_left_eq_some, Option.some.injEq,
      Prod.mk.injEq] at raised
    obtain ⟨allowed, rfl, rfl⟩ := raised
    have room : ¬s.hw.rxFifo.isSome = true := by grind -ring -linarith
    exact .byte value (Option.not_isSome_iff_eq_none.mp room) (by grind -ring -linarith)
      (by grind -ring -linarith) (by grind -ring -linarith [timely])
  | request done empty =>
    simp only [TargetIsr.raise, Option.ite_none_left_eq_some, Option.some.injEq,
      Prod.mk.injEq] at raised
    obtain ⟨allowed, rfl, rfl⟩ := raised
    have idle : s.hw.treq = false := by grind -ring -linarith
    refine .request done empty idle (by grind -ring -linarith) (fun elsewhere => ?_)
      (by grind -ring -linarith [timely])
    exact Option.not_isSome_iff_eq_none.mp (by grind -ring -linarith)
  | sent =>
    simp only [TargetIsr.raise, Option.ite_none_left_eq_some, Option.some.injEq,
      Prod.mk.injEq] at raised
    obtain ⟨-, rfl, rfl⟩ := raised
    exact .sent
  | stop =>
    simp only [TargetIsr.raise, Option.ite_none_left_eq_some, Option.some.injEq,
      Prod.mk.injEq] at raised
    obtain ⟨allowed, rfl, rfl⟩ := raised
    exact .stop (by grind -ring -linarith)

/-- A timely bus event comes after everything that is pending. -/
theorem serveAll_raise (h : Sane s) {choice : Choice} {hw : Peripheral} {es : List Bus}
    (ok : timely s choice = true) (raised : TargetIsr.raise s.hw choice = some (hw, es)) :
    serveAll s.engine (State.pending { s with hw }) = serveAll s.engine (s.pending ++ es) := by
  cases h.raised ok raised with
  | start read unseen new serviced emptied =>
    have idle : (s.hw.treq && !s.position.writes) = false := by
      grind -ring -linarith [State.unserviced]
    by_cases here : s.position = .rxData
    · have asked : s.hw.treq = false := by grind -ring -linarith [Position.writes]
      cases stop : s.hw.sstop with
      | false => simp [State.pending, State.dueStart, State.dueLater, unseen, new, asked, here, stop]
      | true =>
        have swap := serveAll_swap s.engine (s.hw.rxFifo.toList.map Bus.byte) []
        simpa [State.pending, State.dueStart, State.dueLater, unseen, new, asked, here, stop] using swap.symm
    · have noByte := emptied here
      cases stop : s.hw.sstop with
      | false => simp [State.pending, State.dueStart, State.dueLater, unseen, new, idle, noByte, here, stop]
      | true =>
        have swap := serveAll_swap s.engine [] []
        simpa [State.pending, State.dueStart, State.dueLater, unseen, new, idle, noByte, here, stop] using swap.symm
  | byte value room elsewhere idle noStop =>
    simp [State.pending, State.dueStart, State.dueLater, room, elsewhere, idle, noStop]
  | request done empty idle waiting emptied noStop =>
    by_cases here : s.position = .rxData
    · simp [State.pending, State.dueStart, State.dueLater, here, idle, noStop, Position.writes]
    · simp [State.pending, State.dueStart, State.dueLater, here, emptied here, idle, waiting, noStop]
  | sent =>
    rw [List.append_nil]
    rfl
  | stop unseen =>
    by_cases here : s.position = .rxData <;>
      simp [State.pending, State.dueStart, State.dueLater, here, unseen]

/-- What `queue_write` returns makes no difference to the engine. -/
theorem receive_answer (engine : TargetEngine σ κ) (value : BitVec 8) (answer : Bool) :
    engine.call (.receive value answer) = engine.call (.receive value true) := by
  have write : ∀ d : Device σ κ, (d.writeCurrent value answer).1 = (d.writeCurrent value true).1 ∧
      (d.writeCurrent value answer).2.1 = (d.writeCurrent value true).2.1 := by
    intro d
    simp only [Device.writeCurrent]
    cases d.endRead.1.regmap.target d.endRead.1.regmap.currentAddress with
    | none => exact ⟨trivial, rfl⟩
    | some target => exact ⟨trivial, rfl⟩
  simp only [TargetEngine.call, TargetEngine.receive, (write engine.regmap).1,
    (write engine.regmap).2]

/-- The handler goes on with what is pending. -/
def Goes (s : State σ κ) (next : Step σ κ) : Prop :=
  s.flush = (next.1.flush.1, performed next.2 ++ next.1.flush.2)

theorem goes_same {next : Step σ κ} (engine : next.1.engine = s.engine)
    (pending : next.1.pending = s.pending)
    (unwritten : s.position.unwritten = performed next.2 ++ next.1.position.unwritten) :
    Goes s next := by
  simp only [Goes, State.flush, engine, pending, unwritten, List.append_assoc]

theorem goes_served {next : Step σ κ} {e : Bus} (engine : next.1.engine = (serve s.engine e).1)
    (pending : s.pending = e :: next.1.pending)
    (events : s.position.unwritten ++ (serve s.engine e).2 =
      performed next.2 ++ next.1.position.unwritten) : Goes s next := by
  simp only [Goes, State.flush, engine, pending, serveAll]
  rw [← List.append_assoc, events, List.append_assoc]

theorem Sane.goes_dispatch (h : Sane s) (loop : s.position = .loop) : Goes s s.dispatch := by
  obtain ⟨prehandled, unread, once, flagged, asked, fresh, receiving, writing, reading⟩ := h
  have next := dispatch_dispatched s
  generalize s.dispatch = out at next ⊢
  have here : s.position ≠ .rxData := by simp [loop]
  have written : (s.position.unwritten : List (TargetEngine.Event σ κ)) = [] := by rw [loop]; rfl
  cases next with
  | byte pending =>
    refine goes_same rfl ?_ (by rw [written]; rfl)
    simp [State.pending, State.dueStart, State.dueLater, loop, Position.writes]
  | request hw none cleared =>
    refine goes_same rfl ?_ (by rw [written]; rfl)
    rcases cleared with rfl | rfl <;> simp [State.pending, State.dueStart, State.dueLater, loop, Position.writes]
  | skipped none idle pending acted =>
    refine goes_same rfl ?_ (written.trans written.symm)
    simp [State.pending, State.dueStart, State.dueLater, here, pending, acted]
  | start none idle pending new =>
    refine goes_served (e := .start) rfl ?_ ?_
    · simp [State.pending, State.dueStart, State.dueLater, here, pending, new]
    · rw [written, List.append_nil]
      exact (performed_engine _).symm
  | stop none idle noStart pending =>
    have noByte := Option.not_isSome_iff_eq_none.mp (by grind : ¬s.hw.rxFifo.isSome = true)
    have noRequest : s.hw.treq = false := by grind -ring -linarith [Position.writes]
    refine goes_served (e := .stop) rfl ?_ ?_
    · simp [State.pending, State.dueStart, State.dueLater, here, noStart, noByte, noRequest, pending]
    · rw [written, List.append_nil]
      exact (performed_engine _).symm
  | nothing none noStart => rfl

/-- A START that is due is serviced by the check for it. -/
theorem beginIfStartPending_serves (h : Sane s) (unserviced : s.unserviced = true) :
    serveAll s.engine s.dueStart =
      (s.beginIfStartPending.1.engine, performed s.beginIfStartPending.2) := by
  have new := h.fresh unserviced
  unfold State.beginIfStartPending State.dueStart
  by_cases start : s.hw.sstart = true
  · simp only [start, new, if_true, Bool.not_false, Bool.and_self, State.handleStart, State.call]
    refine Prod.ext rfl ?_
    simp only [serveAll, serve, List.append_nil]
    exact (performed_engine _).symm
  · rw [if_neg start]
    simp only [start, Bool.false_and]
    rfl

theorem ensure_same (engine : TargetEngine σ κ) (direction : Direction) (begin : TargetEngine.Call)
    (already : engine.direction = direction) : ensure engine direction begin = (engine, []) := by
  simp [ensure, already]

theorem Sane.goes_rxCheck (h : Sane s) (here : s.position = .rxCheck) : Goes s s.rxCheck := by
  have unserviced : s.unserviced = true := by simp [State.unserviced, here]
  have start := beginIfStartPending_serves h unserviced
  obtain ⟨hw, -, acted⟩ := beginIfStartPending_fields s
  obtain ⟨value, byte⟩ := Option.isSome_iff_exists.mp (h.unread.mpr (.inr (.inl here)))
  have before : s.pending = s.dueStart ++ .byte value :: s.dueLater := by
    simp [State.pending, here, byte]
  have skipped : s.rxCheck.1.dueStart = [] := by
    cases start : s.hw.sstart <;> simp [State.dueStart, State.rxCheck, hw, acted, start]
  have later : s.rxCheck.1.dueLater = s.dueLater := by
    simp [State.dueLater, State.rxCheck, hw, here, Position.writes]
  have after : s.rxCheck.1.pending = .byte value :: s.dueLater := by
    have here' : s.rxCheck.1.position = .rxData := rfl
    have byte' : s.rxCheck.1.hw.rxFifo = some value := by simp [State.rxCheck, hw, byte]
    simp [State.pending, here', byte', skipped, later]
  -- the byte's own check finds the engine already receiving
  have served : serve s.rxCheck.1.engine (.byte value) =
      s.rxCheck.1.engine.call (.receive value true) := by
    have again := ensure_same s.rxCheck.1.engine .receive .beginReceive
      (ensure_receive s.beginIfStartPending.1.engine)
    simp only [serve, again, List.nil_append]
  have first : serve s.beginIfStartPending.1.engine (.byte value) =
      ((s.rxCheck.1.engine.call (.receive value true)).1,
        (ensure s.beginIfStartPending.1.engine .receive .beginReceive).2 ++
          (s.rxCheck.1.engine.call (.receive value true)).2) := rfl
  have events : performed s.rxCheck.2 = performed s.beginIfStartPending.2 ++
      (ensure s.beginIfStartPending.1.engine .receive .beginReceive).2 := by
    simp only [State.rxCheck, performed_append, performed_engine]
  have written : (s.position.unwritten : List (TargetEngine.Event σ κ)) = [] := by rw [here]; rfl
  have written' : (s.rxCheck.1.position.unwritten : List (TargetEngine.Event σ κ)) = [] := rfl
  simp only [Goes, State.flush, before, after, written, written', serveAll_append, start, serveAll,
    first, served, events, List.nil_append, List.append_assoc]

theorem Sane.goes_rxData (h : Sane s) (here : s.position = .rxData) (answer : Bool) :
    Goes s (s.rxData answer) := by
  obtain ⟨value, byte⟩ := Option.isSome_iff_exists.mp (h.unread.mpr (.inr (.inr here)))
  have already := ensure_same s.engine .receive .beginReceive (h.receiving here)
  have call : s.engine.call (.receive (s.hw.rxFifo.getD 0) answer) = serve s.engine (.byte value) := by
    simp only [byte, Option.getD_some, receive_answer, serve, already, List.nil_append]
  have out : (s.rxData answer).1.engine = (serve s.engine (.byte value)).1 ∧
      (s.rxData answer).2 = (serve s.engine (.byte value)).2.map .engine := by
    rw [← call]
    exact ⟨rfl, rfl⟩
  have pending : s.pending = .byte value :: (s.rxData answer).1.pending := by
    simp [State.pending, State.dueStart, State.dueLater, State.rxData, State.call, here, byte,
      Position.writes]
  refine goes_served out.1 pending ?_
  rw [here, out.2, performed_engine]
  exact (List.append_nil _).symm

theorem goes_txSsr (here : s.position = .txSsr) :
    Goes s ({ s with position := if s.hw.treq then .txCheck else .loop }, []) := by
  refine goes_same rfl ?_ ?_
  · cases request : s.hw.treq <;> simp [State.pending, State.dueStart, State.dueLater, here, request, Position.writes]
  · rw [here]
    cases request : s.hw.treq <;> simp [Position.unwritten, performed]

omit [DecidableEq σ] in
/-- No byte is unread while a request is being serviced. -/
theorem Sane.unmixed (h : Sane s) (here : s.position = .txCheck) : s.hw.rxFifo = none := by
  obtain ⟨prehandled, unread, once, flagged, asked, fresh, receiving, writing, reading⟩ := h
  have request := asked (.inl here)
  apply Option.not_isSome_iff_eq_none.mp
  intro byte
  cases direction : s.hw.reading with
  | true =>
    have elsewhere := reading direction byte
    rw [here] at elsewhere
    cases elsewhere
  | false =>
    have written := writing direction request
    rw [here] at written
    cases written

theorem Sane.goes_txCheck (h : Sane s) (here : s.position = .txCheck) : Goes s s.txCheck := by
  have asked := h.asked (.inl here)
  have unserviced : s.unserviced = true := by simp [State.unserviced, here, asked, Position.writes]
  have start := beginIfStartPending_serves h unserviced
  obtain ⟨hw, -, acted⟩ := beginIfStartPending_fields s
  have noByte := h.unmixed here
  have stop : s.txCheck.1.pending = if s.hw.sstop then [.stop] else [] := by
    have skipped : s.txCheck.1.dueStart = [] := by
      cases start : s.hw.sstart <;> simp [State.dueStart, State.txCheck, hw, acted, start]
    have noByte' : s.txCheck.1.hw.rxFifo = none := by simp [State.txCheck, hw, noByte]
    have here' : s.txCheck.1.position ≠ .rxData := by simp [State.txCheck]
    have later : s.txCheck.1.dueLater = if s.hw.sstop then [.stop] else [] := by
      simp [State.dueLater, State.txCheck, hw, Position.writes]
    simp [State.pending, here', skipped, noByte', later]
  have before : s.pending = s.dueStart ++ .request :: s.txCheck.1.pending := by
    rw [stop]
    simp [State.pending, State.dueLater, here, noByte, asked, Position.writes]
  have served : serve s.beginIfStartPending.1.engine .request =
      (s.txCheck.1.engine, (ensure s.beginIfStartPending.1.engine .transmit .beginTransmit).2 ++
        ((ensure s.beginIfStartPending.1.engine .transmit .beginTransmit).1.transmit.2.1.map
          .regmap ++ s.txCheck.1.position.unwritten)) := rfl
  have events : performed s.txCheck.2 = performed s.beginIfStartPending.2 ++
      ((ensure s.beginIfStartPending.1.engine .transmit .beginTransmit).2 ++
        (ensure s.beginIfStartPending.1.engine .transmit .beginTransmit).1.transmit.2.1.map
          .regmap) := by
    simp only [State.txCheck, performed_append, performed_engine]
  have written : (s.position.unwritten : List (TargetEngine.Event σ κ)) = [] := by rw [here]; rfl
  simp only [Goes, State.flush, before, written, serveAll_append, start, serveAll, served, events,
    List.nil_append, List.append_assoc]

theorem goes_txData {value : BitVec 8} (here : s.position = .txData value) :
    Goes s ({ s with hw := { s.hw with treq := false }, position := .loop },
      [.engine (.transmitted value)]) := by
  refine goes_same rfl ?_ ?_
  · simp [State.pending, State.dueStart, State.dueLater, here, Position.writes]
  · rw [here]
    rfl

theorem Sane.goes (h : Sane s) (answer : Bool) : Goes s (s.isr answer) := by
  unfold State.isr
  cases here : s.position with
  | loop => exact h.goes_dispatch here
  | rxCheck => exact h.goes_rxCheck here
  | rxData => exact h.goes_rxData here answer
  | txSsr => exact goes_txSsr here
  | txCheck => exact h.goes_txCheck here
  | txData value => exact goes_txData here

end MspmBaremetal.TargetIsr
