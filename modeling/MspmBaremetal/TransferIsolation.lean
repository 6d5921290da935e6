import MspmBaremetal.ControllerTransfers

/-!
# Isolated transactions

Every transaction of a session, on whatever the registers answer, starts only on
a bus and FIFOs it has itself seen free, queues only its caller's bytes and
leaves its caller's memory alone unless it succeeds. The controller's FIFOs are
then modelled as queues that may hold anything when a call begins.
-/

namespace MspmBaremetal.I2cController

open RegisterProgram

/-! ## Bytes in the FIFOs -/

/-- A byte in a FIFO; `stale` if it was there before the call began. -/
structure Entry where
  value : BitVec 8
  stale : Bool
  deriving DecidableEq, Repr

/-- The controller's FIFOs, with the flush requests of MFIFOCTL. -/
structure Fifos where
  tx : List Entry
  rx : List Entry
  txFlush : Bool
  rxFlush : Bool
  deriving DecidableEq, Repr

/-- What happens to the FIFOs: the driver's accesses, a byte in from the bus,
a byte out to it, and a requested flush that takes effect. -/
inductive Moment where
  | access (a : Access)
  | arrive (value : BitVec 8)
  | send
  | clearTx
  | clearRx
  deriving DecidableEq, Repr

/-- MFIFOSR as the FIFOs stand. -/
def Fifos.Shows (f : Fifos) (fifoStatus : BitVec 32) : Prop :=
  (fifoStatus &&& mfifosrRxfifocnt).toNat = f.rx.length ∧
    (fifoStatus &&& mfifosrTxfifocnt).toNat = (4 - f.tx.length) * 256

instance (f : Fifos) (v : BitVec 32) : Decidable (f.Shows v) :=
  inferInstanceAs (Decidable (_ ∧ _))

/-- What the FIFOs become, or `none` for what they cannot do. An empty RX FIFO
answers anything. -/
def Fifos.step (f : Fifos) : Moment → Option Fifos
  | .arrive value => some { f with rx := f.rx ++ [⟨value, false⟩] }
  | .send => match f.tx with
    | [] => none
    | _ :: tx => some { f with tx }
  | .clearTx => if f.txFlush then some { f with tx := [] } else none
  | .clearRx => if f.rxFlush then some { f with rx := [] } else none
  | .access (.write .mtxdata value) =>
    some { f with tx := f.tx ++ [⟨value.setWidth 8, false⟩] }
  | .access (.write .mfifoctl value) =>
    some { f with txFlush := value &&& mfifoctlTxflush ≠ 0, rxFlush := value &&& mfifoctlRxflush ≠ 0 }
  | .access (.read .mfifosr value) => if f.Shows value then some f else none
  | .access (.read .mrxdata value) => match f.rx with
    | [] => some f
    | e :: rx => if (value &&& mrxdataValue).setWidth 8 = e.value then some { f with rx } else none
  | .access _ => some f

def Fifos.after (f : Fifos) : List Moment → Option Fifos
  | [] => some f
  | m :: ms => (f.step m).bind (·.after ms)

/-- The accesses among the moments. -/
def accesses (ms : List Moment) : List Access :=
  ms.filterMap fun | .access a => some a | _ => none

theorem Fifos.after_append (f : Fifos) (ms ns : List Moment) :
    f.after (ms ++ ns) = (f.after ms).bind (·.after ns) := by
  induction ms generalizing f with
  | nil => rfl
  | cons m ms ih => cases h : f.step m <;> simp [after, h, ih]

/-- An access of a trace stands at some moment. -/
theorem accesses_split {ms : List Moment} {a b : List Access} {x : Access}
    (h : accesses ms = a ++ x :: b) :
    ∃ m₁ m₂, ms = m₁ ++ .access x :: m₂ ∧ accesses m₁ = a ∧ accesses m₂ = b := by
  induction ms generalizing a with
  | nil => simp [accesses] at h
  | cons m ms ih =>
    cases m with
    | access y =>
      change y :: accesses ms = a ++ x :: b at h
      cases a with
      | nil =>
        obtain ⟨rfl, rfl⟩ := List.cons.inj h
        exact ⟨[], ms, rfl, rfl, rfl⟩
      | cons z a =>
        obtain ⟨rfl, rest⟩ := List.cons.inj h
        obtain ⟨m₁, m₂, rfl, rfl, rfl⟩ := ih rest
        exact ⟨.access y :: m₁, m₂, rfl, rfl, rfl⟩
    | arrive | send | clearTx | clearRx =>
      obtain ⟨m₁, m₂, rfl, rfl, rfl⟩ := ih h
      exact ⟨_ :: m₁, m₂, rfl, rfl, rfl⟩

/-- The FIFOs as they stood when an access of the trace was made. -/
theorem Fifos.after_split {f h : Fifos} {ms : List Moment} {a b : List Access} {x : Access}
    (run : f.after ms = some h) (trace : accesses ms = a ++ x :: b) :
    ∃ m₁ m₂ k k', accesses m₁ = a ∧ accesses m₂ = b ∧ f.after m₁ = some k ∧
      k.step (.access x) = some k' ∧ k'.after m₂ = some h := by
  obtain ⟨m₁, m₂, rfl, before, rest⟩ := accesses_split trace
  rw [after_append, Option.bind_eq_some_iff] at run
  obtain ⟨k, run₁, run₂⟩ := run
  obtain ⟨k', step, run₂⟩ := Option.bind_eq_some_iff.mp run₂
  exact ⟨m₁, m₂, k, k', before, rest, run₁, step, run₂⟩

/-- What one moment can do. -/
theorem Fifos.step_cases {f g : Fifos} {m : Moment} (step : f.step m = some g) :
    (∀ e ∈ g.tx, e ∈ f.tx ∨ e.stale = false) ∧
      (g.rx = f.rx ∨ (∃ v, g.rx = f.rx ++ [⟨v, false⟩]) ∨
        (m = .clearRx ∧ f.rxFlush = true ∧ g.rx = []) ∨
        ∃ v, m = .access (.read .mrxdata v) ∧ g.rx = f.rx.tail) ∧
      (g.rxFlush = f.rxFlush ∨ ∃ v, m = .access (.write .mfifoctl v)) := by
  cases m with
  | arrive value =>
    cases step
    exact ⟨fun e he => .inl he, .inr (.inl ⟨value, rfl⟩), .inl rfl⟩
  | send =>
    simp only [Fifos.step] at step
    split at step <;> cases step
    next first rest held => exact ⟨fun e he => .inl (by simp [held, he]), .inl rfl, .inl rfl⟩
  | clearTx =>
    simp only [Fifos.step] at step
    split at step <;> cases step
    exact ⟨by simp, .inl rfl, .inl rfl⟩
  | clearRx =>
    simp only [Fifos.step] at step
    split at step <;> cases step
    next on => exact ⟨fun e he => .inl he, .inr (.inr (.inl ⟨rfl, on, rfl⟩)), .inl rfl⟩
  | access a =>
    cases a with
    | write reg value =>
      cases reg
      case mtxdata =>
        cases step
        refine ⟨fun e he => ?_, .inl rfl, .inl rfl⟩
        rcases List.mem_append.mp he with held | new
        · exact .inl held
        · rw [List.mem_singleton.mp new]
          exact .inr rfl
      case mfifoctl =>
        cases step
        exact ⟨fun e he => .inl he, .inl rfl, .inr ⟨value, rfl⟩⟩
      all_goals
        cases step
        exact ⟨fun e he => .inl he, .inl rfl, .inl rfl⟩
    | read reg value =>
      cases reg
      case mrxdata =>
        simp only [Fifos.step] at step
        split at step
        · cases step
          exact ⟨fun e he => .inl he, .inl rfl, .inl rfl⟩
        next first rest held =>
          split at step <;> cases step
          exact ⟨fun e he => .inl he, .inr (.inr (.inr ⟨value, rfl, by simp [held]⟩)), .inl rfl⟩
      case mfifosr =>
        simp only [Fifos.step] at step
        split at step <;> cases step
        exact ⟨fun e he => .inl he, .inl rfl, .inl rfl⟩
      all_goals
        cases step
        exact ⟨fun e he => .inl he, .inl rfl, .inl rfl⟩

/-- No byte from before the call. -/
def Fifos.Fresh (f : Fifos) : Prop := (∀ e ∈ f.tx, e.stale = false) ∧ ∀ e ∈ f.rx, e.stale = false

theorem Fifos.Fresh.step {f g : Fifos} {m : Moment} (fresh : f.Fresh) (step : f.step m = some g) :
    g.Fresh := by
  obtain ⟨tx, rx, -⟩ := step_cases step
  refine ⟨fun e he => (tx e he).elim (fresh.1 e) id, ?_⟩
  rcases rx with same | ⟨v, more⟩ | ⟨-, -, cleared⟩ | ⟨v, -, less⟩
  · rw [same]
    exact fresh.2
  · rw [more]
    simpa [or_imp, forall_and] using fresh.2
  · simp [cleared]
  · rw [less]
    exact fun e he => fresh.2 e (List.mem_of_mem_tail he)

theorem Fifos.Fresh.after {f g : Fifos} {ms : List Moment} (fresh : f.Fresh)
    (run : f.after ms = some g) : g.Fresh := by
  induction ms generalizing f with
  | nil => cases run; exact fresh
  | cons m ms ih =>
    obtain ⟨k, step, run⟩ := Option.bind_eq_some_iff.mp run
    exact ih (fresh.step step) run

/-- FIFOs that show a completed flush are empty. -/
theorem Fifos.Shows.empty {f : Fifos} {fifoStatus : BitVec 32} (shows : f.Shows fifoStatus)
    (flushed : Flushed fifoStatus) : f.tx = [] ∧ f.rx = [] := by
  obtain ⟨rx, tx⟩ := shows
  rw [flushed.1] at rx
  rw [flushed.2] at tx
  have all : (sysFentries <<< 8).toNat = 4 * 256 := by decide
  have none : (0 : BitVec 32).toNat = 0 := by decide
  exact ⟨List.eq_nil_of_length_eq_zero (by omega), List.eq_nil_of_length_eq_zero (by omega)⟩

/-- RX while the driver takes its bytes out: it loses only those. -/
theorem Fifos.drained {f g : Fifos} {ms : List Moment} (quiet : f.rxFlush = false)
    (reads : ∀ a ∈ accesses ms, ∃ v, a = .read .mrxdata v) (run : f.after ms = some g) :
    f.rx.length ≤ g.rx.length + (accesses ms).length := by
  induction ms generalizing f with
  | nil => cases run; simp
  | cons m ms ih =>
    obtain ⟨k, step, run⟩ := Option.bind_eq_some_iff.mp run
    have rest : ∀ a ∈ accesses ms, ∃ v, a = .read .mrxdata v := fun a ha =>
      reads a (by cases m <;> simp_all [accesses])
    have more : (accesses ms).length ≤ (accesses (m :: ms)).length := by
      cases m <;> simp [accesses]
    obtain ⟨-, rx, flush⟩ := step_cases step
    have flush : k.rxFlush = false := by
      rcases flush with same | ⟨v, rfl⟩
      · rw [same, quiet]
      · obtain ⟨w, hw⟩ := reads (.write .mfifoctl v) (by simp [accesses])
        cases hw
    have later := ih flush rest run
    rcases rx with same | ⟨v, arrived⟩ | ⟨-, on, -⟩ | ⟨v, rfl, taken⟩
    · rw [same] at later
      omega
    · rw [arrived, List.length_append, List.length_singleton] at later
      omega
    · simp [quiet] at on
    · have one : (accesses (.access (.read .mrxdata v) :: ms)).length = (accesses ms).length + 1 := rfl
      rw [taken, List.length_tail] at later
      omega

/-- The flush request follows the last write of MFIFOCTL. -/
theorem Fifos.flush_off {f g : Fifos} {ms : List Moment} (quiet : f.rxFlush = false)
    (none : ∀ v, .write .mfifoctl v ∉ accesses ms) (run : f.after ms = some g) :
    g.rxFlush = false := by
  induction ms generalizing f with
  | nil => cases run; exact quiet
  | cons m ms ih =>
    obtain ⟨k, step, run⟩ := Option.bind_eq_some_iff.mp run
    have rest : ∀ v, .write .mfifoctl v ∉ accesses ms := fun v hv =>
      none v (by cases m <;> simp_all [accesses])
    obtain ⟨-, -, same | ⟨v, rfl⟩⟩ := step_cases step
    · exact ih (same.trans quiet) rest run
    · exact absurd (by simp [accesses]) (none v)

/-! ## Every transaction -/

/-- The bus seen free, then the FIFOs seen flushed, and since then exactly the
payload queued. -/
def Armed (payload : List (BitVec 8)) (t : List Access) : Prop :=
  ∃ a lines b status c fifos d,
    t = a ++ .read .mbmon lines :: b ++ .read .msr status :: c ++ .read .mfifosr fifos :: d ∧
      lines &&& mbmonScl ≠ 0 ∧ lines &&& mbmonSda ≠ 0 ∧ status &&& msrBusy = 0 ∧ Flushed fifos ∧
      writesOf .mtxdata d = payload.map fun b => b.setWidth 32

/-- What the FIFOs, whatever they held, give the bus once the transfer is started
and the driver when it takes received bytes: only bytes that came in during the call. -/
def Untainted (t : List Access) : Prop :=
  ∀ (f g : Fifos) (ms : List Moment) (rest : List Access), t = accesses ms ++ rest →
    f.after ms = some g →
      ((∃ control, .write .mctr control ∈ accesses ms ∧ control &&& mctrStart ≠ 0) →
        ∀ e ∈ g.tx, e.stale = false) ∧
      ∀ v after, rest = .read .mrxdata v :: after → ∃ e rx, g.rx = e :: rx ∧ e.stale = false

/-- A transaction that keeps to itself. -/
structure Isolated (r : Transaction) : Prop where
  started : ∀ before control after, r.trace = before ++ .write .mctr control :: after →
    control &&& mctrStart ≠ 0 →
      Armed (r.call.payload r.before) before ∧ (r.call.payload r.before).length ≤ 4
  rejected : (r.result = .invalidArgument ↔ ¬r.call.Accepted) ∧ (¬r.call.Accepted → r.trace = [])
  failed : r.result ≠ .ok → r.after = r.before
  received : r.result = .ok → ∀ data length, r.call.buffer = some (data, length) →
    (readsOf .mrxdata r.trace).length = length.toNat ∧
      Received r.before data (readsOf .mrxdata r.trace) r.after
  untainted : Untainted r.trace

section Inert

variable {t : List Access}

theorem inert_writes (h : ∀ a ∈ t, Inert a) : writesOf .mtxdata t = [] := by
  induction t with
  | nil => rfl
  | cons a t ih =>
    have rest := ih fun b hb => h b (List.mem_cons_of_mem a hb)
    cases a with
    | read reg v => simpa using rest
    | write reg v =>
      have ne : reg ≠ .mtxdata := by
        rintro rfl
        exact h (.write .mtxdata v) (by simp)
      simpa [ne] using rest

theorem inert_reads (h : ∀ a ∈ t, Inert a) : readsOf .mrxdata t = [] := by
  induction t with
  | nil => rfl
  | cons a t ih =>
    have rest := ih fun b hb => h b (List.mem_cons_of_mem a hb)
    cases a with
    | write reg v => simpa using rest
    | read reg v =>
      have ne : reg ≠ .mrxdata := by
        rintro rfl
        exact h (.read .mrxdata v) (by simp)
      simpa [ne] using rest

end Inert

theorem Armed.append {payload more : List (BitVec 8)} {t u : List Access} (h : Armed payload t)
    (queues : writesOf .mtxdata u = more.map fun b => b.setWidth 32) :
    Armed (payload ++ more) (t ++ u) := by
  obtain ⟨a, lines, b, status, c, fifos, d, rfl, scl, sda, idle, flushed, queued⟩ := h
  exact ⟨a, lines, b, status, c, fifos, d ++ u, by simp, scl, sda, idle, flushed,
    by simp [queued, queues]⟩

theorem Prepared.no_start {t : List Access} (h : Prepared t) {control : BitVec 32}
    (mem : .write .mctr control ∈ t) : control &&& mctrStart = 0 := by
  obtain ⟨lines, status, polls, fifos, rfl, quiet, -⟩ := h
  simp only [List.mem_append, List.mem_cons, Access.write.injEq, reduceCtorEq, false_and, true_and,
    false_or, or_false, List.not_mem_nil] at mem
  rcases mem with rfl | polled
  · decide
  · exact quiet _ polled

theorem Prepared.armed {t : List Access} (h : Prepared t) : Armed [] t := by
  obtain ⟨lines, status, polls, fifos, rfl, -, scl, sda, idle, flushed⟩ := h
  exact ⟨[], lines, [], status, .write .mctr 0 :: .write .iclr eventMask ::
    .write .mfifoctl (mfifoctlTxflush ||| mfifoctlRxflush) :: polls, fifos, [.write .mfifoctl 0],
    by simp, scl, sda, idle, flushed, by simp⟩

/-- A launched transfer has one START, its last access. -/
theorem Launched.armed {payload : List (BitVec 8)} {t before after : List Access}
    {control : BitVec 32} (launched : Launched payload t)
    (split : t = before ++ .write .mctr control :: after) (start : control &&& mctrStart ≠ 0) :
    Armed payload before := by
  obtain ⟨prep, address, first, rfl, prepared, -⟩ := launched
  have split' : prep ++ (payload.map (fun b => .write .mtxdata (b.setWidth 32)) ++
      [.write .msa address]) ++ [.write .mctr first] = before ++ .write .mctr control :: after := by
    simpa using split
  rcases append_eq_split split' with ⟨l, rfl, last⟩ | ⟨r, earlier, -⟩
  · obtain rfl : l = [] := by cases l <;> simp_all
    rw [List.append_nil]
    exact prepared.armed.append (by simp [writesOf_map])
  · have mem : .write .mctr control ∈ prep ++ (payload.map (fun b =>
        (.write .mtxdata (b.setWidth 32) : Access)) ++ [.write .msa address]) := by
      rw [earlier]
      simp
    have early : .write .mctr control ∈ prep := by simpa using mem
    exact absurd (prepared.no_start early) start

/-- Whatever follows a launched transfer without queueing a byte stays armed. -/
theorem Launched.armed_append {payload : List (BitVec 8)} {t u before after : List Access}
    {control : BitVec 32} (launched : Launched payload t) (quiet : writesOf .mtxdata u = [])
    (split : t ++ u = before ++ .write .mctr control :: after) (start : control &&& mctrStart ≠ 0) :
    Armed payload before := by
  rcases append_eq_split split with ⟨l, rfl, rest⟩ | ⟨r, earlier, -⟩
  · obtain ⟨prep, address, first, rfl, prepared, -⟩ := launched
    have none : writesOf .mtxdata l = [] := by
      rw [rest, writesOf_append, List.append_eq_nil_iff] at quiet
      exact quiet.1
    rw [List.append_assoc, List.append_assoc]
    exact prepared.armed.append (by simp [writesOf_map, none])
  · exact launched.armed earlier start

/-- A trace that starts transfers only when armed taints no byte it moves out. -/
theorem fresh_after_start {payload : List (BitVec 8)} {t : List Access} {f g : Fifos}
    {ms : List Moment} (run : f.after ms = some g) (trace : accesses ms = t) (armed : Armed payload t) :
    g.Fresh := by
  obtain ⟨a, lines, b, status, c, fifos, d, rfl, -, -, -, flushed, -⟩ := armed
  have split : accesses ms = (a ++ .read .mbmon lines :: b ++ .read .msr status :: c) ++
      .read .mfifosr fifos :: d := by simpa using trace
  obtain ⟨-, m₂, k, k', -, -, -, step, rest⟩ := Fifos.after_split run split
  simp only [Fifos.step, Option.ite_none_right_eq_some, Option.some.injEq] at step
  obtain ⟨shows, rfl⟩ := step
  obtain ⟨tx, rx⟩ := shows.empty flushed
  exact Fifos.Fresh.after (by simp [Fifos.Fresh, tx, rx]) rest

/-- Once a START is written, the FIFOs hold nothing from before. -/
theorem fresh_of_started {payload : List (BitVec 8)} {t rest : List Access}
    (started : ∀ before control after, t = before ++ .write .mctr control :: after →
      control &&& mctrStart ≠ 0 → Armed payload before)
    {f g : Fifos} {ms : List Moment} (trace : t = accesses ms ++ rest) (run : f.after ms = some g)
    {control : BitVec 32} (mem : .write .mctr control ∈ accesses ms)
    (start : control &&& mctrStart ≠ 0) : g.Fresh := by
  obtain ⟨x, y, split⟩ := List.append_of_mem mem
  obtain ⟨m₁, m₂, k, k', before, -, run₁, step, run₂⟩ := Fifos.after_split run split
  have armed := started x control (y ++ rest) (by simp [trace, split]) start
  exact ((fresh_after_start run₁ before armed).step step).after run₂

theorem Launched.start {payload : List (BitVec 8)} {t : List Access} (h : Launched payload t) :
    ∃ control, .write .mctr control ∈ t ∧ control &&& mctrStart ≠ 0 := by
  obtain ⟨prep, address, control, rfl, -, start⟩ := h
  exact ⟨control, by simp, start⟩

theorem Launched.reads {payload : List (BitVec 8)} {t : List Access} (h : Launched payload t) :
    readsOf .mrxdata t = [] := by
  obtain ⟨prep, address, control, rfl, ⟨lines, status, polls, fifos, rfl, quiet, -⟩, -⟩ := h
  have polled : readsOf .mrxdata polls = [] := inert_reads fun a ha => (quiet a ha).inert
  simp [polled, readsOf_map_write]

theorem Launched.no_read {payload : List (BitVec 8)} {t : List Access} (h : Launched payload t)
    (v : BitVec 32) : .read .mrxdata v ∉ t := by
  intro mem
  have read : v ∈ readsOf .mrxdata t := List.mem_filterMap.mpr ⟨_, mem, by simp⟩
  simp [h.reads] at read

/-- No flush is requested after a launch. -/
theorem Launched.flush_off {payload : List (BitVec 8)} {before rest : List Access}
    (launched : Launched payload before) (waiting : ∀ a ∈ rest, Waiting a) {f g : Fifos}
    {ms : List Moment} (run : f.after ms = some g) (trace : accesses ms = before ++ rest) :
    g.rxFlush = false := by
  obtain ⟨prep, address, control, rfl, ⟨lines, status, polls, fifos, rfl, -⟩, -⟩ := launched
  have split : accesses ms = ([.read .mbmon lines, .read .msr status, .write .mctr 0,
      .write .iclr eventMask, .write .mfifoctl (mfifoctlTxflush ||| mfifoctlRxflush)] ++ polls ++
      [.read .mfifosr fifos]) ++ .write .mfifoctl 0 ::
      (payload.map (fun b => .write .mtxdata (b.setWidth 32)) ++
        [.write .msa address, .write .mctr control] ++ rest) := by simp [trace]
  obtain ⟨-, m₂, k, k', -, after, -, step, run⟩ := Fifos.after_split run split
  cases step
  refine Fifos.flush_off (by simp) (fun v mem => ?_) run
  rw [after] at mem
  simp only [List.mem_append, List.mem_map, List.mem_cons, reduceCtorEq, Access.write.injEq,
    false_and, and_false, exists_false, List.not_mem_nil, or_self, false_or] at mem
  exact waiting _ mem

/-- The driver takes a received byte only from a FIFO that has one. -/
theorem rx_of_received {payload : List (BitVec 8)} {before rest : List Access}
    {fifos : BitVec 32} {length : BitVec 8} {values l : List (BitVec 32)} {v : BitVec 32}
    {after : List (BitVec 32)} (launched : Launched payload before)
    (waiting : ∀ a ∈ rest, Waiting a) (count : length.setWidth 32 ≤ fifos &&& mfifosrRxfifocnt)
    (length_eq : values.length = length.toNat) (split : values = l ++ v :: after) {f g : Fifos}
    {ms : List Moment} (run : f.after ms = some g)
    (trace : accesses ms = before ++ rest ++ .read .mfifosr fifos :: l.map (.read .mrxdata)) :
    g.rx ≠ [] := by
  obtain ⟨m₁, m₂, k, k', prefix', suffix, run₁, step, run₂⟩ := Fifos.after_split run trace
  simp only [Fifos.step, Option.ite_none_right_eq_some, Option.some.injEq] at step
  obtain ⟨⟨shown, -⟩, rfl⟩ := step
  have off := launched.flush_off waiting run₁ prefix'
  have reads : ∀ a ∈ accesses m₂, ∃ v, a = .read .mrxdata v := by
    rw [suffix]
    simp
  have drained := Fifos.drained off reads run₂
  rw [suffix, List.length_map] at drained
  have enough : length.toNat ≤ k.rx.length := by
    have le := BitVec.le_def.mp count
    rw [shown, BitVec.toNat_setWidth] at le
    omega
  have more : l.length < length.toNat := by
    rw [← length_eq, split]
    simp
  intro none
  rw [none] at drained
  simp at drained
  omega

theorem Call.payload_length {call : Call} {memory : Memory} (accepted : call.Accepted) :
    (call.payload memory).length ≤ 4 := by
  have fits : ∀ {length : BitVec 8}, Fits length → length.toNat ≤ 4 := fun h => h.2
  cases call with
  | write address data length =>
    obtain ⟨-, -, small⟩ := accepted
    cases data <;> simp [payload, fits small]
  | read => simp [payload]
  | writeRead address data length readData readLength =>
    obtain ⟨-, -, -, small, -⟩ := accepted
    cases data <;> simp [payload, fits small]

theorem Transfer.started {call : Call} {memory memory' : Memory} {t : List Access} {result : Result}
    (h : Transfer call memory t result memory') :
    ∀ before control after, t = before ++ .write .mctr control :: after →
      control &&& mctrStart ≠ 0 → Armed (call.payload memory) before := by
  intro before control after split start
  cases h with
  | refused quiet =>
    exact absurd (quiet (.write .mctr control) (by simp [split])) start
  | failed launched inert | written launched inert =>
    exact launched.armed_append (inert_writes inert) split start
  | received launched waiting =>
    refine launched.armed_append ?_ ((List.append_assoc _ _ _).symm.trans split) start
    simp [inert_writes fun a ha => (waiting a ha).inert, writesOf_map_read]

theorem Transfer.untainted {call : Call} {memory memory' : Memory} {t : List Access}
    {result : Result} (h : Transfer call memory t result memory') : Untainted t := by
  intro f g ms rest trace run
  have fresh : ∀ control, .write .mctr control ∈ accesses ms → control &&& mctrStart ≠ 0 →
      g.Fresh := fun control => fresh_of_started h.started trace run
  refine ⟨fun ⟨control, mem, start⟩ => (fresh control mem start).1, ?_⟩
  rintro v after rfl
  have mem : Access.read .mrxdata v ∈ t := by simp [trace]
  cases h with
  | refused quiet => exact (quiet _ mem).elim
  | failed launched inert | written launched inert =>
    rcases List.mem_append.mp mem with early | late
    · exact absurd early (launched.no_read v)
    · exact (inert _ late).elim
  | @received before wait fifos _ length values _ launched waiting buffer count length_eq =>
    have split : (before ++ wait ++ [.read .mfifosr fifos]) ++ values.map (.read .mrxdata) =
        accesses ms ++ .read .mrxdata v :: after := by simpa using trace
    rcases append_eq_split split with ⟨l, made, rest⟩ | ⟨r, early, -⟩
    · obtain ⟨l', after', rfl, rfl, rest'⟩ := List.map_eq_append_iff.mp rest
      obtain ⟨w, after'', rfl, hw, -⟩ := List.map_eq_cons_iff.mp rest'
      cases hw
      obtain ⟨control, began, start⟩ := launched.start
      have some := rx_of_received launched waiting count length_eq rfl run (by simpa using made)
      obtain ⟨e, rx, held⟩ := List.exists_cons_of_ne_nil some
      exact ⟨e, rx, held, (fresh control (by simp [made, began]) start).2 e (by simp [held])⟩
    · have mem : Access.read .mrxdata v ∈ before ++ wait ++ [.read .mfifosr fifos] := by simp [early]
      simp only [List.mem_append, List.mem_singleton, Access.read.injEq, reduceCtorEq, false_and,
        or_false] at mem
      exact mem.elim (absurd · (launched.no_read v)) fun late => (waiting _ late).elim

theorem Settled.isolated {r : Transaction}
    (h : Settled r.call r.before r.trace r.result r.after) : Isolated r := by
  obtain ⟨call, memory, t, result, memory'⟩ := r
  dsimp only at h
  obtain ⟨rejected, rfl, rfl, rfl⟩ | ⟨accepted, valid, h⟩ := h
  · refine ⟨by simp, by simp [rejected], by simp, by simp, ?_⟩
    intro f g ms rest trace run
    obtain ⟨none, rfl⟩ := List.nil_eq_append_iff.mp trace
    simp [none]
  · refine ⟨fun before control after split start => ⟨h.started _ _ _ split start,
      Call.payload_length accepted⟩, by simp [accepted, valid], ?_, ?_, h.untainted⟩
    · intro failed
      cases h with
      | refused | failed => rfl
      | written | received => exact absurd rfl failed
    · rintro rfl data length buffer
      cases h with
      | refused _ failed | failed _ _ failed => exact absurd rfl failed
      | written _ _ none => simp [none] at buffer
      | received launched waiting buffer' count length_eq stored =>
        obtain ⟨rfl, rfl⟩ : _ = data ∧ _ = length := by simpa [buffer'] using buffer
        have none := inert_reads fun a ha => (waiting a ha).inert
        simp only [readsOf_append, launched.reads, none, readsOf_read, reduceCtorEq, if_false,
          readsOf_map, List.nil_append]
        exact ⟨length_eq, stored⟩

theorem session_settled {driver : Driver} (initialized : driver.initialized = true)
    (calls : List (Call × Memory)) (answers : Stream' (BitVec 32)) :
    ∀ r ∈ session driver calls answers, Settled r.call r.before r.trace r.result r.after := by
  induction calls generalizing driver answers with
  | nil => simp [session]
  | cons first calls ih =>
    obtain ⟨call, memory⟩ := first
    obtain ⟨kept, settled⟩ :=
      perform_makes initialized (run_makes (call.perform driver memory) answers)
    intro r mem
    rcases List.mem_cons.mp mem with rfl | later
    · exact settled
    · exact ih kept _ r later

/-- Whatever the registers answer, every transaction after a successful init
keeps to itself. -/
theorem transactions_isolated (config : Option Config) (driver driver' : Driver)
    (answers rest : Stream' (BitVec 32)) (trace : List Access)
    (opened : (init config driver).run answers = (trace, (true, driver'), rest))
    (calls : List (Call × Memory)) : ∀ r ∈ session driver' calls rest, Isolated r := by
  have made := run_makes (init config driver) answers
  rw [opened] at made
  exact fun r mem => (session_settled (init_makes made) calls rest r mem).isolated

/-- The board's controller, polled at most twice. -/
def sampleConfig : Config where
  instanceBase := i2c1Base
  sclPincmIndex := 1
  sclPincmFunction := 3
  sdaPincmIndex := 2
  sdaPincmFunction := 3
  inputClockHz := 32000000
  busHz := 100000
  pollLimit := 2
  sclLowTimeoutCount := 20

def sampleReset : Driver := ⟨0, 0, 0, 0, false⟩

def sampleOpened : Driver := ⟨i2c1Base, 2, 320, 0, true⟩

/-- A write whose address nobody acknowledges, the flush after it timing out with
a byte still queued, and a read that receives one byte. -/
def sampleAnswers : Stream' (BitVec 32) := fun n =>
  [0x4, 0x3, 0x0, 0x400, 0x6, 0x0, 0x300, 0x300, 0x3, 0x0, 0x400, 0x0, 0x0, 0x1, 0x5A].getD n 0

theorem transactions_isolated_sample :
    let session := session sampleOpened [(.write 0x20 (some 8) 1, fun _ => 0xA5),
      (.read 0x20 (some 8) 1, fun _ => 0xA5)] sampleAnswers.tail
    session.map (fun r => (r.result, r.after 8)) = [(.addressNack, 0xA5), (.ok, 0x5A)] ∧
      ∀ r ∈ session, Isolated r :=
  ⟨by decide +kernel, transactions_isolated (some sampleConfig) sampleReset sampleOpened
    sampleAnswers sampleAnswers.tail _ rfl _⟩

end MspmBaremetal.I2cController
