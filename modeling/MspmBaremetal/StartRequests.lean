import MspmBaremetal.CompletionPolling
import MspmBaremetal.TransferIsolation

/-!
# START requests

How often a call of the I2C controller asks for START. MCTR reads back what was
written to it, so the STOP that is requested when polling gives up repeats the
START of the transfer.
-/

namespace MspmBaremetal.I2cController

open RegisterProgram

/-- A write that asks for START. -/
def isStart : Access → Bool
  | .write .mctr control => control &&& mctrStart ≠ 0
  | _ => false

/-- A call in a session: the driver and the answers that it found, and what it did. -/
structure Operation where
  driver : Driver
  call : Call
  answers : Stream' (BitVec 32)
  trace : List Access

/-- A session on hardware whose MCTR reads back what was last written to it. -/
def operations (driver : Driver) :
    List (Call × Memory) → BitVec 32 → Stream' (BitVec 32) → List Operation
  | [], _, _ => []
  | (call, memory) :: calls, held, answers =>
    let (trace, (_, driver', _), held', rest) :=
      (call.perform driver memory).runReadback .mctr held answers
    ⟨driver, call, answers, trace⟩ :: operations driver' calls held' rest

/-- The driver finds the bus free and idle, and its FIFOs empty at poll `m` of the flush. -/
structure Ready (limit : Nat) (answers : Stream' (BitVec 32)) (m : Nat) : Prop where
  scl : answers.get 0 &&& mbmonScl ≠ 0
  sda : answers.get 0 &&& mbmonSda ≠ 0
  idle : answers.get 1 &&& msrBusy = 0
  within : m < limit
  filled : ∀ j < m, ¬Flushed (answers.get (2 + j))
  flushed : Flushed (answers.get (2 + m))

/-- The transfer starts and then shows BUSY in each of the `limit` samples that
the driver takes. -/
def GivesUp (limit : Nat) (answers : Stream' (BitVec 32)) : Prop :=
  ∃ m, Ready limit answers m ∧ ∀ k < limit, (sample (answers.drop (3 + m)) k).Busy

/-- A call that gives up polling. -/
def Operation.GivesUp (op : Operation) : Prop :=
  op.call.Accepted ∧ I2cController.GivesUp op.driver.pollLimit.toNat op.answers

/-! ## Before the transfer -/

section Prepare

variable {driver driver' : Driver} {answers : Stream' (BitVec 32)} {t : List Access} {result : Result}

/-- One turn of the loop of `hal_i2c_controller_flush_fifos`. -/
def pollFlush (_ : Unit) : Program (Unit ⊕ Unit) := do
  let fifoStatus ← load .mfifosr
  pure (if Flushed fifoStatus then .inl () else .inr ())

theorem pollFlush_run (answers : Stream' (BitVec 32)) : (pollFlush ()).run answers =
    ([.read .mfifosr answers.head], if Flushed answers.head then .inl () else .inr (),
      answers.tail) := rfl

theorem flush_found {limit m : Nat} {answers : Stream' (BitVec 32)} (within : m < limit)
    (filled : ∀ j < m, ¬Flushed (answers.get j)) (flushed : Flushed (answers.get m)) :
    ((poll pollFlush limit ()).run answers).2 = (.inl (), answers.drop (m + 1)) := by
  induction m generalizing limit answers with
  | zero =>
    obtain ⟨limit, rfl⟩ := Nat.exists_eq_succ_of_ne_zero (Nat.ne_of_gt within)
    have now : Flushed answers.head := flushed
    rw [poll, run_bind, pollFlush_run, if_pos now]
    rfl
  | succ m ih =>
    obtain ⟨limit, rfl⟩ := Nat.exists_eq_succ_of_ne_zero (Nat.ne_of_gt (Nat.zero_lt_of_lt within))
    have notYet : ¬Flushed answers.head := filled 0 (by omega)
    rw [poll, run_bind, pollFlush_run, if_neg notYet]
    exact ih (Nat.lt_of_succ_lt_succ within) (fun j lt => filled (j + 1) (by omega)) flushed

theorem flush_inl {limit : Nat} {answers : Stream' (BitVec 32)}
    (left : ((poll pollFlush limit ()).run answers).2.1.isLeft) :
    ∃ m < limit, (∀ j < m, ¬Flushed (answers.get j)) ∧ Flushed (answers.get m) := by
  induction limit generalizing answers with
  | zero => cases left
  | succ limit ih =>
    by_cases now : Flushed answers.head
    · exact ⟨0, by omega, by omega, now⟩
    · rw [poll, run_bind, pollFlush_run, if_neg now] at left
      obtain ⟨m, within, filled, flushed⟩ := ih left
      refine ⟨m + 1, by omega, ?_, flushed⟩
      intro j lt
      cases j with
      | zero => exact now
      | succ j => exact filled j (by omega)

theorem flushFifos_run : ((flushFifos driver).run answers).2 =
    (((poll pollFlush driver.pollLimit.toNat ()).run answers).2.1.isLeft,
      ((poll pollFlush driver.pollLimit.toNat ()).run answers).2.2) := by
  change ((store .mfifoctl (mfifoctlTxflush ||| mfifoctlRxflush) >>= fun _ =>
    poll pollFlush driver.pollLimit.toNat () >>= fun polled =>
      store .mfifoctl 0 >>= fun _ => (pure polled.isLeft : Program Bool)).run answers).2 = _
  simp only [run_bind]
  rfl

theorem lineState_run : (lineState.run answers).2 =
    (if answers.get 0 &&& mbmonScl = 0 then .sclLowTimeout
      else if answers.get 0 &&& mbmonSda = 0 then .sdaLow else .ok, answers.drop 1) := by
  have head : answers.get 0 = answers.head := rfl
  rw [head]
  simp only [lineState, run_bind, load, run]
  by_cases scl : answers.head &&& mbmonScl = 0
  · simp only [scl, if_true]
    rfl
  by_cases sda : answers.head &&& mbmonSda = 0
  · simp only [scl, sda, if_true, if_false]
    rfl
  · simp only [scl, sda, if_false]
    rfl

/-- What `hal_i2c_controller_prepare` does on a bus that is free and idle. -/
theorem prepare_run (free : (lineState.run answers).2.1 = .ok) (idle : answers.get 1 &&& msrBusy = 0) :
    ((prepare driver).run answers).2 =
      let flush := (flushFifos { driver with lastStatus := answers.get 1 }).run (answers.drop 2)
      ((if flush.2.1 then .ok else .timeout, { driver with lastStatus := answers.get 1 }),
        flush.2.2) := by
  have rest : (lineState.run answers).2.2 = answers.drop 1 := by rw [lineState_run]
  have status : (answers.drop 1).head = answers.get 1 := rfl
  simp only [prepare, run_bind, free, ne_eq, not_true_eq_false, if_false, rest, load, run, status, idle]
  rfl

theorem prepare_ready {m : Nat} (ready : Ready driver.pollLimit.toNat answers m) :
    ((prepare driver).run answers).2 =
      ((.ok, { driver with lastStatus := answers.get 1 }), answers.drop (3 + m)) := by
  have free : (lineState.run answers).2.1 = .ok := by
    rw [lineState_run, if_neg ready.scl, if_neg ready.sda]
  have filled : ∀ j < m, ¬Flushed ((answers.drop 2).get j) := fun j lt => by
    rw [Stream'.get_drop]
    exact ready.filled j lt
  have flushed : Flushed ((answers.drop 2).get m) := by
    rw [Stream'.get_drop]
    exact ready.flushed
  have found := flush_found ready.within filled flushed
  rw [prepare_run free ready.idle]
  dsimp only
  rw [flushFifos_run, found, Stream'.drop_drop, show 2 + (m + 1) = 3 + m by omega]
  rfl

theorem ready_of_prepare (ok : ((prepare driver).run answers).2.1.1 = .ok) :
    ∃ m, Ready driver.pollLimit.toNat answers m := by
  by_cases free : (lineState.run answers).2.1 = .ok
  · by_cases idle : answers.get 1 &&& msrBusy = 0
    · rw [prepare_run free idle] at ok
      dsimp only at ok
      rw [flushFifos_run] at ok
      obtain ⟨m, within, filled, flushed⟩ := flush_inl (by simpa using ok)
      rw [lineState_run] at free
      split_ifs at free with scl sda
      exact ⟨m, scl, sda, idle, within, fun j lt => by simpa [Stream'.get_drop] using filled j lt,
        by simpa [Stream'.get_drop] using flushed⟩
    · have rest : (lineState.run answers).2.2 = answers.drop 1 := by rw [lineState_run]
      have status : (answers.drop 1).head = answers.get 1 := rfl
      simp only [prepare, run_bind, free, ne_eq, not_true_eq_false, if_false, rest, load, run, status,
        idle, not_false_eq_true, if_true] at ok
      cases ok
  · simp only [prepare, run_bind, free, ne_eq, not_false_eq_true, if_true] at ok
    exact absurd ok free

end Prepare

/-! ## The starts of a transfer -/

/-- How often a program asks for START. -/
def starts {α : Type} (p : Program α) (held : BitVec 32) (answers : Stream' (BitVec 32)) : Nat :=
  (p.runReadback .mctr held answers).1.countP isStart

theorem starts_bind {α β : Type} (p : Program α) (f : α → Program β) (held : BitVec 32)
    (answers : Stream' (BitVec 32)) : starts (p >>= f) held answers = starts p held answers +
      starts (f (p.runReadback .mctr held answers).2.1) (p.runReadback .mctr held answers).2.2.1
        (p.runReadback .mctr held answers).2.2.2 := by
  rw [starts, runReadback_bind]
  exact List.countP_append

/-- Writes to other registers leave the count, MCTR and the answers as they are. -/
theorem starts_bind_stores {α : Type} {p : Program Unit} (f : Unit → Program α)
    (others : ∀ t u, p.Makes t u → ∀ a ∈ t, ∃ r v, a = .write r v ∧ r ≠ .mctr) (held : BitVec 32)
    (answers : Stream' (BitVec 32)) : starts (p >>= f) held answers = starts (f ()) held answers := by
  have made := others _ _ (run_makes p answers)
  have unread : readsOf .mctr (p.run answers).1 = [] := by
    rw [readsOf, List.filterMap_eq_nil_iff]
    intro a mem
    obtain ⟨r, v, rfl, -⟩ := made a mem
    rfl
  have unwritten : writesOf .mctr (p.run answers).1 = [] := by
    rw [writesOf, List.filterMap_eq_nil_iff]
    intro a mem
    obtain ⟨r, v, rfl, other⟩ := made a mem
    simp [other]
  have ran := runReadback_eq_run .mctr p held answers unread
  rw [unwritten, run_unread p answers fun a mem => (made a mem).imp fun r h => h.imp fun v h => h.1]
    at ran
  have none : (p.run answers).1.countP isStart = 0 := by
    rw [List.countP_eq_zero]
    intro a mem
    obtain ⟨r, v, rfl, other⟩ := made a mem
    unfold isStart
    split
    next same =>
      cases same
      exact absurd rfl other
    · simp
  rw [starts_bind, starts, ran, none, Nat.zero_add]
  rfl

theorem starts_bind_start {α : Type} {control : BitVec 32} (asks : control &&& mctrStart ≠ 0)
    (f : Unit → Program α) (held : BitVec 32) (answers : Stream' (BitVec 32)) :
    starts (store .mctr control >>= f) held answers = 1 + starts (f ()) control answers := by
  have one : starts (store .mctr control) held answers = 1 := by
    simpa [starts, store, runReadback, isStart] using asks
  rw [starts_bind, one]
  rfl

theorem Quiet.not_start {a : Access} (quiet : Quiet a) : isStart a = false := by
  unfold Quiet at quiet
  split at quiet
  · cases quiet
  · cases quiet
  · simpa [isStart] using quiet
  next other =>
    unfold isStart
    split
    next control => exact absurd rfl (other _)
    · rfl

theorem countP_quiet {t : List Access} (quiet : ∀ a ∈ t, Quiet a) : t.countP isStart = 0 := by
  rw [List.countP_eq_zero]
  intro a mem
  simp [(quiet a mem).not_start]

theorem starts_eq_zero {α : Type} {p : Program α}
    (none : ∀ t a, p.Makes t a → t.countP isStart = 0) (held : BitVec 32)
    (answers : Stream' (BitVec 32)) : starts p held answers = 0 :=
  none _ _ (runReadback_makes .mctr p held answers)

section Transfer

variable {driver driver' : Driver} {answers : Stream' (BitVec 32)} {t : List Access} {result : Result}

theorem Prepared.quiet (h : Prepared t) : ∀ a ∈ t, Quiet a := by
  obtain ⟨lines, status, polls, fifos, rfl, quiet, -⟩ := h
  simpa [or_imp, forall_and, Quiet] using quiet

theorem prepare_quiet (h : (prepare driver).Makes t (result, driver')) : ∀ a ∈ t, Quiet a := by
  obtain ⟨-, ⟨-, prepared⟩ | ⟨-, -, quiet⟩⟩ := prepare_makes h
  · exact prepared.quiet
  · exact quiet

theorem prepare_unread (h : (prepare driver).Makes t (result, driver')) : readsOf .mctr t = [] := by
  have polled : ∀ {driver : Driver} {t : List Access} {flushed : Bool},
      (flushFifos driver).Makes t flushed → readsOf .mctr t = [] := by
    intro driver t flushed h
    obtain ⟨polls, reads, rfl, -⟩ := flushFifos_makes h
    have none : readsOf .mctr polls = [] := by
      rw [readsOf, List.filterMap_eq_nil_iff]
      intro a mem
      obtain ⟨v, rfl⟩ := reads a mem
      simp
    simp [none]
  simp only [prepare, makes_bind] at h
  obtain ⟨_, lineResult, rest, rfl, monitored, h⟩ := h
  obtain ⟨lines, rfl, -⟩ := lineState_makes monitored
  split at h
  · obtain ⟨rfl, -⟩ := h
    simp
  · simp only [makes_load_bind] at h
    obtain ⟨status, _, rfl, h⟩ := h
    split at h
    · obtain ⟨rfl, -⟩ := h
      simp
    · simp only [makes_store_bind, clearEvents] at h
      obtain ⟨_, rfl, _, rfl, h⟩ := h
      simp only [makes_bind, makes_pure] at h
      obtain ⟨_, flushed, _, rfl, flush, rfl, -⟩ := h
      simp [polled flush]

theorem turns_unread (seen : List Sample) : readsOf .mctr (seen.flatMap turn) = [] := by
  induction seen with
  | nil => rfl
  | cons s seen ih =>
    rw [List.flatMap_cons, readsOf_append, ih, turn]
    split_ifs <;> simp

theorem turns_quiet (seen : List Sample) : ∀ a ∈ seen.flatMap turn, Quiet a := by
  intro a mem
  obtain ⟨s, -, mem⟩ := List.mem_flatMap.mp mem
  unfold turn at mem
  split_ifs at mem
  · simp only [List.cons_append, List.nil_append, List.mem_cons, List.not_mem_nil, or_false] at mem
    obtain rfl | rfl | rfl := mem <;> trivial
  · simp only [List.cons_append, List.nil_append, List.mem_cons, List.not_mem_nil, or_false] at mem
    obtain rfl | rfl := mem <;> trivial

/-- Adding STOP to a control word does not change its START bit. -/
theorem start_of_stop (control : BitVec 32) :
    (control ||| mctrStop) &&& mctrStart = control &&& mctrStart := by
  have apart : mctrStop &&& mctrStart = 0#32 := rfl
  rw [BitVec.and_or_distrib_right, apart, BitVec.or_zero]

/-- Waiting asks for START again if polling gives up, and then returns TIMEOUT. -/
theorem starts_wait {control : BitVec 32} (started : control &&& mctrStart ≠ 0) :
    starts (waitForCompletion driver) control answers =
      if ∀ k < driver.pollLimit.toNat, (sample answers k).Busy then 1 else 0 := by
  split_ifs with busy
  · have polled := poll_run_busy (.ok, driver) answers busy
    have ran := runReadback_eq_run .mctr (poll pollCompletion driver.pollLimit.toNat (.ok, driver))
      control answers (by rw [polled]; exact turns_unread _)
    rw [polled] at ran
    dsimp only at ran
    rw [writesOf_turns] at ran
    rw [starts, waitForCompletion, runReadback_bind, ran]
    have again : (control ||| mctrStop) &&& mctrStart ≠ 0 := by
      rwa [start_of_stop]
    rw [List.countP_append, countP_quiet (turns_quiet _), Nat.zero_add]
    change List.countP isStart [.read .mctr control, .write .mctr (control ||| mctrStop)] = 1
    simpa [isStart] using again
  · obtain ⟨k, within, done, before⟩ := first_done busy
    obtain ⟨rest, finished⟩ := waitForCompletion_done within before done
    have ran := runReadback_eq_run .mctr (waitForCompletion driver) control answers
      (by rw [finished]; exact turns_unread _)
    rw [starts, ran, finished]
    exact countP_quiet (turns_quiet _)

/-- The rest of a transfer after the wait. -/
theorem starts_finish {memory : Memory} {finish : Result × Driver → Program Outcome}
    (drains : Drains finish) (out : Result × Driver) (held : BitVec 32)
    (answers : Stream' (BitVec 32)) :
    starts (if out.1 ≠ .ok then do
        let _ ← flushFifos out.2
        pure (out.1, out.2, memory)
      else finish out : Program Outcome) held answers = 0 := by
  apply starts_eq_zero
  intro t outcome h
  split at h
  · simp only [makes_bind, makes_pure] at h
    obtain ⟨_, _, _, rfl, flushed, rfl, -⟩ := h
    exact countP_quiet (by simpa using flushFifos_quiet flushed)
  · rw [List.countP_eq_zero]
    intro a mem
    obtain ⟨v, rfl | rfl⟩ := drains _ _ _ h a mem <;> simp [isStart]

theorem Ready.unique {limit m m' : Nat} (h : Ready limit answers m) (h' : Ready limit answers m') :
    m' = m := by
  rcases Nat.lt_trichotomy m m' with lt | eq | gt
  · exact absurd h.flushed (h'.filled m lt)
  · exact eq.symm
  · exact absurd h'.flushed (h.filled m' gt)

/-- A transfer asks for START once, and once more if its polling gives up. -/
theorem starts_transfer {memory : Memory} {queue : Program Unit} {payload : List (BitVec 8)}
    {address : BitVec 8} {reading : Bool} {length : BitVec 8} {readAfterWrite : Bool}
    {finish : Result × Driver → Program Outcome} (drains : Drains finish)
    (queues : ∀ t u, queue.Makes t u → t = payload.map fun b => .write .mtxdata (b.setWidth 32))
    (held : BitVec 32) :
    starts (transfer driver memory queue address reading length readAfterWrite finish) held answers ≤ 1 ↔
      ¬GivesUp driver.pollLimit.toNat answers := by
  have made := run_makes (prepare driver) answers
  have prepared := runReadback_eq_run .mctr (prepare driver) held answers (prepare_unread made)
  have none : starts (prepare driver) held answers = 0 :=
    starts_eq_zero (fun t out h => countP_quiet (prepare_quiet h)) held answers
  rw [transfer, starts_bind, none, prepared, Nat.zero_add]
  dsimp only
  by_cases ready : ∃ m, Ready driver.pollLimit.toNat answers m
  · obtain ⟨m, ready⟩ := ready
    have givesUp : GivesUp driver.pollLimit.toNat answers ↔
        ∀ k < driver.pollLimit.toNat, (sample (answers.drop (3 + m)) k).Busy := by
      constructor
      · rintro ⟨m', ready', busy⟩
        exact ready.unique ready' ▸ busy
      · exact fun busy => ⟨m, ready, busy⟩
    obtain ⟨control, stores, asks⟩ := start_stores length readAfterWrite
    rw [prepare_ready ready]
    dsimp only
    rw [if_neg (not_not.mpr rfl), stores, starts_bind_stores, starts_bind_stores, starts_bind_start asks,
      starts_bind, starts_wait asks, starts_finish drains, givesUp]
    · split_ifs with busy
      · simpa using busy
      · simpa using busy
    · intro t u h a mem
      simp only [setAddress, makes_store] at h
      subst h
      rw [List.mem_singleton.mp mem]
      exact ⟨_, _, rfl, by simp⟩
    · intro t u h a mem
      rw [queues t u h] at mem
      obtain ⟨b, -, rfl⟩ := List.mem_map.mp mem
      exact ⟨_, _, rfl, by simp⟩
  · have failed : ((prepare driver).run answers).2.1.1 ≠ .ok := fun ok => ready (ready_of_prepare ok)
    have stays : ¬GivesUp driver.pollLimit.toNat answers := fun h => ready (h.imp fun _ h => h.1)
    rw [if_pos failed]
    exact iff_of_true (Nat.zero_le _) stays

end Transfer

/-! ## Sessions -/

theorem starts_perform {driver : Driver} (initialized : driver.initialized = true) (call : Call)
    (memory : Memory) (held : BitVec 32) (answers : Stream' (BitVec 32)) :
    starts (call.perform driver memory) held answers ≤ 1 ↔
      ¬(call.Accepted ∧ GivesUp driver.pollLimit.toNat answers) := by
  have performs : Performs driver memory call (call.perform driver memory) :=
    perform_performs initialized
  generalize call.perform driver memory = program at performs
  cases performs with
  | refused rejected =>
    exact iff_of_true (Nat.zero_le _) fun h => rejected h.1
  | transferred accepted queues _ drains =>
    rw [starts_transfer drains queues]
    simp [accepted]

theorem operations_starts {driver : Driver} (initialized : driver.initialized = true)
    (calls : List (Call × Memory)) (held : BitVec 32) (answers : Stream' (BitVec 32)) :
    ∀ op ∈ operations driver calls held answers, op.trace.countP isStart ≤ 1 ↔ ¬op.GivesUp := by
  induction calls generalizing driver held answers with
  | nil => simp [operations]
  | cons first calls ih =>
    obtain ⟨call, memory⟩ := first
    obtain ⟨kept, -⟩ := perform_makes initialized
      (runReadback_makes .mctr (call.perform driver memory) held answers)
    intro op mem
    rcases List.mem_cons.mp mem with rfl | later
    · exact starts_perform initialized call memory held answers
    · exact ih kept _ _ op later

/-- After a successful init, a call asks for START at most once if and only if it
does not give up polling: the STOP that it then requests repeats the START. -/
theorem starts_once_iff (config : Option Config) (driver driver' : Driver) (held held' : BitVec 32)
    (answers rest : Stream' (BitVec 32)) (trace : List Access)
    (opened : (init config driver).runReadback .mctr held answers =
      (trace, (true, driver'), held', rest)) (calls : List (Call × Memory)) :
    (∀ op ∈ operations driver' calls held' rest, op.trace.countP isStart ≤ 1 ↔ ¬op.GivesUp) ∧
      ((∀ op ∈ operations driver' calls held' rest, op.trace.countP isStart ≤ 1) ↔
        ∀ op ∈ operations driver' calls held' rest, ¬op.GivesUp) := by
  have made := runReadback_makes .mctr (init config driver) held answers
  rw [opened] at made
  have each := operations_starts (init_makes made) calls held' rest
  exact ⟨each, forall₂_congr each⟩

theorem starts_once_iff_sample :
    let ops := operations sampleOpened [(.write 0x20 (some 8) 1, fun _ => 0xA5)] 0 sampleAnswers.tail
    ops.map (fun op => op.trace.countP isStart) = [1] ∧ ∀ op ∈ ops, ¬op.GivesUp := by
  have opened : (init (some sampleConfig) sampleReset).runReadback .mctr 0 sampleAnswers =
      (_, (true, sampleOpened), 0, sampleAnswers.tail) := rfl
  refine ⟨by decide +kernel, ?_⟩
  exact (starts_once_iff (some sampleConfig) sampleReset sampleOpened 0 0 sampleAnswers
    sampleAnswers.tail _ opened _).2.mp (by decide +kernel)

/-- The bus stays busy after START. -/
def stuckAnswers : Stream' (BitVec 32) := fun n =>
  [0x4, 0x3, 0x0, 0x400, 0x1, 0x0, 0x1, 0x0, 0x400].getD n 0

/-- A write that times out asks for START twice. -/
theorem start_repeated : ¬∀ (config : Option Config) (driver driver' : Driver)
    (held held' : BitVec 32) (answers rest : Stream' (BitVec 32)) (trace : List Access),
    (init config driver).runReadback .mctr held answers = (trace, (true, driver'), held', rest) →
    ∀ calls : List (Call × Memory), ∀ op ∈ operations driver' calls held' rest,
      op.trace.countP isStart ≤ 1 := by
  intro always
  have opened : (init (some sampleConfig) sampleReset).runReadback .mctr 0 stuckAnswers =
      (_, (true, sampleOpened), 0, stuckAnswers.tail) := rfl
  have once := always (some sampleConfig) sampleReset sampleOpened 0 0 stuckAnswers stuckAnswers.tail _
    opened [(.write 0x20 (some 8) 1, fun _ => 0xA5)]
  exact absurd once (by decide +kernel)

end MspmBaremetal.I2cController
