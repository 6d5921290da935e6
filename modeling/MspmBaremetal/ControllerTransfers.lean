import MspmBaremetal.I2cController
import MspmBaremetal.Transition
import Mathlib.Data.List.Induction

/-!
# Transactions of the I2C controller

What each function of the driver does to the registers, whatever they answer,
and from it what every transaction does.
-/

namespace MspmBaremetal.I2cController

open RegisterProgram

section Functions

variable {driver driver' : Driver} {t : List Access} {result : Result} {memory memory' : Memory}

theorem flushFifos_makes {flushed : Bool} (h : (flushFifos driver).Makes t flushed) :
    ∃ polls, (∀ a ∈ polls, ∃ v, a = .read .mfifosr v) ∧
      t = .write .mfifoctl (mfifoctlTxflush ||| mfifoctlRxflush) :: polls ++ [.write .mfifoctl 0] ∧
      (flushed = true → ∃ pre v, polls = pre ++ [.read .mfifosr v] ∧ Flushed v) := by
  simp only [flushFifos, makes_store_bind] at h
  obtain ⟨_, rfl, h⟩ := h
  obtain ⟨polls, polled, _, rfl, looped, _, rfl, rfl, rfl⟩ := (makes_bind _ _ _ _).mp h
  have turns := makes_poll _ (fun t _ => ∀ a ∈ t, ∃ v, a = .read .mfifosr v) ?_ (by simp) looped
  · cases polled with
    | inr s => exact ⟨polls, turns, by simp, by simp⟩
    | inl u =>
      obtain ⟨pre, s, last, rfl, before, turn⟩ := turns
      simp only [makes_load_bind, makes_pure] at turn
      obtain ⟨v, _, rfl, rfl, out⟩ := turn
      have done : Flushed v := by
        by_contra notYet
        simp [notYet] at out
      refine ⟨pre ++ [.read .mfifosr v], ?_, by simp, fun _ => ⟨pre, v, rfl, done⟩⟩
      simpa [or_imp, forall_and] using before
  · intro t s t' s' before turn
    simp only [makes_load_bind, makes_pure] at turn
    obtain ⟨v, _, rfl, rfl, -⟩ := turn
    simpa [or_imp, forall_and] using before

/-- The accesses of waiting: MSR, RIS, ICLR, and MCTR when polling gives up. -/
def Waiting : Access → Prop
  | .read .msr _ | .read .ris _ | .write .iclr _ | .read .mctr _ | .write .mctr _ => True
  | _ => False

/-- What waiting carries from turn to turn. -/
def Carried (driver : Driver) (state : Result × Driver) : Prop :=
  state.1 ≠ .invalidArgument ∧ state.2.initialized = driver.initialized

theorem statusResult_ne (status : BitVec 32) : statusResult status ≠ .invalidArgument := by
  unfold statusResult
  split_ifs <;> simp

theorem pollCompletion_makes {state : Result × Driver} {out : (Result × Driver) ⊕ (Result × Driver)}
    (carried : Carried driver state) (h : (pollCompletion state).Makes t out) :
    (∀ a ∈ t, Waiting a) ∧ Carried driver (out.elim id id) := by
  simp only [pollCompletion, makes_load_bind] at h
  obtain ⟨status, _, rfl, events, _, rfl, h⟩ := h
  obtain ⟨_, result, _, rfl, cleared, left⟩ := (makes_bind _ _ _ _).mp h
  obtain ⟨rfl, rfl⟩ := left
  have next : Carried driver (Sum.elim id id (if status &&& msrBusy = 0 then
      .inl (result, { state.2 with lastStatus := status })
      else .inr (result, { state.2 with lastStatus := status }))) ↔
      result ≠ .invalidArgument := by
    split_ifs <;> simp [Carried, carried.2]
  rw [next]
  split at cleared
  · simp only [clearEvents, makes_store_bind, makes_pure] at cleared
    obtain ⟨_, rfl, rfl, rfl⟩ := cleared
    simp [Waiting]
  · obtain ⟨rfl, rfl⟩ := cleared
    refine ⟨by simp [Waiting], ?_⟩
    split_ifs
    · exact statusResult_ne status
    · exact carried.1

theorem waitForCompletion_makes (h : (waitForCompletion driver).Makes t (result, driver')) :
    (∀ a ∈ t, Waiting a) ∧ Carried driver (result, driver') := by
  simp only [waitForCompletion, makes_bind] at h
  obtain ⟨polls, polled, _, rfl, looped, rest⟩ := h
  have turns := makes_poll _ (fun t s => (∀ a ∈ t, Waiting a) ∧ Carried driver s) ?_
    (by simp [Carried]) looped
  · cases polled with
    | inl out =>
      obtain ⟨rfl, rfl⟩ := rest
      obtain ⟨pre, s, last, rfl, ⟨before, carried⟩, turn⟩ := turns
      obtain ⟨after, carried⟩ := pollCompletion_makes carried turn
      exact ⟨by simpa [or_imp, forall_and] using And.intro before after, carried⟩
    | inr s =>
      obtain ⟨before, -, initialized⟩ := turns
      simp only [makes_load_bind, makes_store_bind, makes_pure, Prod.mk.injEq] at rest
      obtain ⟨_, _, rfl, _, rfl, rfl, rfl, rfl⟩ := rest
      exact ⟨by simpa [or_imp, forall_and, Waiting] using before, by simp, initialized⟩
  · intro t s t' s' waiting turn
    obtain ⟨before, carried⟩ := waiting
    obtain ⟨after, carried⟩ := pollCompletion_makes carried turn
    exact ⟨by simpa [or_imp, forall_and] using And.intro before after, carried⟩

/-- No START, no byte into or out of a FIFO. -/
def Quiet : Access → Prop
  | .write .mtxdata _ | .read .mrxdata _ => False
  | .write .mctr control => control &&& mctrStart = 0
  | _ => True

/-- The accesses of a `hal_i2c_controller_prepare` that succeeds. -/
def Prepared (t : List Access) : Prop :=
  ∃ lines status polls fifos, t = [.read .mbmon lines, .read .msr status, .write .mctr 0,
      .write .iclr eventMask, .write .mfifoctl (mfifoctlTxflush ||| mfifoctlRxflush)] ++ polls ++
      [.read .mfifosr fifos, .write .mfifoctl 0] ∧
    (∀ a ∈ polls, Quiet a) ∧ lines &&& mbmonScl ≠ 0 ∧ lines &&& mbmonSda ≠ 0 ∧
    status &&& msrBusy = 0 ∧ Flushed fifos

theorem Quiet.of_polls {polls : List Access} (h : ∀ a ∈ polls, ∃ v, a = .read .mfifosr v) :
    ∀ a ∈ polls, Quiet a := by
  intro a ha
  obtain ⟨v, rfl⟩ := h a ha
  trivial

theorem flushFifos_quiet {flushed : Bool} (h : (flushFifos driver).Makes t flushed) :
    ∀ a ∈ t, Quiet a := by
  obtain ⟨polls, reads, rfl, -⟩ := flushFifos_makes h
  simpa [or_imp, forall_and, Quiet] using Quiet.of_polls reads

theorem lineState_makes (h : lineState.Makes t result) :
    ∃ lines, t = [.read .mbmon lines] ∧
      (result = .ok ∧ lines &&& mbmonScl ≠ 0 ∧ lines &&& mbmonSda ≠ 0 ∨
        result = .sclLowTimeout ∨ result = .sdaLow) := by
  simp only [lineState, makes_load_bind] at h
  obtain ⟨lines, _, rfl, rest⟩ := h
  refine ⟨lines, ?_⟩
  split at rest
  · obtain ⟨rfl, rfl⟩ := rest
    simp
  split at rest <;> obtain ⟨rfl, rfl⟩ := rest
  · simp
  · exact ⟨rfl, .inl ⟨rfl, ‹_›, ‹_›⟩⟩

theorem prepare_makes (h : (prepare driver).Makes t (result, driver')) :
    driver'.initialized = driver.initialized ∧ (result = .ok ∧ Prepared t ∨
      result ≠ .ok ∧ result ≠ .invalidArgument ∧ ∀ a ∈ t, Quiet a) := by
  simp only [prepare, makes_bind] at h
  obtain ⟨_, lineResult, rest, rfl, monitored, h⟩ := h
  obtain ⟨lines, rfl, free⟩ := lineState_makes monitored
  by_cases line : lineResult = .ok
  · simp only [line, ne_eq, not_true_eq_false, if_false, makes_load_bind] at h
    obtain ⟨status, _, rfl, h⟩ := h
    split at h
    · simp only [makes_pure, Prod.mk.injEq] at h
      obtain ⟨rfl, rfl, rfl⟩ := h
      exact ⟨rfl, .inr ⟨by simp, by simp, by simp [Quiet]⟩⟩
    next idle =>
      simp only [makes_store_bind, clearEvents] at h
      obtain ⟨_, rfl, _, rfl, h⟩ := h
      simp only [makes_bind, makes_pure, Prod.mk.injEq] at h
      obtain ⟨_, flushed, _, rfl, flush, rfl, rfl, rfl⟩ := h
      refine ⟨rfl, ?_⟩
      cases flushed with
      | false =>
        have quiet := flushFifos_quiet flush
        exact .inr ⟨by simp, by simp, by simpa [or_imp, forall_and, Quiet] using quiet⟩
      | true =>
        obtain ⟨polls, reads, rfl, done⟩ := flushFifos_makes flush
        obtain ⟨pre, fifos, rfl, flushed⟩ := done rfl
        simp only [line, true_and, reduceCtorEq, or_self, or_false] at free
        refine .inl ⟨rfl, lines, status, pre, fifos, by simp, ?_, free.1, free.2,
          not_not.mp idle, flushed⟩
        exact fun a ha => Quiet.of_polls reads a (by simp [ha])
  · simp only [line, ne_eq, not_false_eq_true, if_true, makes_pure, Prod.mk.injEq] at h
    obtain ⟨rfl, rfl, rfl⟩ := h
    refine ⟨rfl, .inr ⟨line, ?_, by simp [Quiet]⟩⟩
    rintro rfl
    simp at free

theorem preloadWrite_makes {data : Nat} {length : BitVec 8} {u : Unit}
    (h : (preloadWrite memory data length).Makes t u) :
    t = ((List.range length.toNat).map fun i => memory (data + i)).map
      fun b => .write .mtxdata (b.setWidth 32) := by
  rw [preloadWrite, makes_forM_store] at h
  simpa [Function.comp_def] using h

/-- The received bytes stand in order from `data` on, and nothing else changed. -/
def Received (memory : Memory) (data : Nat) (values : List (BitVec 32)) (memory' : Memory) : Prop :=
  (∀ i (h : i < values.length), memory' (data + i) = (values[i] &&& mrxdataValue).setWidth 8) ∧
    ∀ a, a < data ∨ data + values.length ≤ a → memory' a = memory a

theorem received_foldl (memory : Memory) (data : Nat) (values : List (BitVec 32)) :
    Received memory data values
      (((List.range values.length).zip values).foldl (fun memory p =>
        Function.update memory (data + p.1) ((p.2 &&& mrxdataValue).setWidth 8)) memory) := by
  induction values using List.reverseRecOn with
  | nil => exact ⟨by simp, fun _ _ => rfl⟩
  | append_singleton values v ih =>
    obtain ⟨stored, kept⟩ := ih
    rw [List.length_append, List.length_singleton, List.range_succ,
      List.zip_append (by simp), List.foldl_append]
    constructor
    · intro i hi
      rcases Nat.lt_or_ge i values.length with lt | ge
      · simpa [Function.update_of_ne (show data + i ≠ data + values.length by omega),
          List.getElem_append_left lt] using stored i lt
      · obtain rfl : i = values.length := by simp at hi; omega
        simp
    · intro a outside
      have ne : a ≠ data + values.length := by simp at outside; omega
      simpa [Function.update_of_ne ne] using kept a (by simp at outside; omega)

theorem readFifo_makes {data : Nat} {length : BitVec 8} {complete : Bool}
    (h : (readFifo memory data length).Makes t (complete, memory')) :
    ∃ fifos, complete = false ∧ memory' = memory ∧ t = [.read .mfifosr fifos] ∨
      complete = true ∧ length.setWidth 32 ≤ fifos &&& mfifosrRxfifocnt ∧
      ∃ values, values.length = length.toNat ∧ t = .read .mfifosr fifos :: values.map (.read .mrxdata) ∧
        Received memory data values memory' := by
  simp only [readFifo, makes_load_bind] at h
  obtain ⟨fifos, _, rfl, h⟩ := h
  refine ⟨fifos, ?_⟩
  split at h
  · simp only [makes_pure, Prod.mk.injEq] at h
    obtain ⟨rfl, rfl, rfl⟩ := h
    exact .inl ⟨rfl, rfl, rfl⟩
  next enough =>
    simp only [makes_bind, makes_pure, Prod.mk.injEq] at h
    obtain ⟨_, out, _, rfl, loop, rfl, rfl, rfl⟩ := h
    have loop := (makes_foldlM_load Register.mrxdata (fun (memory : Memory) index value =>
      Function.update memory (data + index) ((value &&& mrxdataValue).setWidth 8)) _ _ _ _).mp loop
    obtain ⟨values, length_eq, rfl, rfl⟩ := loop
    have count : values.length = length.toNat := by simpa using length_eq
    refine .inr ⟨rfl, BitVec.not_lt.mp enough, values, count, by simp, ?_⟩
    rw [← count]
    exact received_foldl memory data values

end Functions

/-! ## The three operations -/

/-- The bytes a call gives to be sent. -/
def Call.payload (memory : Memory) : Call → List (BitVec 8)
  | .write _ (some data) length => (List.range length.toNat).map fun i => memory (data + i)
  | .writeRead _ (some data) length _ _ => (List.range length.toNat).map fun i => memory (data + i)
  | _ => []

/-- Where a call wants the bytes it receives. -/
def Call.buffer : Call → Option (Nat × BitVec 8)
  | .read _ (some data) length => some (data, length)
  | .writeRead _ _ _ (some data) length => some (data, length)
  | _ => none

/-- A length the four-entry FIFO takes. -/
def Fits (length : BitVec 8) : Prop := length ≠ 0 ∧ length ≤ maxTransfer

/-- The arguments the driver accepts. -/
def Call.Accepted : Call → Prop
  | .write address data length => address ≤ 0x7f ∧ data.isSome ∧ Fits length
  | .read address data length => address ≤ 0x7f ∧ data.isSome ∧ Fits length
  | .writeRead address writeData writeLength readData readLength =>
    address ≤ 0x7f ∧ writeData.isSome ∧ readData.isSome ∧ Fits writeLength ∧ Fits readLength

/-- A transfer was started: prepared, the payload queued, the address set. -/
def Launched (payload : List (BitVec 8)) (t : List Access) : Prop :=
  ∃ prep address control,
    t = prep ++ payload.map (fun b => .write .mtxdata (b.setWidth 32)) ++
      [.write .msa address, .write .mctr control] ∧
    Prepared prep ∧ control &&& mctrStart ≠ 0

/-- No byte into or out of a FIFO. -/
def Inert : Access → Prop
  | .write .mtxdata _ | .read .mrxdata _ => False
  | _ => True

/-- How an accepted call can go. -/
inductive Transfer (call : Call) (memory : Memory) : List Access → Result → Memory → Prop
  | refused {t result} (quiet : ∀ a ∈ t, Quiet a) (failed : result ≠ .ok) :
      Transfer call memory t result memory
  | failed {before rest result} (launched : Launched (call.payload memory) before)
      (inert : ∀ a ∈ rest, Inert a) (failed : result ≠ .ok) :
      Transfer call memory (before ++ rest) result memory
  | written {before rest} (launched : Launched (call.payload memory) before)
      (inert : ∀ a ∈ rest, Inert a) (buffer : call.buffer = none) :
      Transfer call memory (before ++ rest) .ok memory
  | received {before rest fifos data length values memory'}
      (launched : Launched (call.payload memory) before) (waiting : ∀ a ∈ rest, Waiting a)
      (buffer : call.buffer = some (data, length))
      (count : length.setWidth 32 ≤ fifos &&& mfifosrRxfifocnt)
      (length_eq : values.length = length.toNat) (stored : Received memory data values memory') :
      Transfer call memory
        (before ++ rest ++ .read .mfifosr fifos :: values.map (.read .mrxdata)) .ok memory'

theorem start_stores (length : BitVec 8) (readAfterWrite : Bool) :
    ∃ control, start length readAfterWrite = store .mctr control ∧ control &&& mctrStart ≠ 0 := by
  refine ⟨_, rfl, fun h => ?_⟩
  have bit := congrArg (fun x => x.getLsbD 1) h
  simp [mctrStart, mctrBurstrun, mctrStop] at bit

theorem start_launches {prep : List Access} {payload : List (BitVec 8)} {address length : BitVec 8}
    {reading readAfterWrite : Bool} {a b : List Access} {u v : Unit} (prepared : Prepared prep)
    (addressed : (setAddress address reading).Makes a u)
    (started : (start length readAfterWrite).Makes b v) :
    Launched payload
      (prep ++ payload.map (fun b => .write .mtxdata (b.setWidth 32)) ++ (a ++ b)) := by
  obtain ⟨control, stores, asks⟩ := start_stores length readAfterWrite
  rw [stores] at started
  simp only [setAddress, makes_store] at addressed started
  subst addressed started
  exact ⟨prep, _, _, rfl, prepared, asks⟩

theorem Waiting.inert {a : Access} (h : Waiting a) : Inert a := by
  unfold Waiting at h
  split at h <;> trivial

theorem Quiet.inert {a : Access} (h : Quiet a) : Inert a := by
  unfold Quiet at h
  unfold Inert
  split at h <;> simp_all

/-- What a call did: nothing at all, or a transfer for accepted arguments. -/
def Settled (call : Call) (memory : Memory) (t : List Access) (result : Result)
    (memory' : Memory) : Prop :=
  ¬call.Accepted ∧ result = .invalidArgument ∧ t = [] ∧ memory' = memory ∨
    call.Accepted ∧ result ≠ .invalidArgument ∧ Transfer call memory t result memory'

/-- What the three operations share after their argument checks. -/
def transfer (driver : Driver) (memory : Memory) (queue : Program Unit) (address : BitVec 8)
    (reading : Bool) (length : BitVec 8) (readAfterWrite : Bool)
    (finish : Result × Driver → Program Outcome) : Program Outcome := do
  let (result, driver) ← prepare driver
  if result ≠ .ok then pure (result, driver, memory)
  else do
    queue
    setAddress address reading
    start length readAfterWrite
    let (result, driver) ← waitForCompletion driver
    if result ≠ .ok then do
      let _ ← flushFifos driver
      pure (result, driver, memory)
    else finish (result, driver)

section Operations

variable {driver driver' : Driver} {t : List Access} {result : Result} {memory memory' : Memory}
  {address : BitVec 8}

/-- The end of an operation whose transfer went through. -/
def Finishes (call : Call) (memory : Memory) (finish : Result × Driver → Program Outcome) : Prop :=
  ∀ driver driver' rest result memory',
    (finish (.ok, driver)).Makes rest (result, driver', memory') →
      driver' = driver ∧ result ≠ .invalidArgument ∧
      ∀ before wait, Launched (call.payload memory) before → (∀ a ∈ wait, Waiting a) →
        Transfer call memory (before ++ wait ++ rest) result memory'

theorem transfer_makes {call : Call} {queue : Program Unit} {reading readAfterWrite : Bool}
    {length : BitVec 8} {finish : Result × Driver → Program Outcome} (accepted : call.Accepted)
    (queues : ∀ t u, queue.Makes t u →
      t = (call.payload memory).map fun b => .write .mtxdata (b.setWidth 32))
    (finishes : Finishes call memory finish)
    (h : (transfer driver memory queue address reading length readAfterWrite finish).Makes t
      (result, driver', memory')) :
    driver'.initialized = driver.initialized ∧ Settled call memory t result memory' := by
  simp only [transfer, makes_bind] at h
  obtain ⟨prep, ⟨outcome, prepDriver⟩, _, rfl, preparation, h⟩ := h
  obtain ⟨kept, prepared⟩ := prepare_makes preparation
  split at h
  next failed =>
    simp only [makes_pure, Prod.mk.injEq] at h
    obtain ⟨rfl, rfl, rfl, rfl⟩ := h
    obtain ⟨ok, -⟩ | ⟨-, valid, quiet⟩ := prepared
    · exact absurd ok failed
    · exact ⟨kept, .inr ⟨accepted, valid, by simpa using .refused quiet failed⟩⟩
  next ready =>
    obtain ⟨-, prepared⟩ | ⟨bad, -⟩ := prepared
    swap
    · exact absurd (not_not.mp ready) bad
    simp only [makes_bind] at h
    obtain ⟨_, _, _, rfl, queued, _, _, _, rfl, addressed, _, _, _, rfl, started,
      wait, ⟨outcome', waitDriver⟩, rest, rfl, waited, h⟩ := h
    obtain ⟨waiting, valid, kept'⟩ := waitForCompletion_makes waited
    have launched : Launched (call.payload memory) _ := start_launches prepared addressed started
    rw [← queues _ _ queued] at launched
    split at h
    next failed =>
      simp only [makes_bind, makes_pure, Prod.mk.injEq] at h
      obtain ⟨flush, _, _, rfl, flushed, rfl, rfl, rfl, rfl⟩ := h
      refine ⟨kept'.trans kept, .inr ⟨accepted, valid, ?_⟩⟩
      have inert' : ∀ a ∈ wait ++ flush, Inert a := fun a ha =>
        (List.mem_append.mp ha).elim (fun ha => (waiting a ha).inert) fun ha => (flushFifos_quiet flushed a ha).inert
      simpa using Transfer.failed launched inert' failed
    next ok =>
      obtain rfl : outcome' = .ok := not_not.mp ok
      obtain ⟨rfl, valid, finished⟩ := finishes _ _ _ _ _ h
      refine ⟨kept'.trans kept, .inr ⟨accepted, valid, ?_⟩⟩
      simpa using finished _ wait launched waiting

theorem finishes_written {call : Call} (buffer : call.buffer = none) :
    Finishes call memory fun out => (pure (out.1, out.2, memory) : Program Outcome) := by
  intro driver driver' rest result memory' h
  simp only [makes_pure, Prod.mk.injEq] at h
  obtain ⟨rfl, rfl, rfl, rfl⟩ := h
  refine ⟨rfl, by simp, fun before wait launched waiting => ?_⟩
  simpa using Transfer.written launched (fun a ha => (waiting a ha).inert) buffer

theorem finishes_received {call : Call} {data : Nat} {length : BitVec 8}
    (buffer : call.buffer = some (data, length)) :
    Finishes call memory fun out => (do
      let (complete, memory) ← readFifo memory data length
      pure (if complete then .ok else .rxUnderflow, out.2, memory) : Program Outcome) := by
  intro driver driver' rest result memory' h
  simp only [makes_bind, makes_pure, Prod.mk.injEq] at h
  obtain ⟨_, ⟨complete, memory''⟩, _, rfl, received, rfl, rfl, rfl, rfl⟩ := h
  obtain ⟨fifos, ⟨rfl, rfl, rfl⟩ | ⟨rfl, count, values, length_eq, rfl, stored⟩⟩ :=
    readFifo_makes received
  · refine ⟨rfl, by simp, fun before wait launched waiting => ?_⟩
    have inert' : ∀ a ∈ wait ++ [.read .mfifosr fifos], Inert a := by
      simpa [or_imp, forall_and, Inert] using fun a ha => (waiting a ha).inert
    simpa using Transfer.failed launched inert' (by simp : Result.rxUnderflow ≠ .ok)
  · refine ⟨rfl, by simp, fun before wait launched waiting => ?_⟩
    simpa using Transfer.received launched waiting buffer count length_eq stored

theorem fits_iff (length : BitVec 8) : Fits length ↔ ¬(length = 0 ∨ length > maxTransfer) := by
  simp [Fits, BitVec.not_lt]

/-- The end of a transfer reads the RX FIFO and nothing else. -/
def Drains (finish : Result × Driver → Program Outcome) : Prop :=
  ∀ out t outcome, (finish out).Makes t outcome →
    ∀ a ∈ t, ∃ v, a = .read .mfifosr v ∨ a = .read .mrxdata v

theorem drains_written : Drains fun out => (pure (out.1, out.2, memory) : Program Outcome) := by
  intro out t outcome h
  obtain ⟨rfl, -⟩ := h
  simp

theorem drains_received {data : Nat} {length : BitVec 8} : Drains fun out => (do
    let (complete, memory) ← readFifo memory data length
    pure (if complete then .ok else .rxUnderflow, out.2, memory) : Program Outcome) := by
  intro out t outcome h
  simp only [makes_bind, makes_pure] at h
  obtain ⟨_, ⟨complete, memory''⟩, _, rfl, received, rfl, -⟩ := h
  obtain ⟨fifos, ⟨-, -, rfl⟩ | ⟨-, -, values, -, rfl, -⟩⟩ := readFifo_makes received
  · simp
  · simp

/-- An operation of an initialised driver: a refusal of its arguments, or a transfer. -/
inductive Performs (driver : Driver) (memory : Memory) (call : Call) : Program Outcome → Prop
  | refused (rejected : ¬call.Accepted) :
      Performs driver memory call (pure (.invalidArgument, driver, memory))
  | transferred {queue : Program Unit} {address : BitVec 8} {reading : Bool} {length : BitVec 8}
      {readAfterWrite : Bool} {finish : Result × Driver → Program Outcome} (accepted : call.Accepted)
      (queues : ∀ t u, queue.Makes t u →
        t = (call.payload memory).map fun b => .write .mtxdata (b.setWidth 32))
      (finishes : Finishes call memory finish) (drains : Drains finish) :
      Performs driver memory call
        (transfer driver memory queue address reading length readAfterWrite finish)

theorem write_performs {data : Option Nat} {length : BitVec 8}
    (initialized : driver.initialized = true) :
    Performs driver memory (.write address data length) (write driver memory address data length) := by
  simp only [write, initialized, Bool.not_true, Bool.false_eq_true, if_false]
  cases data with
  | none => exact .refused (by simp [Call.Accepted])
  | some data =>
    have accepts : (Call.write address (some data) length).Accepted ↔
        ¬(address > 0x7f ∨ length = 0 ∨ length > maxTransfer) := by
      simp [Call.Accepted, fits_iff, not_or]
    dsimp only
    split
    next bad => exact .refused fun good => accepts.mp good bad
    next good =>
      change Performs _ _ _ (transfer driver memory (preloadWrite memory data length) address false
        length false fun out => pure (out.1, out.2, memory))
      exact .transferred (accepts.mpr good) (fun _ _ => preloadWrite_makes) (finishes_written rfl)
        drains_written

theorem read_performs {data : Option Nat} {length : BitVec 8}
    (initialized : driver.initialized = true) :
    Performs driver memory (.read address data length) (read driver memory address data length) := by
  simp only [read, initialized, Bool.not_true, Bool.false_eq_true, if_false]
  cases data with
  | none => exact .refused (by simp [Call.Accepted])
  | some data =>
    have accepts : (Call.read address (some data) length).Accepted ↔
        ¬(address > 0x7f ∨ length = 0 ∨ length > maxTransfer) := by
      simp [Call.Accepted, fits_iff, not_or]
    dsimp only
    split
    next bad => exact .refused fun good => accepts.mp good bad
    next good =>
      change Performs _ _ _ (transfer driver memory (pure ()) address true length false fun out => do
        let (complete, memory) ← readFifo memory data length
        pure (if complete then .ok else .rxUnderflow, out.2, memory))
      exact .transferred (accepts.mpr good) (fun _ _ h => ((makes_pure () _ _).mp h).1)
        (finishes_received rfl) drains_received

theorem writeRead_performs {writeData readData : Option Nat} {writeLength readLength : BitVec 8}
    (initialized : driver.initialized = true) :
    Performs driver memory (.writeRead address writeData writeLength readData readLength)
      (writeRead driver memory address writeData writeLength readData readLength) := by
  simp only [writeRead, initialized, Bool.not_true, Bool.false_eq_true, if_false]
  split
  next writeData readData =>
    have accepts :
        (Call.writeRead address (some writeData) writeLength (some readData) readLength).Accepted ↔
          ¬(address > 0x7f ∨ writeLength = 0 ∨ readLength = 0 ∨ writeLength > maxTransfer ∨
            readLength > maxTransfer) := by
      simp only [Call.Accepted, fits_iff, not_or, BitVec.not_lt, Option.isSome_some, true_and]
      tauto
    split
    next bad => exact .refused fun good => accepts.mp good bad
    next good =>
      change Performs _ _ _ (transfer driver memory (preloadWrite memory writeData writeLength) address
        true readLength true fun out => do
          let (complete, memory) ← readFifo memory readData readLength
          pure (if complete then .ok else .rxUnderflow, out.2, memory))
      exact .transferred (accepts.mpr good) (fun _ _ => preloadWrite_makes) (finishes_received rfl)
        drains_received
  next missing =>
    refine .refused ?_
    rintro ⟨-, writeSome, readSome, -⟩
    obtain ⟨w, rfl⟩ := Option.isSome_iff_exists.mp writeSome
    obtain ⟨r, rfl⟩ := Option.isSome_iff_exists.mp readSome
    exact missing w r rfl rfl

theorem perform_performs {call : Call} (initialized : driver.initialized = true) :
    Performs driver memory call (call.perform driver memory) := by
  cases call with
  | write => exact write_performs initialized
  | read => exact read_performs initialized
  | writeRead => exact writeRead_performs initialized

theorem perform_makes {call : Call} (initialized : driver.initialized = true)
    (h : (call.perform driver memory).Makes t (result, driver', memory')) :
    driver'.initialized = true ∧ Settled call memory t result memory' := by
  have performs : Performs driver memory call (call.perform driver memory) :=
    perform_performs initialized
  generalize call.perform driver memory = program at performs h
  cases performs with
  | refused rejected =>
    obtain ⟨rfl, out⟩ := h
    cases out
    exact ⟨initialized, .inl ⟨rejected, rfl, rfl, rfl⟩⟩
  | transferred accepted queues finishes _ =>
    obtain ⟨kept, settled⟩ := transfer_makes accepted queues finishes h
    exact ⟨kept.trans initialized, settled⟩

theorem init_makes {config : Option Config} (h : (init config driver).Makes t (true, driver')) :
    driver'.initialized = true := by
  unfold init at h
  split at h
  · simp at h
  · split at h
    · simp at h
    · simp only [makes_store_bind, makes_load_bind, clearEvents, makes_pure, Prod.mk.injEq] at h
      obtain ⟨_, -, _, -, _, -, _, -, _, -, _, -, _, -, _, -, _, -, _, -, _, -, _, -, _, _, -, _, -,
        -, -, rfl⟩ := h
      rfl

end Operations

end MspmBaremetal.I2cController
