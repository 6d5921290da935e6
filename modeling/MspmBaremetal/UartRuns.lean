import MspmBaremetal.Uart
import MspmBaremetal.RingbufRuns

/-!
# Runs of the UART transmit path

`tx_delivers`: whatever the preemption and the drain timing, every byte a write
accepted is written to TXDATA once and in order, never into a full FIFO, and no
byte is left queued with nothing to wake the handler.
-/

namespace MspmBaremetal.Uart

/-! ## What a trace says -/

def ringEvents (tr : List Event) : List (FifoEvent (BitVec 8)) :=
  tr.filterMap fun | .ring e => some e | _ => none

/-- The bytes written to TXDATA. -/
def written (tr : List Event) : List (BitVec 8) :=
  tr.filterMap fun | .wrote b => some b | _ => none

/-- The accepted prefixes of the writes that returned, in call order. -/
def acceptedPrefixes (tr : List Event) : List (BitVec 8) :=
  tr.flatMap fun | .returned data accepted => data.take accepted | _ => []

@[simp] theorem ringEvents_append (l r : List Event) :
    ringEvents (l ++ r) = ringEvents l ++ ringEvents r := List.filterMap_append

@[simp] theorem written_append (l r : List Event) : written (l ++ r) = written l ++ written r :=
  List.filterMap_append

@[simp] theorem acceptedPrefixes_append (l r : List Event) :
    acceptedPrefixes (l ++ r) = acceptedPrefixes l ++ acceptedPrefixes r := List.flatMap_append

@[simp] theorem ringEvents_ring (es : List (FifoEvent (BitVec 8))) :
    ringEvents (es.map .ring) = es := by
  simp [ringEvents, List.filterMap_map]

@[simp] theorem written_ring (es : List (FifoEvent (BitVec 8))) : written (es.map .ring) = [] := by
  simp [written, List.filterMap_map]

@[simp] theorem acceptedPrefixes_ring (es : List (FifoEvent (BitVec 8))) :
    acceptedPrefixes (es.map .ring) = [] := by
  simp [acceptedPrefixes, List.flatMap_map]

/-! ## What a state says -/

/-- The bytes the current write has accepted. -/
def Thread.accepted : Thread → List (BitVec 8)
  | .idle => []
  | .pushing data accepted _ | .getPrimask data accepted | .disableIrq data accepted _
  | .readImask data accepted _ | .writeImask data accepted _ _ | .setTxint data accepted _
  | .setPrimask data accepted _ => data.take accepted

/-- Between the first successful push of a write and the end of the following
`hal_uart0_tx_enable_interrupt`. -/
def Thread.owesKick : Thread → Bool
  | .idle => false
  | .pushing _ accepted _ => accepted != 0
  | _ => true

def Thread.producer : Thread → Ringbuf.Producer
  | .pushing _ _ push => push
  | _ => .idle

def Handler.consumer : Handler → Ringbuf.Consumer
  | .popping pop => pop
  | _ => .idle

/-- The byte the handler took from the queue and has yet to write. -/
def Handler.inFlight : Handler → List (BitVec 8)
  | .writeTxdata byte => [byte]
  | _ => []

/-- TXINT is unmasked, and pending or about to be raised by the draining FIFO. -/
def Registers.Wakes (hw : Hardware) (r : Registers) : Prop :=
  r.imask &&& txintBit ≠ 0 ∧ (r.txint = true ∨ hw.trigger < r.level)

variable {hw : Hardware} {cap : BitVec 32} {q : Fifo (BitVec 8) cap.toNat} {s t : System}
  {tr es : List Event}

/-- What the thread's position says about the rest of the state. -/
def Thread.Sane (s : System) : Thread → Prop
  | .idle | .getPrimask _ _ | .disableIrq _ _ _ => True
  | .pushing data accepted push => ∃ h : accepted < data.length, push.byte = some data[accepted]
  | .readImask _ _ _ | .writeImask _ _ _ _ => s.primask = true ∧ s.handler = .inactive
  | .setTxint _ _ _ =>
    s.primask = true ∧ s.handler = .inactive ∧ s.registers.imask &&& txintBit ≠ 0
  | .setPrimask _ _ _ =>
    s.primask = true ∧ s.handler = .inactive ∧ s.registers.imask &&& txintBit ≠ 0 ∧
    s.registers.txint = true

/-- What the handler's position says about the rest of the state. -/
def Handler.Sane (hw : Hardware) (s : System) (q : Fifo (BitVec 8) cap.toNat) : Handler → Prop
  | .inactive | .readIidx =>
    s.thread.owesKick = false → q.items ≠ [] → s.registers.Wakes hw
  | .readStat => s.registers.imask &&& txintBit ≠ 0
  | .popping _ | .writeTxdata _ =>
    s.registers.imask &&& txintBit ≠ 0 ∧ s.registers.level < hw.depth
  | .getPrimask | .disableIrq _ | .readImask _ | .writeImask _ _ | .setPrimask _ => q.items = []

structure Inv (hw : Hardware) (cap : BitVec 32) (tr : List Event) (s : System)
    (q : Fifo (BitVec 8) cap.toNat) : Prop where
  fifo : (Fifo.machine (BitVec 8) cap.toNat).Run (Fifo.empty _ _) (ringEvents tr) q
  represents : Ringbuf.Represents cap 0 s.ring q
  producer : s.thread.producer.Sane s.ring q
  consumer : s.handler.consumer.Sane s.ring q
  accepted : Fifo.accepted (ringEvents tr) = acceptedPrefixes tr ++ s.thread.accepted
  popped : Fifo.popped (ringEvents tr) = written tr ++ s.handler.inFlight
  level : s.registers.level ≤ hw.depth
  thread : s.thread.Sane s
  handler : s.handler.Sane hw s q

/-! ## The registers -/

theorem or_txintBit (imask : BitVec 32) : (imask ||| txintBit) &&& txintBit ≠ 0 := by
  intro h
  have bit := congrArg (BitVec.getLsbD · 11) h
  simp [txintBit] at bit

theorem stat_txff_iff (r : Registers) : r.stat hw &&& statTxff = 0 ↔ r.level < hw.depth := by
  unfold Registers.stat
  split
  · exact ⟨fun h => absurd h (by decide), fun room => by omega⟩
  · exact ⟨fun _ => by omega, fun _ => BitVec.zero_and⟩

theorem readIidx_cases (r : Registers) :
    (r.readIidx.1 &&& 0xFF = iidxTxifg ∧ r.imask &&& txintBit ≠ 0 ∧
      r.readIidx.2 = { r with txint := false }) ∨
    (r.readIidx.1 &&& 0xFF ≠ iidxTxifg ∧ r.readIidx.2 = r) := by
  unfold Registers.readIidx
  split
  · rename_i pending
    simp only [Registers.requests, Bool.and_eq_true, bne_iff_ne] at pending
    exact .inl ⟨by simp only [iidxTxifg]; decide, pending.2, rfl⟩
  · exact .inr ⟨by simp only [iidxTxifg]; decide, rfl⟩

theorem Registers.Wakes.drain {r : Registers} (h : r.Wakes hw) : (r.drain hw).Wakes hw := by
  refine ⟨h.1, ?_⟩
  rcases h.2 with pending | above
  · exact .inl (by simp [Registers.drain, pending])
  · by_cases reached : r.level - 1 = hw.trigger
    · exact .inl (by simp [Registers.drain, reached])
    · exact .inr (by simp only [Registers.drain]; omega)

/-! ## The loop of a write -/

/-- How a write goes on once `accepted` bytes of `data` are in the queue. -/
structure Continues (data : List (BitVec 8)) (accepted : Nat) (next : Thread × List Event) :
    Prop where
  taken : acceptedPrefixes next.2 ++ next.1.accepted = data.take accepted
  noRing : ringEvents next.2 = []
  noWritten : written next.2 = []
  producer : next.1.producer.resting = true ∨ ∃ b, next.1.producer = .loadWriteIndex b
  sane : ∀ s, next.1.Sane s
  owes : accepted ≠ 0 → next.1.owesKick = true

theorem leaveLoop_continues (data : List (BitVec 8)) (accepted : Nat) :
    Continues data accepted (Thread.leaveLoop data accepted) := by
  unfold Thread.leaveLoop
  split
  · exact ⟨rfl, rfl, rfl, .inl rfl, fun _ => trivial, fun _ => rfl⟩
  · rename_i none
    exact ⟨by simp [acceptedPrefixes, Thread.accepted], rfl, rfl, .inl rfl, fun _ => trivial,
      fun some => absurd some none⟩

theorem loop_continues (data : List (BitVec 8)) (accepted : Nat) :
    Continues data accepted (Thread.loop data accepted) := by
  unfold Thread.loop
  split
  · rename_i more
    exact ⟨rfl, rfl, rfl, .inr ⟨_, rfl⟩, fun _ => ⟨more, rfl⟩, fun some => by simpa [Thread.owesKick]⟩
  · exact leaveLoop_continues data accepted

theorem Continues.producer_sane {data : List (BitVec 8)} {accepted : Nat}
    {next : Thread × List Event} (h : Continues data accepted next) {ring : Ringbuf}
    (none : q.turnedAway = []) : next.1.producer.Sane ring q := by
  rcases h.producer with resting | ⟨b, loading⟩
  · cases hp : next.1.producer with
    | idle | returned => exact none
    | _ => simp [hp, Ringbuf.Producer.resting] at resting
  · rw [loading]
    exact none

/-! ## The thread keeps the invariant -/

/-- A write reaches its loop test, or leaves the loop, with `accepted` bytes in
the queue. -/
theorem Inv.continues (h : Inv hw cap tr s q) (inactive : s.handler = .inactive)
    {data : List (BitVec 8)} {accepted : Nat} {next : Thread × List Event}
    (hnext : Continues data accepted next) {ring : Ringbuf} {res : List (FifoEvent (BitVec 8))}
    {q' : Fifo (BitVec 8) cap.toNat} (effect : res = [] ∧ q' = q ∨ Fifo.Effect q res q')
    (represents : Ringbuf.Represents cap 0 ring q') (reported : q'.turnedAway = [])
    (taken : s.thread.accepted ++ Fifo.accepted res = data.take accepted)
    (pushed : Fifo.popped res = [])
    (first : accepted = 0 → s.thread.owesKick = false ∧ Fifo.accepted res = []) :
    Inv hw cap (tr ++ (res.map .ring ++ next.2)) { s with ring := ring, thread := next.1 } q' where
  fifo := by simpa [hnext.noRing] using Fifo.run_extend h.fifo effect
  represents := represents
  producer := hnext.producer_sane reported
  consumer := by
    simp only [inactive, Handler.consumer]
    trivial
  accepted := by
    simp only [ringEvents_append, ringEvents_ring, hnext.noRing, List.append_nil,
      acceptedPrefixes_append, acceptedPrefixes_ring, List.nil_append, List.append_assoc,
      hnext.taken, ← taken]
    rw [Fifo.accepted_append, h.accepted, List.append_assoc]
  popped := by
    simp only [ringEvents_append, ringEvents_ring, hnext.noRing, List.append_nil, written_append,
      written_ring, hnext.noWritten]
    rw [Fifo.popped_append, pushed, List.append_nil, h.popped]
  level := h.level
  thread := hnext.sane _
  handler := by
    have wakes := h.handler
    simp only [inactive, Handler.Sane] at wakes ⊢
    intro owesNothing nonempty
    have none : accepted = 0 := by
      by_contra some
      simp [hnext.owes some] at owesNothing
    obtain ⟨owed, unchanged⟩ := first none
    rw [Fifo.items_kept effect unchanged pushed] at nonempty
    exact wakes owed nonempty

/-- An access of `lib_ringbuf_try_push` during a write. -/
theorem Inv.push (h : Inv hw cap tr s q) (inactive : s.handler = .inactive)
    {data : List (BitVec 8)} {accepted : Nat} {push push' : Ringbuf.Producer} {ring : Ringbuf}
    {res : List (FifoEvent (BitVec 8))} (pushing : s.thread = .pushing data accepted push)
    (step : push.step s.ring = some (ring, push', res)) :
    ∃ q', Inv hw cap (tr ++ (res.map .ring ++ (Thread.afterPush data accepted push').2))
      { s with ring := ring, thread := (Thread.afterPush data accepted push').1 } q' := by
  have hp : push.Sane s.ring q := by simpa [pushing, Thread.producer] using h.producer
  have hc : (Ringbuf.Consumer.idle).Sane s.ring q := trivial
  obtain ⟨more, carried⟩ : ∃ more : accepted < data.length, push.byte = some data[accepted] := by
    simpa [pushing, Thread.Sane] using h.thread
  have sofar : s.thread.accepted = data.take accepted := by simp [pushing, Thread.accepted]
  have owed : accepted = 0 → s.thread.owesKick = false := by
    intro none
    simp [pushing, Thread.owesKick, none]
  obtain ⟨q', effect, represents, hp', -⟩ :=
    Ringbuf.Producer.step_spec h.represents hp hc step
  obtain ⟨b, hb, pushed, ongoing | ⟨rfl, rfl⟩ | ⟨rfl, rfl⟩⟩ := Ringbuf.Producer.step_ends step
  · obtain ⟨hb', undecided⟩ := ongoing
    have unchanged : Fifo.accepted res = [] := by rw [Fifo.accepted_decided, undecided]; rfl
    have going : Thread.afterPush data accepted push' = (.pushing data accepted push', []) := by
      cases push' with
      | returned => cases hb'
      | _ => rfl
    refine ⟨q', ?_⟩
    rw [going, List.append_nil]
    exact
      { fifo := by simpa using Fifo.run_extend h.fifo effect
        represents
        producer := hp'
        consumer := by
          simp only [inactive, Handler.consumer]
          trivial
        accepted := by
          simp only [ringEvents_append, ringEvents_ring, Fifo.accepted_append, unchanged,
            List.append_nil, acceptedPrefixes_append, acceptedPrefixes_ring, h.accepted]
          rw [sofar]
          rfl
        popped := by simp [Fifo.popped_append, pushed, h.popped]
        level := h.level
        thread := ⟨more, by rw [hb', ← hb, carried]⟩
        handler := by
          have wakes := h.handler
          simp only [inactive, Handler.Sane, pushing, Thread.owesKick] at wakes ⊢
          intro owesNothing nonempty
          rw [Fifo.items_kept effect unchanged pushed] at nonempty
          exact wakes owesNothing nonempty }
  · have hbyte : b = data[accepted] := by simpa [hb] using carried
    refine ⟨q', h.continues inactive (loop_continues data (accepted + 1)) effect represents hp' ?_
      pushed (by omega)⟩
    rw [sofar, List.take_add_one, List.getElem?_eq_getElem more, hbyte]
    rfl
  · exact ⟨q', h.continues inactive (leaveLoop_continues data accepted) effect represents hp'
      (by rw [sofar]; exact List.append_nil _) pushed fun none => ⟨owed none, rfl⟩⟩

/-- An access of `hal_uart0_tx_enable_interrupt`. -/
theorem Inv.kick (h : Inv hw cap tr s q) (inactive : s.handler = .inactive)
    (outside : s.thread.producer = .idle) {registers : Registers} {primask : Bool}
    {thread : Thread} (outside' : thread.producer = .idle)
    (same : acceptedPrefixes es ++ thread.accepted = s.thread.accepted)
    (noRing : ringEvents es = []) (noWritten : written es = [])
    (level : registers.level = s.registers.level)
    (sane : thread.Sane { s with registers := registers, primask := primask, thread := thread })
    (wakes : thread.owesKick = false → registers.Wakes hw) :
    Inv hw cap (tr ++ es)
      { s with registers := registers, primask := primask, thread := thread } q where
  fifo := by simpa [noRing] using h.fifo
  represents := h.represents
  producer := by
    have reported := h.producer
    rw [outside] at reported
    simp only [outside']
    exact reported
  consumer := h.consumer
  accepted := by simp [noRing, h.accepted, same]
  popped := by simp [noRing, noWritten, h.popped]
  level := level ▸ h.level
  thread := sane
  handler := by
    simp only [inactive, Handler.Sane]
    exact fun owesNothing _ => wakes owesNothing

/-- An access of a push under way. -/
theorem Thread.step_pushing {data : List (BitVec 8)} {accepted : Nat} {push : Ringbuf.Producer}
    (hs : s.thread = .pushing data accepted push) (step : Thread.step s = some (t, es)) :
    ∃ ring push' res, push.step s.ring = some (ring, push', res) ∧
      t = { s with ring, thread := (Thread.afterPush data accepted push').1 } ∧
      es = res.map .ring ++ (Thread.afterPush data accepted push').2 := by
  simp only [Thread.step, hs, Option.bind_eq_bind, Option.bind_eq_some_iff, Option.pure_def,
    Option.some.injEq, Prod.mk.injEq] at step
  obtain ⟨⟨ring, push', res⟩, step, rfl, rfl⟩ := step
  exact ⟨ring, push', res, step, rfl, rfl⟩

/-- An access of a pop under way. -/
theorem Handler.step_popping {pop : Ringbuf.Consumer} (hs : s.handler = .popping pop)
    (step : Handler.step hw s = some (t, es)) :
    ∃ ring pop' res, pop.step s.ring = some (ring, pop', res) ∧
      t = { s with ring, handler := Handler.afterPop pop' } ∧ es = res.map .ring := by
  simp only [Handler.step, hs, Option.bind_eq_bind, Option.bind_eq_some_iff, Option.pure_def,
    Option.some.injEq, Prod.mk.injEq] at step
  obtain ⟨⟨ring, pop', res⟩, step, rfl, rfl⟩ := step
  exact ⟨ring, pop', res, step, rfl, rfl⟩

theorem inv_thread (h : Inv hw cap tr s q) (inactive : s.handler = .inactive)
    (step : Thread.step s = some (t, es)) : ∃ q', Inv hw cap (tr ++ es) t q' := by
  have sane := h.thread
  cases hs : s.thread with
  | idle => simp [Thread.step, hs] at step
  | pushing data accepted push =>
    obtain ⟨ring, push', res, access, rfl, rfl⟩ := Thread.step_pushing hs step
    exact h.push inactive hs access
  | getPrimask data accepted =>
    simp only [Thread.step, hs] at step
    cases step
    exact ⟨q, h.kick inactive (by rw [hs]; rfl) rfl (by rw [hs]; rfl) rfl rfl rfl trivial
      (by simp [Thread.owesKick])⟩
  | disableIrq data accepted saved =>
    simp only [Thread.step, hs] at step
    cases step
    exact ⟨q, h.kick inactive (by rw [hs]; rfl) rfl (by rw [hs]; rfl) rfl rfl rfl
      ⟨rfl, inactive⟩ (by simp [Thread.owesKick])⟩
  | readImask data accepted saved =>
    simp only [Thread.step, hs] at step
    cases step
    rw [hs] at sane
    exact ⟨q, h.kick inactive (by rw [hs]; rfl) rfl (by rw [hs]; rfl) rfl rfl rfl sane
      (by simp [Thread.owesKick])⟩
  | writeImask data accepted saved imask =>
    simp only [Thread.step, hs] at step
    cases step
    rw [hs] at sane
    exact ⟨q, h.kick inactive (by rw [hs]; rfl) rfl (by rw [hs]; rfl) rfl rfl rfl
      ⟨sane.1, sane.2, or_txintBit imask⟩ (by simp [Thread.owesKick])⟩
  | setTxint data accepted saved =>
    simp only [Thread.step, hs] at step
    cases step
    rw [hs] at sane
    exact ⟨q, h.kick inactive (by rw [hs]; rfl) rfl (by rw [hs]; rfl) rfl rfl rfl
      ⟨sane.1, sane.2.1, sane.2.2, rfl⟩ (by simp [Thread.owesKick])⟩
  | setPrimask data accepted saved =>
    simp only [Thread.step, hs] at step
    cases step
    rw [hs] at sane
    obtain ⟨-, -, unmasked, pending⟩ := sane
    exact ⟨q, h.kick inactive (by rw [hs]; rfl) rfl
      (by simp [hs, Thread.accepted, acceptedPrefixes]) rfl rfl rfl trivial
      fun _ => ⟨unmasked, .inl pending⟩⟩

/-! ## The handler and the hardware keep the invariant -/

/-- The thread cannot be in a critical section while the handler runs. -/
theorem Thread.Sane.preempted {thread : Thread} (h : thread.Sane s) (active : s.handler ≠ .inactive)
    (t : System) : thread.Sane t := by
  cases thread with
  | idle | getPrimask | disableIrq => trivial
  | pushing => exact h
  | readImask | writeImask => exact absurd h.2 active
  | setTxint | setPrimask => exact absurd h.2.1 active

/-- An access of the handler other than to the queue. -/
theorem Inv.handle (h : Inv hw cap tr s q) (active : s.handler ≠ .inactive)
    {registers : Registers} {primask : Bool} {handler : Handler} (noRing : ringEvents es = [])
    (noReturn : acceptedPrefixes es = [])
    (inFlight : written es ++ handler.inFlight = s.handler.inFlight)
    (level : registers.level ≤ hw.depth) (consumer : handler.consumer.Sane s.ring q)
    (sane : handler.Sane hw { s with registers := registers, primask := primask, handler := handler } q) :
    Inv hw cap (tr ++ es)
      { s with registers := registers, primask := primask, handler := handler } q where
  fifo := by simpa [noRing] using h.fifo
  represents := h.represents
  producer := h.producer
  consumer := consumer
  accepted := by simp [noRing, noReturn, h.accepted]
  popped := by simp [noRing, h.popped, ← inFlight]
  level := level
  thread := h.thread.preempted active _
  handler := sane

/-- An access of `lib_ringbuf_try_pop` by the handler. -/
theorem Inv.pop (h : Inv hw cap tr s q) {pop pop' : Ringbuf.Consumer} {ring : Ringbuf}
    {res : List (FifoEvent (BitVec 8))} (popping : s.handler = .popping pop)
    (step : pop.step s.ring = some (ring, pop', res)) :
    ∃ q', Inv hw cap (tr ++ res.map .ring)
      { s with ring := ring, handler := Handler.afterPop pop' } q' := by
  have active : s.handler ≠ .inactive := by simp [popping]
  have hc : pop.Sane s.ring q := by simpa [popping, Handler.consumer] using h.consumer
  obtain ⟨unmasked, room⟩ : s.registers.imask &&& txintBit ≠ 0 ∧ s.registers.level < hw.depth := by
    simpa [popping, Handler.Sane] using h.handler
  obtain ⟨q', effect, represents, hp', hc'⟩ :=
    Ringbuf.Consumer.step_spec h.represents h.producer hc step
  obtain ⟨noPush, ends⟩ := Ringbuf.Consumer.step_ends step
  have nothing : s.handler.inFlight = [] := by rw [popping]; rfl
  have frame : Fifo.popped res = (Handler.afterPop pop').inFlight →
      (Handler.afterPop pop').consumer.Sane ring q' →
      (Handler.afterPop pop').Sane hw
        { s with ring := ring, handler := Handler.afterPop pop' } q' →
      Inv hw cap (tr ++ res.map .ring)
        { s with ring := ring, handler := Handler.afterPop pop' } q' := by
    intro taken consumer sane
    exact
      { fifo := by simpa using Fifo.run_extend h.fifo effect
        represents
        producer := hp'
        consumer
        accepted := by simp [Fifo.accepted_append, noPush, h.accepted]
        popped := by simp [Fifo.popped_append, h.popped, nothing, taken]
        level := h.level
        thread := h.thread.preempted active _
        handler := sane }
  rcases ends with ⟨ongoing, rfl⟩ | ⟨b, rfl, rfl⟩ | ⟨rfl, rfl⟩
  · have going : Handler.afterPop pop' = .popping pop' := by
      cases pop' with
      | returned result => exact absurd rfl (ongoing result)
      | _ => rfl
    rw [going] at frame ⊢
    exact ⟨q', frame rfl hc' ⟨unmasked, room⟩⟩
  · exact ⟨q', frame rfl trivial ⟨unmasked, room⟩⟩
  · have drained : q'.items = [] := by
      rcases effect with ⟨noEvent, -⟩ | effect
      · cases noEvent
      · cases effect with
        | empty none => exact none
    exact ⟨q', frame rfl trivial drained⟩

theorem inv_handler (h : Inv hw cap tr s q) (step : Handler.step hw s = some (t, es)) :
    ∃ q', Inv hw cap (tr ++ es) t q' := by
  have sane := h.handler
  cases hs : s.handler with
  | inactive => simp [Handler.step, hs] at step
  | readIidx =>
    simp only [Handler.step, hs] at step
    cases step
    rw [hs] at sane
    rcases readIidx_cases s.registers with ⟨pending, unmasked, cleared⟩ | ⟨spurious, unchanged⟩
    · simp only [pending, cleared]
      exact ⟨q, h.handle (by simp [hs]) rfl rfl (by rw [hs]; rfl) h.level trivial unmasked⟩
    · simp only [spurious, unchanged]
      exact ⟨q, h.handle (by simp [hs]) rfl rfl (by rw [hs]; rfl) h.level trivial sane⟩
  | readStat =>
    simp only [Handler.step, hs] at step
    cases step
    rw [hs] at sane
    by_cases room : s.registers.level < hw.depth
    · simp only [(stat_txff_iff s.registers).mpr room]
      exact ⟨q, h.handle (by simp [hs]) rfl rfl (by rw [hs]; rfl) h.level trivial ⟨sane, room⟩⟩
    · simp only [mt (stat_txff_iff s.registers).mp room]
      -- the FIFO is full, so it will drain through its trigger level
      have above : hw.trigger < s.registers.level := by
        have := hw.trigger_lt
        omega
      exact ⟨q, h.handle (by simp [hs]) rfl rfl (by rw [hs]; rfl) h.level trivial
        fun _ _ => ⟨sane, .inr above⟩⟩
  | popping pop =>
    obtain ⟨ring, pop', res, access, rfl, rfl⟩ := Handler.step_popping hs step
    exact h.pop hs access
  | writeTxdata byte =>
    simp only [Handler.step, hs] at step
    cases step
    rw [hs] at sane
    obtain ⟨unmasked, room⟩ := sane
    have stored : s.registers.writeTxdata hw =
        { s.registers with level := s.registers.level + 1 } := by
      simp [Registers.writeTxdata, room]
    rw [stored]
    exact ⟨q, h.handle (by simp [hs]) rfl rfl (by rw [hs]; rfl) room trivial unmasked⟩
  | getPrimask | disableIrq | readImask | writeImask =>
    simp only [Handler.step, hs] at step
    cases step
    rw [hs] at sane
    exact ⟨q, h.handle (by simp [hs]) rfl rfl (by rw [hs]; rfl) h.level trivial sane⟩
  | setPrimask saved =>
    simp only [Handler.step, hs] at step
    cases step
    rw [hs] at sane
    exact ⟨q, h.handle (by simp [hs]) rfl rfl (by rw [hs]; rfl) h.level trivial
      fun _ nonempty => absurd sane nonempty⟩

/-- The handler begins between two accesses of the thread. -/
theorem Inv.interrupt (h : Inv hw cap tr s q) (inactive : s.handler = .inactive)
    (enabled : s.primask = false) : Inv hw cap tr { s with handler := .readIidx } q where
  fifo := h.fifo
  represents := h.represents
  producer := h.producer
  consumer := trivial
  accepted := h.accepted
  popped := by simpa [inactive, Handler.inFlight] using h.popped
  level := h.level
  thread := by
    have sane := h.thread
    cases hs : s.thread with
    | idle | getPrimask | disableIrq => trivial
    | pushing =>
      rw [hs] at sane
      exact sane
    | readImask | writeImask | setTxint | setPrimask =>
      rw [hs] at sane
      exact absurd sane.1 (by simp [enabled])
  handler := by simpa [inactive, Handler.Sane] using h.handler

theorem Inv.drain (h : Inv hw cap tr s q) :
    Inv hw cap tr { s with registers := s.registers.drain hw } q where
  fifo := h.fifo
  represents := h.represents
  producer := h.producer
  consumer := h.consumer
  accepted := h.accepted
  popped := h.popped
  level := Nat.le_trans (Nat.sub_le _ _) h.level
  thread := by
    have sane := h.thread
    cases hs : s.thread with
    | setPrimask =>
      rw [hs] at sane
      exact ⟨sane.1, sane.2.1, sane.2.2.1, by simp [Registers.drain, sane.2.2.2]⟩
    | _ =>
      rw [hs] at sane
      exact sane
  handler := by
    have sane := h.handler
    cases hs : s.handler with
    | inactive | readIidx =>
      rw [hs] at sane
      exact fun owesNothing nonempty => (sane owesNothing nonempty).drain
    | popping | writeTxdata =>
      rw [hs] at sane
      exact ⟨sane.1, Nat.lt_of_le_of_lt (Nat.sub_le _ _) sane.2⟩
    | _ =>
      rw [hs] at sane
      exact sane

/-! ## Every run -/

theorem inv_call (h : Inv hw cap tr s q) (inactive : s.handler = .inactive)
    (idle : s.thread = .idle) {data : Option (List (BitVec 8))}
    (call : Thread.call s data = (t, es)) : ∃ q', Inv hw cap (tr ++ es) t q' := by
  have reported : q.turnedAway = [] := by
    have sane := h.producer
    rw [idle] at sane
    exact sane
  have nothing : s.thread.accepted = [] := by rw [idle]; rfl
  cases data with
  | none =>
    cases call
    exact ⟨q, by simpa using h⟩
  | some data =>
    simp only [Thread.call] at call
    split at call
    · cases call
      have next := h.continues inactive (loop_continues data 0) (.inl ⟨rfl, rfl⟩) h.represents
        reported (by rw [nothing]; rfl) rfl fun _ => ⟨by rw [idle]; rfl, rfl⟩
      exact ⟨q, next⟩
    · cases call
      exact ⟨q, { h with
        fifo := by simpa [ringEvents] using h.fifo
        accepted := by simpa [ringEvents, acceptedPrefixes] using h.accepted
        popped := by simpa [ringEvents, written] using h.popped }⟩

theorem inv_step (h : Inv hw cap tr s q) {choice : Choice}
    (step : (machine hw).step s choice = some (t, es)) : ∃ q', Inv hw cap (tr ++ es) t q' := by
  cases choice with
  | write data =>
    simp only [machine, Option.ite_none_right_eq_some, Option.some.injEq] at step
    obtain ⟨⟨idle, inactive, -⟩, call⟩ := step
    exact inv_call h inactive idle call
  | thread =>
    simp only [machine, Option.ite_none_right_eq_some] at step
    exact inv_thread h step.1 step.2
  | interrupt =>
    simp only [machine, Option.ite_none_right_eq_some, Option.some.injEq, Prod.mk.injEq] at step
    obtain ⟨⟨inactive, enabled⟩, rfl, rfl⟩ := step
    exact ⟨q, by simpa using h.interrupt inactive enabled⟩
  | handler => exact inv_handler h step
  | drain =>
    simp only [machine, Option.ite_none_right_eq_some, Option.some.injEq, Prod.mk.injEq] at step
    obtain ⟨-, rfl, rfl⟩ := step
    exact ⟨q, by simpa using h.drain⟩

theorem afterPush_written (data : List (BitVec 8)) (accepted : Nat) (push : Ringbuf.Producer) :
    written (Thread.afterPush data accepted push).2 = [] := by
  cases push with
  | returned result =>
    cases result with
    | true => exact (loop_continues data (accepted + 1)).noWritten
    | false => exact (leaveLoop_continues data accepted).noWritten
  | _ => rfl

theorem thread_written (step : Thread.step s = some (t, es)) : written es = [] := by
  cases hs : s.thread with
  | idle => simp [Thread.step, hs] at step
  | pushing data accepted push =>
    obtain ⟨ring, push', res, -, -, rfl⟩ := Thread.step_pushing hs step
    simp [afterPush_written]
  | _ =>
    simp only [Thread.step, hs] at step
    cases step
    rfl

/-- A write to TXDATA finds room in the FIFO. -/
theorem Inv.written_room (h : Inv hw cap tr s q) {choice : Choice}
    (step : (machine hw).step s choice = some (t, es)) (wrote : written es ≠ []) :
    s.registers.level < hw.depth := by
  cases choice with
  | write data =>
    simp only [machine, Option.ite_none_right_eq_some, Option.some.injEq] at step
    obtain ⟨-, call⟩ := step
    cases data with
    | none =>
      cases call
      exact absurd rfl wrote
    | some data =>
      simp only [Thread.call] at call
      split at call <;> cases call
      · exact absurd (loop_continues data 0).noWritten wrote
      · exact absurd rfl wrote
  | thread =>
    simp only [machine, Option.ite_none_right_eq_some] at step
    exact absurd (thread_written step.2) wrote
  | interrupt | drain =>
    simp only [machine, Option.ite_none_right_eq_some, Option.some.injEq, Prod.mk.injEq] at step
    obtain ⟨-, -, rfl⟩ := step
    exact absurd rfl wrote
  | handler =>
    have sane := h.handler
    cases hs : s.handler with
    | writeTxdata byte =>
      rw [hs] at sane
      exact sane.2
    | inactive => simp [machine, Handler.step, hs] at step
    | popping pop =>
      obtain ⟨ring, pop', res, -, -, rfl⟩ := Handler.step_popping hs step
      exact absurd (written_ring res) wrote
    | _ =>
      simp only [machine, Handler.step, hs] at step
      cases step
      exact absurd rfl wrote

theorem txInit_level {config : Option TxConfig} {queue : Option Ringbuf} {before r : Registers}
    (h : txInit config queue before = some r) : r.level = 0 := by
  simp only [txInit, Option.bind_eq_bind, Option.bind_eq_some_iff] at h
  obtain ⟨config, -, queue, -, h⟩ := h
  split at h
  · cases h
  · obtain ⟨divisor, -, set⟩ := Option.bind_eq_some_iff.mp h
    cases set
    rfl

theorem inv_run {config : Option TxConfig} {given : Option Ringbuf}
    {storage : Option (Nat → BitVec 8)} {ring : Ringbuf} {before registers : Registers}
    (hring : Ringbuf.init given storage cap = some ring)
    (hinit : txInit config (some ring) before = some registers) {primask : Bool} {index : BitVec 32}
    (run : (machine hw).Run (.start registers primask ring index) tr s) :
    ∃ q, Inv hw cap tr s q := by
  have emptied := txInit_level hinit
  refine Machine.Run.invariant (P := fun tr s => ∃ q, Inv hw cap tr s q) ?_ ?_ run
  · exact ⟨Fifo.empty _ _,
      { fifo := .start
        represents := Ringbuf.init_represents hring index
        producer := rfl
        consumer := trivial
        accepted := rfl
        popped := rfl
        level := by simp [System.start, emptied]
        thread := trivial
        handler := fun _ nonempty => absurd rfl nonempty }⟩
  · rintro tr s choice es t ⟨q, inv⟩ step
    exact inv_step inv step

/-- The state `s` a run with trace `tr` reached has lost, repeated and stranded
nothing. -/
structure Delivers (hw : Hardware) (tr : List Event) (s : System) : Prop where
  /-- A byte the handler took from the queue and has yet to write is in between. -/
  order : written tr ++ s.handler.inFlight ++ s.ring.queued =
    acceptedPrefixes tr ++ s.thread.accepted
  noOverrun : ∀ choice t es, (machine hw).step s choice = some (t, es) → written es ≠ [] →
    s.registers.stat hw &&& statTxff = 0
  notStranded : s.handler = .inactive → s.thread.owesKick = false → s.ring.queued ≠ [] →
    s.registers.imask &&& txintBit ≠ 0 ∧
    (s.registers.txint = true ∨ hw.trigger < s.registers.level)

/-- **The transmit path loses, repeats and strands nothing it accepted.** After
`hal_uart0_tx_init` on a queue with equal indices, in every state any writes,
preemptions and drain timing can lead to. -/
theorem tx_delivers {config : Option TxConfig} {given : Option Ringbuf}
    {storage : Option (Nat → BitVec 8)} {ring : Ringbuf} {before registers : Registers}
    (hring : Ringbuf.init given storage cap = some ring)
    (hinit : txInit config (some ring) before = some registers) (primask : Bool) (index : BitVec 32)
    (run : (machine hw).Run (.start registers primask ring index) tr s) : Delivers hw tr s := by
  obtain ⟨q, inv⟩ := inv_run hring hinit run
  have fifo := Fifo.accepted_eq inv.fifo
  simp only [Fifo.empty, List.nil_append, inv.accepted, inv.popped] at fifo
  refine ⟨?_, ?_, ?_⟩
  · rw [inv.represents.queued_eq, fifo]
  · intro choice t es step wrote
    exact (stat_txff_iff s.registers).mpr (inv.written_room step wrote)
  · intro inactive owesNothing nonempty
    have wakes := inv.handler
    rw [inactive] at wakes
    rw [inv.represents.queued_eq] at nonempty
    exact wakes owesNothing nonempty

/-- UART0 out of reset. -/
def resetRegisters : Registers :=
  { ctl0 := 0, clksel := 0, clkdiv := 0, lcrh := 0, ibrd := 0, fbrd := 0, ifls := 0,
    pincm := fun _ => 0, imask := 0, txint := false, level := 0 }

/-- 115200 baud from 24 MHz. -/
def txConfig : TxConfig := ⟨24000000, 115200, 5, 2⟩

/-- A full ring refuses a byte although the handler, entered between that
push's two steps, empties it: the write reports what the ring took. -/
theorem tx_delivers_preempted :
    ∃ registers s, txInit (some txConfig) (some Ringbuf.twoSlots) resetRegisters = some registers ∧
      (machine ⟨2, 1, by decide⟩).Run (.start registers false Ringbuf.twoSlots 0xFFFFFFFF)
        [.ring (.accepted 0x61), .returned [0x61] 1, .ring (.accepted 0x62), .ring (.full 0x63),
          .ring (.popped 0x61), .wrote 0x61, .ring (.popped 0x62), .wrote 0x62,
          .ring (.refused 0x63), .returned [0x62, 0x63, 0x64] 1] s ∧
      Delivers ⟨2, 1, by decide⟩
        [.ring (.accepted 0x61), .returned [0x61] 1, .ring (.accepted 0x62), .ring (.full 0x63),
          .ring (.popped 0x61), .wrote 0x61, .ring (.popped 0x62), .wrote 0x62,
          .ring (.refused 0x63), .returned [0x62, 0x63, 0x64] 1] s := by
  obtain ⟨registers, hinit⟩ : ∃ registers,
      txInit (some txConfig) (some Ringbuf.twoSlots) resetRegisters = some registers :=
    ⟨_, rfl⟩
  obtain ⟨s, run⟩ := Machine.exec_reaches (machine ⟨2, 1, by decide⟩)
    (.start registers false Ringbuf.twoSlots 0xFFFFFFFF)
    (.write (some [0x61]) :: .replicate 10 .thread ++ .write (some [0x62, 0x63, 0x64]) ::
      .replicate 6 .thread ++ .interrupt :: .replicate 14 .handler ++ .replicate 8 .thread)
    [.ring (.accepted 0x61), .returned [0x61] 1, .ring (.accepted 0x62), .ring (.full 0x63),
      .ring (.popped 0x61), .wrote 0x61, .ring (.popped 0x62), .wrote 0x62,
      .ring (.refused 0x63), .returned [0x62, 0x63, 0x64] 1] (by cases hinit; decide +kernel)
  have hring : Ringbuf.init (some Ringbuf.twoSlots) (some fun _ => 0) 2 = some Ringbuf.twoSlots :=
    rfl
  exact ⟨registers, s, hinit, run, tx_delivers hring hinit false 0xFFFFFFFF run⟩

end MspmBaremetal.Uart
