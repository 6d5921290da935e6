import MspmBaremetal.Ringbuf

/-!
# The byte ring as a bounded FIFO

One producer and one consumer call the ring in any order and are preempted
between any two memory accesses. `ringbuf_refines_fifo`: every run is a run of
the bounded FIFO, from any equal pair of indices and through their wrap.
-/

namespace MspmBaremetal.Ringbuf

structure System where
  ring : Ringbuf
  producer : Producer
  consumer : Consumer

/-- Who moves next. A call passing a null pointer returns `false` and touches
nothing, whichever function it calls. -/
inductive Choice where
  | push (byte : BitVec 8)
  | producer
  | pop
  | consumer
  | nullCall

def Producer.resting : Producer → Bool
  | .idle | .returned _ => true
  | _ => false

def Consumer.resting : Consumer → Bool
  | .idle | .returned _ => true
  | _ => false

def machine : Machine System Choice (FifoEvent (BitVec 8)) where
  step s
    | .push byte =>
      if s.producer.resting then some ({ s with producer := .loadWriteIndex byte }, []) else none
    | .producer => do
      let (ring, producer, es) ← s.producer.step s.ring
      return ({ s with ring, producer }, es)
    | .pop => if s.consumer.resting then some ({ s with consumer := .loadReadIndex }, []) else none
    | .consumer => do
      let (ring, consumer, es) ← s.consumer.step s.ring
      return ({ s with ring, consumer }, es)
    | .nullCall => some (s, [])

/-- Both sides between calls on a ring whose indices are equal. -/
def System.start (ring : Ringbuf) (index : BitVec 32) : System :=
  ⟨{ ring with writeIndex := index, readIndex := index }, .idle, .idle⟩

/-- What a step does: a call begins, or one side makes its next access. -/
theorem step_cases {s t : System} {choice : Choice} {es : List (FifoEvent (BitVec 8))}
    (h : machine.step s choice = some (t, es)) :
    (∃ b, s.producer.resting = true ∧ t = { s with producer := .loadWriteIndex b } ∧ es = []) ∨
    (∃ ring p, s.producer.step s.ring = some (ring, p, es) ∧
      t = { s with ring := ring, producer := p }) ∨
    (s.consumer.resting = true ∧ t = { s with consumer := .loadReadIndex } ∧ es = []) ∨
    (∃ ring c, s.consumer.step s.ring = some (ring, c, es) ∧
      t = { s with ring := ring, consumer := c }) ∨
    t = s ∧ es = [] := by
  cases choice with
  | push b =>
    simp only [machine, Option.ite_none_right_eq_some, Option.some.injEq, Prod.mk.injEq] at h
    obtain ⟨resting, rfl, rfl⟩ := h
    exact .inl ⟨b, resting, rfl, rfl⟩
  | producer =>
    simp only [machine, Option.bind_eq_bind, Option.bind_eq_some_iff, Option.pure_def,
      Option.some.injEq, Prod.mk.injEq] at h
    obtain ⟨⟨ring, p, es⟩, step, rfl, rfl⟩ := h
    exact .inr (.inl ⟨ring, p, step, rfl⟩)
  | pop =>
    simp only [machine, Option.ite_none_right_eq_some, Option.some.injEq, Prod.mk.injEq] at h
    obtain ⟨resting, rfl, rfl⟩ := h
    exact .inr (.inr (.inl ⟨resting, rfl, rfl⟩))
  | consumer =>
    simp only [machine, Option.bind_eq_bind, Option.bind_eq_some_iff, Option.pure_def,
      Option.some.injEq, Prod.mk.injEq] at h
    obtain ⟨⟨ring, c, es⟩, step, rfl, rfl⟩ := h
    exact .inr (.inr (.inr (.inl ⟨ring, c, step, rfl⟩)))
  | nullCall =>
    cases h
    exact .inr (.inr (.inr (.inr ⟨rfl, rfl⟩)))

/-- The ring holds `q` and both sides' local variables agree with it. -/
structure Inv (cap base : BitVec 32) (s : System) (q : Fifo (BitVec 8) cap.toNat) : Prop where
  represents : Represents cap base s.ring q
  producer : s.producer.Sane s.ring q
  consumer : s.consumer.Sane s.ring q

variable {cap base : BitVec 32} {s t : System} {q : Fifo (BitVec 8) cap.toNat}

theorem Producer.Sane.resting {p : Producer} {ring : Ringbuf} (h : p.Sane ring q)
    (hr : p.resting = true) : q.turnedAway = [] := by
  cases p <;> first | exact h | cases hr

theorem Producer.Sane.turnedAway {p : Producer} {ring : Ringbuf} (h : p.Sane ring q) :
    q.turnedAway.length ≤ 1 := by
  cases p <;> simp only [Producer.Sane] at h <;> simp [h]

theorem inv_step {choice : Choice} {es : List (FifoEvent (BitVec 8))} (h : Inv cap base s q)
    (step : machine.step s choice = some (t, es)) :
    ∃ q', (es = [] ∧ q' = q ∨ Fifo.Effect q es q') ∧ Inv cap base t q' := by
  rcases step_cases step with ⟨b, hr, rfl, rfl⟩ | ⟨ring, p, hp, rfl⟩ | ⟨hr, rfl, rfl⟩ |
      ⟨ring, c, hc, rfl⟩ | ⟨rfl, rfl⟩
  · exact ⟨q, .inl ⟨rfl, rfl⟩, h.represents, h.producer.resting hr, h.consumer⟩
  · obtain ⟨q', effect, represents, hp', hc'⟩ :=
      Producer.step_spec h.represents h.producer h.consumer hp
    exact ⟨q', effect, represents, hp', hc'⟩
  · exact ⟨q, .inl ⟨rfl, rfl⟩, h.represents, h.producer, trivial⟩
  · obtain ⟨q', effect, represents, hp', hc'⟩ :=
      Consumer.step_spec h.represents h.producer h.consumer hc
    exact ⟨q', effect, represents, hp', hc'⟩
  · exact ⟨q, .inl ⟨rfl, rfl⟩, h⟩

theorem simulation (cap base : BitVec 32) :
    Machine.Simulation machine (Fifo.machine (BitVec 8) cap.toNat) some (Inv cap base) where
  step h step := by
    obtain ⟨q', hidden | effect, h'⟩ := inv_step h step
    · obtain ⟨rfl, rfl⟩ := hidden
      exact .inl ⟨rfl, h'⟩
    · obtain ⟨c, hc⟩ := Fifo.effect_step effect
      exact .inr ⟨c, q', by simpa using hc, h'⟩

/-- No access stores into a slot whose byte has not been read. -/
theorem unread_kept {choice : Choice} {es : List (FifoEvent (BitVec 8))} (h : Inv cap base s q)
    (step : machine.step s choice = some (t, es)) {i : Nat} (hi : i < q.items.length) :
    t.ring.storage (slot cap (s.ring.readIndex + BitVec.ofNat 32 i)) =
      s.ring.storage (slot cap (s.ring.readIndex + BitVec.ofNat 32 i)) := by
  rcases step_cases step with ⟨b, hr, rfl, rfl⟩ | ⟨ring, p, hp, rfl⟩ | ⟨hr, rfl, rfl⟩ |
      ⟨ring, c, hc, rfl⟩ | ⟨rfl, rfl⟩
  · rfl
  · cases hs : s.producer with
    | storeSlot b w =>
      obtain ⟨-, rfl, room⟩ : q.turnedAway = [] ∧ w = s.ring.writeIndex ∧
        q.items.length < cap.toNat := by simpa [Producer.Sane, hs] using h.producer
      simp only [hs, Producer.step, h.represents.mask] at hp
      cases hp
      exact Function.update_of_ne
        (h.represents.holds.write_slot_ne h.represents.powerOfTwo room hi) _ _
    | loadReadIndex b w =>
      simp only [hs, Producer.step] at hp
      split at hp <;> cases hp <;> rfl
    | idle | returned => simp [hs, Producer.step] at hp
    | loadWriteIndex | loadDroppedCount | storeDroppedCount | storeWriteIndex =>
      simp only [hs, Producer.step] at hp
      cases hp
      rfl
  · rfl
  · cases hs : s.consumer <;> simp only [hs, Consumer.step] at hc
    case loadWriteIndex => split at hc <;> cases hc <;> rfl
    all_goals cases hc <;> rfl
  · rfl

/-- The state `s` a run with trace `tr` reached is a bounded FIFO in state `q`. -/
structure IsFifo (cap : BitVec 32) (tr : List (FifoEvent (BitVec 8))) (s : System)
    (q : Fifo (BitVec 8) cap.toNat) : Prop where
  run : (Fifo.machine (BitVec 8) cap.toNat).Run (Fifo.empty _ _) tr q
  order : Fifo.accepted tr = Fifo.popped tr ++ q.items
  stored : (s.ring.writeIndex - s.ring.readIndex).toNat = q.items.length
  within : q.items.length ≤ cap.toNat
  contents : ∀ i (h : i < q.items.length),
    s.ring.storage (slot cap (s.ring.readIndex + BitVec.ofNat 32 i)) = q.items[i]
  dropped : s.ring.droppedCount = BitVec.ofNat 32 (Fifo.refused tr).length
  /-- The refused pushes are those that loaded `read_index` when the ring was
  full; the last of them may not have returned yet. -/
  refusedWhenFull : ∃ pending, Fifo.full tr = Fifo.refused tr ++ pending ∧ pending.length ≤ 1
  fullOnlyAtCapacity : ∀ choice t es b, machine.step s choice = some (t, es) →
    .full b ∈ es → q.items.length = cap.toNat
  emptyOnlyWhenEmpty : ∀ choice t es, machine.step s choice = some (t, es) →
    .empty ∈ es → q.items = []
  unreadKept : ∀ choice t es i, machine.step s choice = some (t, es) → i < q.items.length →
    t.ring.storage (slot cap (s.ring.readIndex + BitVec.ofNat 32 i)) =
      s.ring.storage (slot cap (s.ring.readIndex + BitVec.ofNat 32 i))
  /-- A push that ends returns whether its byte was accepted. -/
  pushReturns : ∀ t es, machine.step s .producer = some (t, es) →
    ∃ b, s.producer.byte = some b ∧ Fifo.decided es = t.producer.result.toList.map (b, ·)
  /-- A pop that ends returns the byte it removed, or that there was none. -/
  popReturns : ∀ t es, machine.step s .consumer = some (t, es) →
    es = t.consumer.result.toList.map (·.elim .empty .popped)

/-- **The byte ring refines a bounded FIFO.** After any interleaving of the
accesses of any pushes and pops, from any equal pair of indices, the ring is
the queue of the accepted bytes not yet popped. -/
theorem ringbuf_refines_fifo {given : Option Ringbuf} {storage : Option (Nat → BitVec 8)}
    {ring : Ringbuf} (hinit : init given storage cap = some ring) (index : BitVec 32)
    {tr : List (FifoEvent (BitVec 8))} (run : machine.Run (.start ring index) tr s) :
    ∃ q, IsFifo cap tr s q := by
  have h0 : Inv cap 0 (.start ring index) (Fifo.empty _ _) :=
    ⟨init_represents hinit index, rfl, trivial⟩
  obtain ⟨q, fifo, inv⟩ := (simulation cap 0).run h0 run
  rw [List.filterMap_some] at fifo
  have dropped := Fifo.dropped_eq fifo
  have full := Fifo.full_eq fifo
  simp only [Fifo.empty, Nat.zero_add, List.nil_append] at dropped full
  refine ⟨q, fifo, Fifo.accepted_eq fifo, inv.represents.holds.length_eq, q.bounded,
    inv.represents.holds.content, ?_, ⟨q.turnedAway, full, inv.producer.turnedAway⟩, ?_, ?_,
    fun _ _ _ _ step hi => unread_kept inv step hi, ?_, ?_⟩
  · rw [inv.represents.dropped, dropped]
    exact BitVec.zero_add _
  · intro choice t es b step hb
    obtain ⟨q', hidden | effect, -⟩ := inv_step inv step
    · simp [hidden.1] at hb
    · cases effect with
      | full a noRoom => exact noRoom
      | _ => simp at hb
  · intro choice t es step he
    obtain ⟨q', hidden | effect, -⟩ := inv_step inv step
    · simp [hidden.1] at he
    · cases effect with
      | empty h => exact h
      | _ => simp at he
  · intro t es step
    simp only [machine, Option.bind_eq_bind, Option.bind_eq_some_iff, Option.pure_def,
      Option.some.injEq, Prod.mk.injEq] at step
    obtain ⟨_, access, rfl, rfl⟩ := step
    exact Producer.step_returns access
  · intro t es step
    simp only [machine, Option.bind_eq_bind, Option.bind_eq_some_iff, Option.pure_def,
      Option.some.injEq, Prod.mk.injEq] at step
    obtain ⟨_, access, rfl, rfl⟩ := step
    exact Consumer.step_returns access

/-- The ring of two slots with nothing in it. -/
def twoSlots : Ringbuf :=
  { storage := fun _ => 0, capacity := 2, mask := 1, writeIndex := 0, readIndex := 0,
    droppedCount := 0 }

/-- Two slots, with indices about to wrap: the third push finds the ring full
and is refused, even though a byte is popped before it returns. -/
theorem ringbuf_refines_fifo_wrapped :
    ∃ s, machine.Run (.start twoSlots 0xFFFFFFFF)
        [.accepted 0x30, .accepted 0x31, .full 0x32, .popped 0x30, .refused 0x32] s ∧
      ∃ q, IsFifo 2 [.accepted 0x30, .accepted 0x31, .full 0x32, .popped 0x30, .refused 0x32] s q := by
  obtain ⟨s, run⟩ := Machine.exec_reaches machine (.start twoSlots 0xFFFFFFFF)
    [.push 0x30, .producer, .producer, .producer, .producer,
      .push 0x31, .producer, .producer, .producer, .producer, .push 0x32, .producer, .producer,
      .pop, .consumer, .consumer, .consumer, .consumer, .producer, .producer]
    [.accepted 0x30, .accepted 0x31, .full 0x32, .popped 0x30, .refused 0x32] (by decide +kernel)
  have hinit : init (some twoSlots) (some fun _ => 0) 2 = some twoSlots := rfl
  exact ⟨s, run, ringbuf_refines_fifo hinit 0xFFFFFFFF run⟩

end MspmBaremetal.Ringbuf
