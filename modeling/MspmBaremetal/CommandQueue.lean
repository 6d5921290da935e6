import MspmBaremetal.MaskedRing
import MspmBaremetal.Fifo

/-!
# The command queue of `lib_regmap`

The queue's memory and the memory accesses of
`lib_regmap_command_queue_enqueue` and `lib_regmap_command_queue_try_pop` one at
a time, in program order. `Producer.step_spec` and `Consumer.step_spec` say what
each access does to the commands the queue holds, whatever the other side is in
the middle of.
-/

namespace MspmBaremetal

structure Command where
  address : BitVec 16
  value : BitVec 8
  deriving DecidableEq, Repr

/-- `hasStorage` is false for a null storage pointer. -/
structure CommandQueue where
  hasStorage : Bool
  storage : Nat → Command
  capacity : BitVec 32
  writeIndex : BitVec 32
  readIndex : BitVec 32
  droppedCount : BitVec 32

namespace CommandQueue

/-- `lib_regmap_command_queue_init`; `none` is a null pointer argument or the
result `false`. -/
def init (queue : Option CommandQueue) (storage : Option (Nat → Command)) (capacity : BitVec 32) :
    Option CommandQueue :=
  match queue, storage with
  | some _, some storage =>
    if isPowerOfTwo capacity then
      some { hasStorage := true, storage, capacity, writeIndex := 0, readIndex := 0,
             droppedCount := 0 }
    else none
  | _, _ => none

/-- Where an enqueue stands before its next memory access. -/
inductive Producer where
  | loadWriteIndex (command : Command)
  | loadReadIndex (command : Command) (writeIndex : BitVec 32)
  | loadDroppedCount (command : Command)
  | storeDroppedCount (command : Command) (droppedCount : BitVec 32)
  | storeAddress (command : Command) (writeIndex : BitVec 32)
  | storeValue (command : Command) (writeIndex : BitVec 32)
  | storeWriteIndex (command : Command) (writeIndex : BitVec 32)
  | returned (result : Bool)
  deriving DecidableEq, Repr

/-- Where a pop stands before its next memory access. -/
inductive Consumer where
  | idle
  | loadReadIndex
  | loadWriteIndex (readIndex : BitVec 32)
  | loadAddress (readIndex : BitVec 32)
  | loadValue (readIndex : BitVec 32) (address : BitVec 16)
  | storeReadIndex (readIndex : BitVec 32) (command : Command)
  | returned (result : Option Command)
  deriving DecidableEq, Repr

/-- The slot a queue keeps for an index. -/
def slotOf (queue : CommandQueue) (index : BitVec 32) : Nat :=
  (index &&& (queue.capacity - 1)).toNat

def setSlot (queue : CommandQueue) (index : BitVec 32) (command : Command) : CommandQueue :=
  { queue with storage := Function.update queue.storage (queue.slotOf index) command }

/-- The next memory access of `lib_regmap_command_queue_enqueue`, with the
checks that follow it. -/
def Producer.step (queue : CommandQueue) :
    Producer → Option (CommandQueue × Producer × List (FifoEvent Command))
  | .returned _ => none
  | .loadWriteIndex command => some (queue, .loadReadIndex command queue.writeIndex, [])
  | .loadReadIndex command writeIndex =>
    if queue.hasStorage = false ∨ isPowerOfTwo queue.capacity = false then
      some (queue, .returned false, [])
    else if writeIndex - queue.readIndex ≥ queue.capacity then
      some (queue, .loadDroppedCount command, [.full command])
    else some (queue, .storeAddress command writeIndex, [])
  | .loadDroppedCount command =>
    some (queue, .storeDroppedCount command queue.droppedCount, [])
  | .storeDroppedCount command droppedCount =>
    some ({ queue with droppedCount := droppedCount + 1 }, .returned false, [.refused command])
  | .storeAddress command writeIndex =>
    some (queue.setSlot writeIndex
        { queue.storage (queue.slotOf writeIndex) with address := command.address },
      .storeValue command writeIndex, [])
  | .storeValue command writeIndex =>
    some (queue.setSlot writeIndex
        { queue.storage (queue.slotOf writeIndex) with value := command.value },
      .storeWriteIndex command writeIndex, [])
  | .storeWriteIndex command writeIndex =>
    some ({ queue with writeIndex := writeIndex + 1 }, .returned true, [.accepted command])

/-- The next memory access of `lib_regmap_command_queue_try_pop`. -/
def Consumer.step (queue : CommandQueue) :
    Consumer → Option (CommandQueue × Consumer × List (FifoEvent Command))
  | .idle | .returned _ => none
  | .loadReadIndex => some (queue, .loadWriteIndex queue.readIndex, [])
  | .loadWriteIndex readIndex =>
    if queue.hasStorage = false ∨ isPowerOfTwo queue.capacity = false then
      some (queue, .returned none, [])
    else if readIndex = queue.writeIndex then some (queue, .returned none, [.empty])
    else some (queue, .loadAddress readIndex, [])
  | .loadAddress readIndex =>
    some (queue, .loadValue readIndex (queue.storage (queue.slotOf readIndex)).address, [])
  | .loadValue readIndex address =>
    some (queue, .storeReadIndex readIndex
      ⟨address, (queue.storage (queue.slotOf readIndex)).value⟩, [])
  | .storeReadIndex readIndex command =>
    some ({ queue with readIndex := readIndex + 1 }, .returned (some command), [.popped command])

/-- The command an enqueue was called with, until it returns. -/
def Producer.command : Producer → Option Command
  | .returned _ => none
  | .loadWriteIndex command | .loadReadIndex command _ | .loadDroppedCount command
  | .storeDroppedCount command _ | .storeAddress command _ | .storeValue command _
  | .storeWriteIndex command _ => some command

def Producer.result : Producer → Option Bool
  | .returned result => some result
  | _ => none

def Consumer.result : Consumer → Option (Option Command)
  | .returned result => some result
  | _ => none

/-- The unread commands, oldest first. -/
def queued (queue : CommandQueue) : List Command :=
  (List.range (queue.writeIndex - queue.readIndex).toNat).map fun i =>
    queue.storage (queue.slotOf (queue.readIndex + BitVec.ofNat 32 i))

/-- An enqueue into a queue that was initialised goes on with the same command,
or returns whether the queue took it. -/
theorem Producer.step_ends {queue queue' : CommandQueue} {p p' : Producer}
    {es : List (FifoEvent Command)} (storage : queue.hasStorage = true)
    (powerOfTwo : isPowerOfTwo queue.capacity = true) (step : p.step queue = some (queue', p', es)) :
    ∃ c, p.command = some c ∧
      (p'.command = some c ∧ Fifo.decided es = [] ∨
        p' = .returned true ∧ es = [.accepted c] ∨ p' = .returned false ∧ es = [.refused c]) := by
  cases p with
  | returned => cases step
  | loadReadIndex c w =>
    simp only [Producer.step, storage, powerOfTwo, reduceCtorEq, or_self, if_false] at step
    split at step <;> cases step <;> exact ⟨c, rfl, .inl ⟨rfl, rfl⟩⟩
  | loadWriteIndex c | loadDroppedCount c | storeAddress c w | storeValue c w =>
    cases step
    exact ⟨c, rfl, .inl ⟨rfl, rfl⟩⟩
  | storeDroppedCount c d =>
    cases step
    exact ⟨c, rfl, .inr (.inr ⟨rfl, rfl⟩)⟩
  | storeWriteIndex c w =>
    cases step
    exact ⟨c, rfl, .inr (.inl ⟨rfl, rfl⟩)⟩

/-- An enqueue returns whether the queue took its command. -/
theorem Producer.step_returns {queue queue' : CommandQueue} {p p' : Producer}
    {es : List (FifoEvent Command)} (storage : queue.hasStorage = true)
    (powerOfTwo : isPowerOfTwo queue.capacity = true) (step : p.step queue = some (queue', p', es)) :
    ∃ c, p.command = some c ∧ Fifo.decided es = p'.result.toList.map (c, ·) := by
  obtain ⟨c, hc, ⟨hc', undecided⟩ | ⟨rfl, rfl⟩ | ⟨rfl, rfl⟩⟩ := p.step_ends storage powerOfTwo step
  · refine ⟨c, hc, ?_⟩
    rw [undecided]
    cases p' with
    | returned => cases hc'
    | _ => rfl
  · exact ⟨c, hc, rfl⟩
  · exact ⟨c, hc, rfl⟩

/-- Only the load of `read_index` finds the queue full. -/
theorem Producer.step_full {queue queue' : CommandQueue} {p p' : Producer}
    {es : List (FifoEvent Command)} {c : Command} (step : p.step queue = some (queue', p', es))
    (full : .full c ∈ es) : ∃ w, p = .loadReadIndex c w := by
  cases p with
  | returned => cases step
  | loadReadIndex c' w =>
    simp only [Producer.step] at step
    split at step
    · cases step
      simp at full
    · split at step
      · cases step
        obtain rfl : c = c' := by simpa using full
        exact ⟨w, rfl⟩
      · cases step
        simp at full
  | _ =>
    cases step
    simp at full

theorem Consumer.step_events {queue queue' : CommandQueue} {c c' : Consumer}
    {es : List (FifoEvent Command)} (step : c.step queue = some (queue', c', es)) :
    es = [] ∨ es = [.empty] ∨ ∃ command, es = [.popped command] := by
  cases c with
  | idle | returned => cases step
  | loadWriteIndex r =>
    simp only [Consumer.step] at step
    split at step
    · cases step
      exact .inl rfl
    · split at step <;> cases step
      · exact .inr (.inl rfl)
      · exact .inl rfl
  | loadReadIndex | loadAddress | loadValue =>
    cases step
    exact .inl rfl
  | storeReadIndex r command =>
    cases step
    exact .inr (.inr ⟨command, rfl⟩)

theorem Consumer.step_undecided {queue queue' : CommandQueue} {c c' : Consumer}
    {es : List (FifoEvent Command)} (step : c.step queue = some (queue', c', es)) :
    Fifo.decided es = [] := by
  rcases Consumer.step_events step with rfl | rfl | ⟨command, rfl⟩ <;> rfl

/-- A pop from a queue that was initialised goes on, or returns the command it
removed or that there was none. -/
theorem Consumer.step_ends {queue queue' : CommandQueue} {c c' : Consumer}
    {es : List (FifoEvent Command)} (storage : queue.hasStorage = true)
    (powerOfTwo : isPowerOfTwo queue.capacity = true) (step : c.step queue = some (queue', c', es)) :
    es = c'.result.toList.map (·.elim .empty .popped) := by
  cases c with
  | idle | returned => cases step
  | loadWriteIndex r =>
    simp only [Consumer.step, storage, powerOfTwo, reduceCtorEq, or_self, if_false] at step
    split at step <;> cases step <;> rfl
  | loadReadIndex | loadAddress | loadValue | storeReadIndex =>
    cases step
    rfl

/-! ## What the queue holds while both sides are in the middle of a call -/

variable {cap base : BitVec 32} {queue queue' : CommandQueue} {q : Fifo Command cap.toNat}

/-- The memory holds the commands of `q` and counts its refusals, starting from
`base`. -/
structure Represents (cap base : BitVec 32) (queue : CommandQueue) (q : Fifo Command cap.toNat) :
    Prop where
  powerOfTwo : isPowerOfTwo cap = true
  capacity : queue.capacity = cap
  hasStorage : queue.hasStorage = true
  holds : MspmBaremetal.Holds cap queue.storage queue.readIndex queue.writeIndex q.items
  dropped : queue.droppedCount = base + BitVec.ofNat 32 q.dropped

theorem Represents.power (h : Represents cap base queue q) : isPowerOfTwo queue.capacity = true :=
  h.capacity ▸ h.powerOfTwo

theorem Represents.slotOf (h : Represents cap base queue q) (index : BitVec 32) :
    queue.slotOf index = slot cap index := by
  rw [CommandQueue.slotOf, h.capacity, slot]

theorem Represents.queued_eq (h : Represents cap base queue q) : queue.queued = q.items := by
  have length := h.holds.length_eq
  apply List.ext_getElem
  · simpa [queued] using length
  · intro i hi hi'
    simpa [queued, h.slotOf] using h.holds.content i hi'

/-- What an enqueue's local variables say about the queue. -/
def Producer.Sane (queue : CommandQueue) (q : Fifo Command cap.toNat) : Producer → Prop
  | .loadWriteIndex _ | .returned _ => q.turnedAway = []
  | .loadReadIndex _ writeIndex => q.turnedAway = [] ∧ writeIndex = queue.writeIndex
  | .loadDroppedCount command => q.turnedAway = [command]
  | .storeDroppedCount command droppedCount =>
    q.turnedAway = [command] ∧ droppedCount = queue.droppedCount
  | .storeAddress _ writeIndex =>
    q.turnedAway = [] ∧ writeIndex = queue.writeIndex ∧ q.items.length < cap.toNat
  | .storeValue command writeIndex =>
    q.turnedAway = [] ∧ writeIndex = queue.writeIndex ∧ q.items.length < cap.toNat ∧
    (queue.storage (slot cap writeIndex)).address = command.address
  | .storeWriteIndex command writeIndex =>
    q.turnedAway = [] ∧ writeIndex = queue.writeIndex ∧ q.items.length < cap.toNat ∧
    queue.storage (slot cap writeIndex) = command

/-- What a pop's local variables say about the queue. -/
def Consumer.Sane (queue : CommandQueue) (q : Fifo Command cap.toNat) : Consumer → Prop
  | .idle | .loadReadIndex | .returned _ => True
  | .loadWriteIndex readIndex => readIndex = queue.readIndex
  | .loadAddress readIndex => readIndex = queue.readIndex ∧ q.items ≠ []
  | .loadValue readIndex address =>
    readIndex = queue.readIndex ∧ ∃ command rest, q.items = command :: rest ∧
      address = command.address
  | .storeReadIndex readIndex command =>
    readIndex = queue.readIndex ∧ ∃ rest, q.items = command :: rest

theorem Producer.Sane.turnedAway {p : Producer} (h : p.Sane queue q) : q.turnedAway.length ≤ 1 := by
  cases p <;> simp only [Producer.Sane] at h <;> simp [h]

theorem init_represents {given : Option CommandQueue} {storage : Option (Nat → Command)}
    (h : init given storage cap = some queue) (index : BitVec 32) :
    Represents cap 0 { queue with writeIndex := index, readIndex := index } (Fifo.empty _ _) := by
  simp only [init] at h
  split at h
  · split at h
    · rename_i hc
      cases h
      exact ⟨hc, rfl, rfl, .nil _ _ _, rfl⟩
    · cases h
  · cases h

/-- A pop's local variables stay right when an enqueue appends a command or
leaves the commands as they are. -/
theorem Consumer.Sane.stable {c : Consumer} (h : c.Sane queue q) {q' : Fifo Command cap.toNat}
    (read : queue'.readIndex = queue.readIndex) (grows : ∃ more, q'.items = q.items ++ more) :
    c.Sane queue' q' := by
  obtain ⟨more, grows⟩ := grows
  cases c with
  | idle | loadReadIndex | returned => trivial
  | loadWriteIndex r => exact h.trans read.symm
  | loadAddress r => exact ⟨h.1.trans read.symm, by simp [grows, h.2]⟩
  | loadValue r address =>
    obtain ⟨hr, command, rest, hq, loaded⟩ := h
    exact ⟨hr.trans read.symm, command, rest ++ more, by simp [grows, hq], loaded⟩
  | storeReadIndex r command =>
    obtain ⟨hr, rest, hq⟩ := h
    exact ⟨hr.trans read.symm, rest ++ more, by simp [grows, hq]⟩

/-- An enqueue's local variables stay right when a pop removes a command. -/
theorem Producer.Sane.stable {p : Producer} (h : p.Sane queue q) {q' : Fifo Command cap.toNat}
    (readOnly : queue' = { queue with readIndex := queue'.readIndex })
    (reports : q'.turnedAway = q.turnedAway) (shrinks : q'.items.length ≤ q.items.length) :
    p.Sane queue' q' := by
  have write : queue'.writeIndex = queue.writeIndex := by rw [readOnly]
  have storage : queue'.storage = queue.storage := by rw [readOnly]
  have dropped : queue'.droppedCount = queue.droppedCount := by rw [readOnly]
  cases p with
  | loadWriteIndex | returned | loadDroppedCount => exact reports.trans h
  | loadReadIndex command w => exact ⟨reports.trans h.1, h.2.trans write.symm⟩
  | storeDroppedCount command d => exact ⟨reports.trans h.1, h.2.trans dropped.symm⟩
  | storeAddress command w =>
    exact ⟨reports.trans h.1, h.2.1.trans write.symm, Nat.lt_of_le_of_lt shrinks h.2.2⟩
  | storeValue command w | storeWriteIndex command w =>
    obtain ⟨ht, hw, room, stored⟩ := h
    exact ⟨reports.trans ht, hw.trans write.symm, Nat.lt_of_le_of_lt shrinks room,
      by rw [storage]; exact stored⟩

/-- A store into the slot at the write index changes none of the commands held. -/
theorem Represents.setSlot (h : Represents cap base queue q) (room : q.items.length < cap.toNat)
    (command : Command) : Represents cap base (queue.setSlot queue.writeIndex command) q where
  powerOfTwo := h.powerOfTwo
  capacity := h.capacity
  hasStorage := h.hasStorage
  holds := by
    rw [CommandQueue.setSlot, h.slotOf]
    exact h.holds.store h.powerOfTwo room command
  dropped := h.dropped

theorem Represents.setSlot_self (h : Represents cap base queue q) (command : Command) :
    (queue.setSlot queue.writeIndex command).storage (slot cap queue.writeIndex) = command := by
  rw [CommandQueue.setSlot, h.slotOf]
  exact Function.update_self ..

/-- Each access of an enqueue is one step of the queue or invisible to it, at
whatever point of a pop it happens. -/
theorem Producer.step_spec {p p' : Producer} {c : Consumer} {es : List (FifoEvent Command)}
    (h : Represents cap base queue q) (hp : p.Sane queue q) (hc : c.Sane queue q)
    (step : p.step queue = some (queue', p', es)) :
    ∃ q', (es = [] ∧ q' = q ∨ Fifo.Effect q es q') ∧ Represents cap base queue' q' ∧
      p'.Sane queue' q' ∧ c.Sane queue' q' := by
  cases p with
  | returned => cases step
  | loadWriteIndex command =>
    cases step
    exact ⟨q, .inl ⟨rfl, rfl⟩, h, ⟨hp, rfl⟩, hc⟩
  | loadReadIndex command w =>
    obtain ⟨ht, rfl⟩ := hp
    simp only [Producer.step, h.capacity, h.hasStorage, h.powerOfTwo, ge_iff_le, h.holds.ge_iff,
      reduceCtorEq, or_self, if_false] at step
    split at step
    · rename_i noRoom
      cases step
      refine ⟨q.turnAway command, .inr (.full command noRoom), ⟨h.powerOfTwo, h.capacity,
        h.hasStorage, h.holds, h.dropped⟩, ?_, hc.stable rfl ⟨[], by simp [Fifo.turnAway]⟩⟩
      simp [Producer.Sane, Fifo.turnAway, ht]
    · rename_i room
      cases step
      have := q.bounded
      exact ⟨q, .inl ⟨rfl, rfl⟩, h, ⟨ht, rfl, by omega⟩, hc⟩
  | loadDroppedCount command =>
    cases step
    exact ⟨q, .inl ⟨rfl, rfl⟩, h, ⟨hp, rfl⟩, hc⟩
  | storeDroppedCount command d =>
    obtain ⟨ht, rfl⟩ := hp
    cases step
    refine ⟨q.report, .inr (.refused command [] ht), ⟨h.powerOfTwo, h.capacity, h.hasStorage,
      h.holds, ?_⟩, ?_, hc.stable rfl ⟨[], by simp [Fifo.report]⟩⟩
    · simp [Fifo.report, h.dropped, BitVec.ofNat_add, BitVec.add_assoc]
    · simp [Producer.Sane, Fifo.report, ht]
  | storeAddress command w =>
    obtain ⟨ht, rfl, room⟩ := hp
    cases step
    refine ⟨q, .inl ⟨rfl, rfl⟩, h.setSlot room _, ⟨ht, rfl, room, ?_⟩,
      hc.stable rfl ⟨[], by simp⟩⟩
    rw [h.setSlot_self]
  | storeValue command w =>
    obtain ⟨ht, rfl, room, stored⟩ := hp
    cases step
    refine ⟨q, .inl ⟨rfl, rfl⟩, h.setSlot room _, ⟨ht, rfl, room, ?_⟩,
      hc.stable rfl ⟨[], by simp⟩⟩
    rw [h.setSlot_self, h.slotOf]
    cases command
    simpa using stored
  | storeWriteIndex command w =>
    obtain ⟨ht, rfl, room, stored⟩ := hp
    cases step
    exact ⟨q.push command room, .inr (.accepted command room), ⟨h.powerOfTwo, h.capacity,
      h.hasStorage, h.holds.push room stored, h.dropped⟩, ht, hc.stable rfl ⟨[command], rfl⟩⟩

/-- Each access of a pop is one step of the queue or invisible to it, at
whatever point of an enqueue it happens. -/
theorem Consumer.step_spec {p : Producer} {c c' : Consumer} {es : List (FifoEvent Command)}
    (h : Represents cap base queue q) (hp : p.Sane queue q) (hc : c.Sane queue q)
    (step : c.step queue = some (queue', c', es)) :
    ∃ q', (es = [] ∧ q' = q ∨ Fifo.Effect q es q') ∧ Represents cap base queue' q' ∧
      p.Sane queue' q' ∧ c'.Sane queue' q' := by
  cases c with
  | idle | returned => cases step
  | loadReadIndex =>
    cases step
    exact ⟨q, .inl ⟨rfl, rfl⟩, h, hp, rfl⟩
  | loadWriteIndex r =>
    obtain rfl := hc
    simp only [Consumer.step, h.hasStorage, h.capacity, h.powerOfTwo, h.holds.empty_iff,
      reduceCtorEq, or_self, if_false] at step
    split at step
    · rename_i hempty
      cases step
      exact ⟨q, .inr (.empty hempty), h, hp, trivial⟩
    · rename_i nonempty
      cases step
      exact ⟨q, .inl ⟨rfl, rfl⟩, h, hp, rfl, nonempty⟩
  | loadAddress r =>
    obtain ⟨rfl, nonempty⟩ := hc
    cases step
    obtain ⟨command, rest, hq⟩ := List.exists_cons_of_ne_nil nonempty
    have front : queue.storage (queue.slotOf queue.readIndex) = command := by
      rw [h.slotOf]
      exact (hq ▸ h.holds).front
    exact ⟨q, .inl ⟨rfl, rfl⟩, h, hp, rfl, command, rest, hq, by rw [front]⟩
  | loadValue r address =>
    obtain ⟨rfl, command, rest, hq, rfl⟩ := hc
    cases step
    have front : queue.storage (queue.slotOf queue.readIndex) = command := by
      rw [h.slotOf]
      exact (hq ▸ h.holds).front
    exact ⟨q, .inl ⟨rfl, rfl⟩, h, hp, rfl, rest, by rw [front]; exact hq⟩
  | storeReadIndex r command =>
    obtain ⟨rfl, rest, hq⟩ := hc
    cases step
    refine ⟨q.pop, .inr (.popped command rest hq), ⟨h.powerOfTwo, h.capacity, h.hasStorage, ?_,
      h.dropped⟩, hp.stable rfl rfl (by simp [Fifo.pop]), trivial⟩
    simpa [Fifo.pop, hq] using (hq ▸ h.holds).pop

end CommandQueue

end MspmBaremetal
