import MspmBaremetal.MaskedRing
import MspmBaremetal.Fifo

/-!
# The byte ring of `lib_ringbuf`

The ring's memory and the memory accesses of `lib_ringbuf_try_push` and
`lib_ringbuf_try_pop` one at a time, in program order. `Producer.step_spec` and
`Consumer.step_spec` say what each access does to the bytes the ring holds,
whatever the other side is in the middle of.
-/

namespace MspmBaremetal

structure Ringbuf where
  storage : Nat → BitVec 8
  capacity : BitVec 32
  mask : BitVec 32
  writeIndex : BitVec 32
  readIndex : BitVec 32
  droppedCount : BitVec 32
  deriving Inhabited

namespace Ringbuf

/-- `lib_ringbuf_init`; `none` is a null pointer argument or the result `false`. -/
def init (ring : Option Ringbuf) (storage : Option (Nat → BitVec 8)) (capacity : BitVec 32) :
    Option Ringbuf :=
  match ring, storage with
  | some _, some storage =>
    if isPowerOfTwo capacity then
      some { storage, capacity, mask := capacity - 1, writeIndex := 0, readIndex := 0,
             droppedCount := 0 }
    else none
  | _, _ => none

/-- Where a `lib_ringbuf_try_push` call stands before its next memory access. -/
inductive Producer where
  | idle
  | loadWriteIndex (byte : BitVec 8)
  | loadReadIndex (byte : BitVec 8) (writeIndex : BitVec 32)
  | loadDroppedCount (byte : BitVec 8)
  | storeDroppedCount (byte : BitVec 8) (droppedCount : BitVec 32)
  | storeSlot (byte : BitVec 8) (writeIndex : BitVec 32)
  | storeWriteIndex (byte : BitVec 8) (writeIndex : BitVec 32)
  | returned (result : Bool)
  deriving DecidableEq, Repr

/-- Where a `lib_ringbuf_try_pop` call stands before its next memory access. -/
inductive Consumer where
  | idle
  | loadReadIndex
  | loadWriteIndex (readIndex : BitVec 32)
  | loadSlot (readIndex : BitVec 32)
  | storeReadIndex (readIndex : BitVec 32) (byte : BitVec 8)
  | returned (result : Option (BitVec 8))
  deriving DecidableEq, Repr

/-- The next memory access of `lib_ringbuf_try_push`, with the comparison that
follows it; none between calls. -/
def Producer.step (ring : Ringbuf) :
    Producer → Option (Ringbuf × Producer × List (FifoEvent (BitVec 8)))
  | .idle | .returned _ => none
  | .loadWriteIndex byte => some (ring, .loadReadIndex byte ring.writeIndex, [])
  | .loadReadIndex byte writeIndex =>
    if writeIndex - ring.readIndex = ring.capacity then
      some (ring, .loadDroppedCount byte, [.full byte])
    else some (ring, .storeSlot byte writeIndex, [])
  | .loadDroppedCount byte => some (ring, .storeDroppedCount byte ring.droppedCount, [])
  | .storeDroppedCount byte droppedCount =>
    some ({ ring with droppedCount := droppedCount + 1 }, .returned false, [.refused byte])
  | .storeSlot byte writeIndex =>
    some ({ ring with storage := Function.update ring.storage (writeIndex &&& ring.mask).toNat byte },
      .storeWriteIndex byte writeIndex, [])
  | .storeWriteIndex byte writeIndex =>
    some ({ ring with writeIndex := writeIndex + 1 }, .returned true, [.accepted byte])

/-- The next memory access of `lib_ringbuf_try_pop`. -/
def Consumer.step (ring : Ringbuf) :
    Consumer → Option (Ringbuf × Consumer × List (FifoEvent (BitVec 8)))
  | .idle | .returned _ => none
  | .loadReadIndex => some (ring, .loadWriteIndex ring.readIndex, [])
  | .loadWriteIndex readIndex =>
    if readIndex = ring.writeIndex then some (ring, .returned none, [.empty])
    else some (ring, .loadSlot readIndex, [])
  | .loadSlot readIndex =>
    some (ring, .storeReadIndex readIndex (ring.storage (readIndex &&& ring.mask).toNat), [])
  | .storeReadIndex readIndex byte =>
    some ({ ring with readIndex := readIndex + 1 }, .returned (some byte), [.popped byte])

/-- The byte a push in progress was called with. -/
def Producer.byte : Producer → Option (BitVec 8)
  | .idle | .returned _ => none
  | .loadWriteIndex byte | .loadReadIndex byte _ | .loadDroppedCount byte
  | .storeDroppedCount byte _ | .storeSlot byte _ | .storeWriteIndex byte _ => some byte

def Producer.result : Producer → Option Bool
  | .returned result => some result
  | _ => none

def Consumer.result : Consumer → Option (Option (BitVec 8))
  | .returned result => some result
  | _ => none

/-- The unread bytes, oldest first. -/
def queued (ring : Ringbuf) : List (BitVec 8) :=
  (List.range (ring.writeIndex - ring.readIndex).toNat).map fun i =>
    ring.storage ((ring.readIndex + BitVec.ofNat 32 i) &&& ring.mask).toNat

/-- A push goes on with the same byte, or returns whether it accepted it. -/
theorem Producer.step_ends {ring ring' : Ringbuf} {p p' : Producer}
    {es : List (FifoEvent (BitVec 8))} (step : p.step ring = some (ring', p', es)) :
    ∃ b, p.byte = some b ∧ Fifo.popped es = [] ∧
      (p'.byte = some b ∧ Fifo.decided es = [] ∨ p' = .returned true ∧ es = [.accepted b] ∨
        p' = .returned false ∧ es = [.refused b]) := by
  cases p with
  | idle | returned => cases step
  | loadReadIndex b w =>
    simp only [Producer.step] at step
    split at step <;> cases step <;> exact ⟨b, rfl, rfl, .inl ⟨rfl, rfl⟩⟩
  | loadWriteIndex b | loadDroppedCount b | storeSlot b w =>
    cases step
    exact ⟨b, rfl, rfl, .inl ⟨rfl, rfl⟩⟩
  | storeDroppedCount b d =>
    cases step
    exact ⟨b, rfl, rfl, .inr (.inr ⟨rfl, rfl⟩)⟩
  | storeWriteIndex b w =>
    cases step
    exact ⟨b, rfl, rfl, .inr (.inl ⟨rfl, rfl⟩)⟩

/-- A push returns whether its byte was accepted. -/
theorem Producer.step_returns {ring ring' : Ringbuf} {p p' : Producer}
    {es : List (FifoEvent (BitVec 8))} (step : p.step ring = some (ring', p', es)) :
    ∃ b, p.byte = some b ∧ Fifo.decided es = p'.result.toList.map (b, ·) := by
  obtain ⟨b, hb, -, ⟨hb', undecided⟩ | ⟨rfl, rfl⟩ | ⟨rfl, rfl⟩⟩ := p.step_ends step
  · refine ⟨b, hb, ?_⟩
    rw [undecided]
    cases p' with
    | returned => cases hb'
    | _ => rfl
  · exact ⟨b, hb, rfl⟩
  · exact ⟨b, hb, rfl⟩

/-- A pop goes on, or returns the byte it removed or that there was none. -/
theorem Consumer.step_ends {ring ring' : Ringbuf} {c c' : Consumer}
    {es : List (FifoEvent (BitVec 8))} (step : c.step ring = some (ring', c', es)) :
    Fifo.accepted es = [] ∧
      ((∀ result, c' ≠ .returned result) ∧ es = [] ∨
        (∃ b, c' = .returned (some b) ∧ es = [.popped b]) ∨
        c' = .returned none ∧ es = [.empty]) := by
  cases c with
  | idle | returned => cases step
  | loadReadIndex | loadSlot =>
    cases step
    exact ⟨rfl, .inl ⟨by simp, rfl⟩⟩
  | loadWriteIndex r =>
    simp only [Consumer.step] at step
    split at step <;> cases step
    · exact ⟨rfl, .inr (.inr ⟨rfl, rfl⟩)⟩
    · exact ⟨rfl, .inl ⟨by simp, rfl⟩⟩
  | storeReadIndex r b =>
    cases step
    exact ⟨rfl, .inr (.inl ⟨b, rfl, rfl⟩)⟩

/-- A pop returns what it removed. -/
theorem Consumer.step_returns {ring ring' : Ringbuf} {c c' : Consumer}
    {es : List (FifoEvent (BitVec 8))} (step : c.step ring = some (ring', c', es)) :
    es = c'.result.toList.map (·.elim .empty .popped) := by
  obtain ⟨-, ⟨going, rfl⟩ | ⟨b, rfl, rfl⟩ | ⟨rfl, rfl⟩⟩ := c.step_ends step
  · cases c' with
    | returned result => exact absurd rfl (going result)
    | _ => rfl
  · rfl
  · rfl

/-! ## What the ring holds while both sides are in the middle of a call -/

variable {cap base : BitVec 32} {ring ring' : Ringbuf} {q : Fifo (BitVec 8) cap.toNat}

/-- The ring's memory holds the bytes of `q` and counts its refusals, starting
from `base`. -/
structure Represents (cap base : BitVec 32) (ring : Ringbuf) (q : Fifo (BitVec 8) cap.toNat) :
    Prop where
  powerOfTwo : isPowerOfTwo cap = true
  capacity : ring.capacity = cap
  mask : ring.mask = cap - 1
  holds : Holds cap ring.storage ring.readIndex ring.writeIndex q.items
  dropped : ring.droppedCount = base + BitVec.ofNat 32 q.dropped

theorem Represents.queued_eq (h : Represents cap base ring q) : ring.queued = q.items := by
  have length := h.holds.length_eq
  apply List.ext_getElem
  · simpa [queued] using length
  · intro i hi hi'
    simpa [queued, h.mask, slot] using h.holds.content i hi'

/-- What the producer's local variables say about the ring. -/
def Producer.Sane (ring : Ringbuf) (q : Fifo (BitVec 8) cap.toNat) : Producer → Prop
  | .idle | .loadWriteIndex _ | .returned _ => q.turnedAway = []
  | .loadReadIndex _ writeIndex => q.turnedAway = [] ∧ writeIndex = ring.writeIndex
  | .loadDroppedCount byte => q.turnedAway = [byte]
  | .storeDroppedCount byte droppedCount =>
    q.turnedAway = [byte] ∧ droppedCount = ring.droppedCount
  | .storeSlot _ writeIndex =>
    q.turnedAway = [] ∧ writeIndex = ring.writeIndex ∧ q.items.length < cap.toNat
  | .storeWriteIndex byte writeIndex =>
    q.turnedAway = [] ∧ writeIndex = ring.writeIndex ∧ q.items.length < cap.toNat ∧
    ring.storage (slot cap writeIndex) = byte

/-- What the consumer's local variables say about the ring. -/
def Consumer.Sane (ring : Ringbuf) (q : Fifo (BitVec 8) cap.toNat) : Consumer → Prop
  | .idle | .loadReadIndex | .returned _ => True
  | .loadWriteIndex readIndex => readIndex = ring.readIndex
  | .loadSlot readIndex => readIndex = ring.readIndex ∧ q.items ≠ []
  | .storeReadIndex readIndex byte =>
    readIndex = ring.readIndex ∧ ∃ rest, q.items = byte :: rest

theorem init_represents {given : Option Ringbuf} {storage : Option (Nat → BitVec 8)}
    (h : init given storage cap = some ring) (index : BitVec 32) :
    Represents cap 0 { ring with writeIndex := index, readIndex := index } (Fifo.empty _ _) := by
  simp only [init] at h
  split at h
  · split at h
    · rename_i hc
      cases h
      exact ⟨hc, rfl, rfl, .nil _ _ _, rfl⟩
    · cases h
  · cases h

/-- The consumer's local variables stay right when the producer appends a byte
or leaves the bytes as they are. -/
theorem Consumer.Sane.stable {c : Consumer} (h : c.Sane ring q) {q' : Fifo (BitVec 8) cap.toNat}
    (read : ring'.readIndex = ring.readIndex) (grows : ∃ more, q'.items = q.items ++ more) :
    c.Sane ring' q' := by
  obtain ⟨more, grows⟩ := grows
  cases c with
  | idle | loadReadIndex | returned => trivial
  | loadWriteIndex r => exact h.trans read.symm
  | loadSlot r => exact ⟨h.1.trans read.symm, by simp [grows, h.2]⟩
  | storeReadIndex r byte =>
    obtain ⟨hr, rest, hq⟩ := h
    exact ⟨hr.trans read.symm, rest ++ more, by simp [grows, hq]⟩

/-- The producer's local variables stay right when the consumer removes bytes. -/
theorem Producer.Sane.stable {p : Producer} (h : p.Sane ring q) {q' : Fifo (BitVec 8) cap.toNat}
    (readOnly : ring' = { ring with readIndex := ring'.readIndex })
    (reports : q'.turnedAway = q.turnedAway) (shrinks : q'.items.length ≤ q.items.length) :
    p.Sane ring' q' := by
  have write : ring'.writeIndex = ring.writeIndex := by rw [readOnly]
  have storage : ring'.storage = ring.storage := by rw [readOnly]
  have dropped : ring'.droppedCount = ring.droppedCount := by rw [readOnly]
  cases p with
  | idle | loadWriteIndex | returned | loadDroppedCount => exact reports.trans h
  | loadReadIndex b w => exact ⟨reports.trans h.1, h.2.trans write.symm⟩
  | storeDroppedCount b d => exact ⟨reports.trans h.1, h.2.trans dropped.symm⟩
  | storeSlot b w =>
    exact ⟨reports.trans h.1, h.2.1.trans write.symm, Nat.lt_of_le_of_lt shrinks h.2.2⟩
  | storeWriteIndex b w =>
    obtain ⟨ht, hw, room, stored⟩ := h
    exact ⟨reports.trans ht, hw.trans write.symm, Nat.lt_of_le_of_lt shrinks room,
      by rw [storage]; exact stored⟩

/-- Each access of `try_push` is one step of the queue or invisible to it, at
whatever point of a `try_pop` it happens. -/
theorem Producer.step_spec {p p' : Producer} {c : Consumer} {es : List (FifoEvent (BitVec 8))}
    (h : Represents cap base ring q) (hp : p.Sane ring q) (hc : c.Sane ring q)
    (step : p.step ring = some (ring', p', es)) :
    ∃ q', (es = [] ∧ q' = q ∨ Fifo.Effect q es q') ∧ Represents cap base ring' q' ∧
      p'.Sane ring' q' ∧ c.Sane ring' q' := by
  cases p with
  | idle | returned => cases step
  | loadWriteIndex b =>
    cases step
    exact ⟨q, .inl ⟨rfl, rfl⟩, h, ⟨hp, rfl⟩, hc⟩
  | loadReadIndex b w =>
    obtain ⟨ht, rfl⟩ := hp
    simp only [Producer.step, h.capacity, h.holds.full_iff] at step
    split at step
    · rename_i noRoom
      cases step
      refine ⟨q.turnAway b, .inr (.full b noRoom), ⟨h.powerOfTwo, h.capacity, h.mask, h.holds,
        h.dropped⟩, ?_, hc.stable rfl ⟨[], by simp [Fifo.turnAway]⟩⟩
      simp [Producer.Sane, Fifo.turnAway, ht]
    · rename_i room
      cases step
      have := q.bounded
      exact ⟨q, .inl ⟨rfl, rfl⟩, h, ⟨ht, rfl, by omega⟩, hc⟩
  | loadDroppedCount b =>
    cases step
    exact ⟨q, .inl ⟨rfl, rfl⟩, h, ⟨hp, rfl⟩, hc⟩
  | storeDroppedCount b d =>
    obtain ⟨ht, rfl⟩ := hp
    cases step
    refine ⟨q.report, .inr (.refused b [] ht), ⟨h.powerOfTwo, h.capacity, h.mask, h.holds, ?_⟩, ?_,
      hc.stable rfl ⟨[], by simp [Fifo.report]⟩⟩
    · simp [Fifo.report, h.dropped, BitVec.ofNat_add, BitVec.add_assoc]
    · simp [Producer.Sane, Fifo.report, ht]
  | storeSlot b w =>
    obtain ⟨ht, rfl, room⟩ := hp
    cases step
    have hslot : (ring.writeIndex &&& ring.mask).toNat = slot cap ring.writeIndex := by
      rw [h.mask, slot]
    refine ⟨q, .inl ⟨rfl, rfl⟩, ⟨h.powerOfTwo, h.capacity, h.mask, ?_, h.dropped⟩,
      ⟨ht, rfl, room, ?_⟩, hc.stable rfl ⟨[], by simp⟩⟩
    · simpa only [hslot] using h.holds.store h.powerOfTwo room b
    · simp only [hslot, Function.update_self]
  | storeWriteIndex b w =>
    obtain ⟨ht, rfl, room, stored⟩ := hp
    cases step
    exact ⟨q.push b room, .inr (.accepted b room), ⟨h.powerOfTwo, h.capacity, h.mask,
      h.holds.push room stored, h.dropped⟩, ht, hc.stable rfl ⟨[b], rfl⟩⟩

/-- Each access of `try_pop` is one step of the queue or invisible to it, at
whatever point of a `try_push` it happens. -/
theorem Consumer.step_spec {p : Producer} {c c' : Consumer} {es : List (FifoEvent (BitVec 8))}
    (h : Represents cap base ring q) (hp : p.Sane ring q) (hc : c.Sane ring q)
    (step : c.step ring = some (ring', c', es)) :
    ∃ q', (es = [] ∧ q' = q ∨ Fifo.Effect q es q') ∧ Represents cap base ring' q' ∧
      p.Sane ring' q' ∧ c'.Sane ring' q' := by
  cases c with
  | idle | returned => cases step
  | loadReadIndex =>
    cases step
    exact ⟨q, .inl ⟨rfl, rfl⟩, h, hp, rfl⟩
  | loadWriteIndex r =>
    obtain rfl := hc
    simp only [Consumer.step, h.holds.empty_iff] at step
    split at step
    · rename_i hempty
      cases step
      exact ⟨q, .inr (.empty hempty), h, hp, trivial⟩
    · rename_i nonempty
      cases step
      exact ⟨q, .inl ⟨rfl, rfl⟩, h, hp, rfl, nonempty⟩
  | loadSlot r =>
    obtain ⟨rfl, nonempty⟩ := hc
    cases step
    obtain ⟨b, rest, hq⟩ := List.exists_cons_of_ne_nil nonempty
    have front : ring.storage (ring.readIndex &&& ring.mask).toNat = b := by
      rw [h.mask]; exact (hq ▸ h.holds).front
    exact ⟨q, .inl ⟨rfl, rfl⟩, h, hp, rfl, rest, by rw [front]; exact hq⟩
  | storeReadIndex r b =>
    obtain ⟨rfl, rest, hq⟩ := hc
    cases step
    refine ⟨q.pop, .inr (.popped b rest hq), ⟨h.powerOfTwo, h.capacity, h.mask, ?_, h.dropped⟩,
      hp.stable rfl rfl (by simp [Fifo.pop]), trivial⟩
    simpa [Fifo.pop, hq] using (hq ▸ h.holds).pop

end Ringbuf

end MspmBaremetal
