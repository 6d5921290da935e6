import MspmBaremetal.MemoryProgram
import Mathlib.Algebra.Group.Nat.Defs

/-!
# The byte helpers of a build without a C library

`arch_memory.c` as programs over a memory of 2^32 bytes:

* `memmove_moves`: `memmove` moves its bytes however the two ranges lie;
* `memcpy_moves_iff`: `memcpy` does so unless it would copy up into its own source;
* `memset_fills`, `memcmp_orders`: the other two helpers.
-/

namespace MspmBaremetal.ArchMemory

open RegisterProgram

abbrev Memory := BitVec 32 → BitVec 8

abbrev Program := RegisterProgram (BitVec 32) (BitVec 8)

/-- `destination_bytes[index] = source_bytes[index]`. -/
def copyByte (destination source index : BitVec 32) : Program PUnit := do
  let byte ← load (source + index)
  store (destination + index) byte

def memcpy (destination source length : BitVec 32) : Program (BitVec 32) := do
  countUp (copyByte destination source) length 0
  return destination

def memset (destination : BitVec 32) (value : Int) (length : BitVec 32) : Program (BitVec 32) := do
  countUp (fun index => store (destination + index) (BitVec.ofInt 8 value)) length 0
  return destination

def memmove (destination source length : BitVec 32) : Program (BitVec 32) :=
  if destination < source then memcpy destination source length
  else do
    countDown (copyByte destination source) length
    return destination

def memcmpFrom (left right length index : BitVec 32) : Program Int :=
  if below : index < length then do
    let leftByte ← load (left + index)
    let rightByte ← load (right + index)
    if leftByte ≠ rightByte then
      let leftByte ← load (left + index)
      let rightByte ← load (right + index)
      return if leftByte < rightByte then -1 else 1
    else memcmpFrom left right length (index + 1)
  else return 0
termination_by length.toNat - index.toNat
decreasing_by
  rw [toNat_succ below]
  have := BitVec.lt_def.mp below
  omega

def memcmp (left right length : BitVec 32) : Program Int := memcmpFrom left right length 0

/-! ## Ranges -/

/-- The range does not wrap the address space. -/
def NoWrap (start length : BitVec 32) : Prop := start.toNat + length.toNat ≤ 2 ^ 32

def InRange (start length address : BitVec 32) : Prop :=
  start.toNat ≤ address.toNat ∧ address.toNat < start.toNat + length.toNat

instance (start length : BitVec 32) : Decidable (NoWrap start length) :=
  inferInstanceAs (Decidable (_ ≤ _))

instance (start length address : BitVec 32) : Decidable (InRange start length address) :=
  inferInstanceAs (Decidable (_ ∧ _))

section Ranges

variable {start length : BitVec 32}

theorem NoWrap.toNat_add (h : NoWrap start length) {i : BitVec 32} (within : i < length) :
    (start + i).toNat = start.toNat + i.toNat := by
  have := BitVec.lt_def.mp within
  rw [BitVec.toNat_add]
  exact Nat.mod_eq_of_lt (Nat.lt_of_lt_of_le (by omega) h)

theorem InRange.offset {address : BitVec 32} (h : InRange start length address) :
    address - start < length ∧ start + (address - start) = address := by
  obtain ⟨least, below⟩ := h
  constructor
  · rw [BitVec.lt_def, BitVec.toNat_sub_of_le (BitVec.le_def.mpr least)]
    omega
  · rw [BitVec.add_comm, BitVec.sub_add_cancel]

theorem NoWrap.inRange_iff (h : NoWrap start length) {address : BitVec 32} :
    InRange start length address ↔ ∃ i < length, start + i = address := by
  constructor
  · intro inside
    exact ⟨address - start, inside.offset⟩
  · rintro ⟨i, within, rfl⟩
    have := BitVec.lt_def.mp within
    rw [InRange, h.toNat_add within]
    omega

end Ranges

/-- A loop followed by `return destination`. -/
theorem makes_returning {loop : Program PUnit} {destination returned : BitVec 32}
    {t : List (Access (BitVec 32) (BitVec 8))} :
    Makes (do loop; return destination) t returned ↔ Makes loop t ⟨⟩ ∧ returned = destination := by
  simp only [makes_bind, makes_pure]
  constructor
  · rintro ⟨_, _, _, rfl, made, rfl, rfl⟩
    rw [List.append_nil]
    exact ⟨made, rfl⟩
  · rintro ⟨made, rfl⟩
    exact ⟨t, _, [], (List.append_nil t).symm, made, rfl, rfl⟩

/-- The destination range holds what the source range held, and nothing else changed. -/
structure Moved (destination source length : BitVec 32) (before after : Memory) : Prop where
  copied : ∀ i < length, after (destination + i) = before (source + i)
  kept : ∀ address, ¬InRange destination length address → after address = before address

/-- A copy in increasing order reads every source byte before it writes there. -/
def ForwardSafe (destination source length : BitVec 32) : Prop :=
  ∀ i j, i < j → j < length → destination + i ≠ source + j

section Copies

variable {destination source length returned : BitVec 32} {t : List (Access (BitVec 32) (BitVec 8))}

theorem copyByte_eq : copyByte destination source = copyOne (destination + ·) (source + ·) := rfl

theorem copies_moved {α : Type} {p : Program α} {memory : Memory} {order : List (BitVec 32)}
    (h : Makes (order.forM (copyByte destination source)) (p.onMemory memory).1 ⟨⟩)
    (every : ∀ i, i ∈ order ↔ i < length)
    (apart : order.Pairwise fun i j => destination + i ≠ source + j)
    (inside : NoWrap destination length) :
    Moved destination source length memory (p.onMemory memory).2.2 := by
  obtain ⟨moved, frame⟩ := copies_final h apart
    (fun i _ j _ same => (BitVec.add_right_inj destination).mp same)
  constructor
  · intro i within
    exact moved i ((every i).mpr within)
  · intro address outside
    apply frame
    intro i mem here
    exact outside (inside.inRange_iff.mpr ⟨i, (every i).mp mem, here⟩)

theorem memcpy_makes :
    Makes (memcpy destination source length) t returned ↔
      Makes ((wordsFrom length 0).forM (copyByte destination source)) t ⟨⟩ ∧
        returned = destination := by
  rw [memcpy, countUp_eq]
  exact makes_returning

/-- The loop of `memmove` itself. -/
theorem memmove_makes (notBelow : ¬destination < source) :
    Makes (memmove destination source length) t returned ↔
      Makes ((wordsFrom length 0).reverse.forM (copyByte destination source)) t ⟨⟩ ∧
        returned = destination := by
  rw [memmove, if_neg notBelow, countDown_eq]
  exact makes_returning

theorem forwardSafe_pairwise : ForwardSafe destination source length ↔
    (wordsFrom length 0).Pairwise fun i j => destination + i ≠ source + j := by
  rw [wordsFrom_pairwise]
  constructor
  · intro safe i j _
    exact safe i j
  · intro safe i j
    exact safe i j (BitVec.le_def.mpr (Nat.zero_le _))

/-- The forward copy overwrites bytes it has yet to read exactly where the
destination begins inside the source, above its first byte. -/
theorem forwardSafe_iff (target : NoWrap destination length) (origin : NoWrap source length) :
    ForwardSafe destination source length ↔
      ¬(source ≠ destination ∧ InRange source length destination) := by
  constructor
  · rintro safe ⟨other, inside⟩
    obtain ⟨within, found⟩ := inside.offset
    apply safe 0 (destination - source) _ within
    · rw [found, BitVec.ofNat_eq_ofNat, BitVec.add_zero]
    · have apart : destination - source ≠ 0 := by
        intro zero
        rw [zero, BitVec.ofNat_eq_ofNat, BitVec.add_zero] at found
        exact other found
      exact Nat.pos_of_ne_zero (BitVec.toNat_ne.mp apart)
  · intro apart i j less within same
    have same := congrArg BitVec.toNat same
    rw [target.toNat_add (BitVec.lt_trans less within), origin.toNat_add within] at same
    rw [BitVec.lt_def] at less within
    refine apart ⟨?_, by omega, by omega⟩
    rintro rfl
    omega

theorem forwardSafe_of_not_lt (target : NoWrap destination length) (origin : NoWrap source length)
    (notAbove : ¬source < destination) : ForwardSafe destination source length := by
  rw [forwardSafe_iff target origin]
  rintro ⟨other, least, -⟩
  exact notAbove (BitVec.lt_of_le_ne (BitVec.le_def.mpr least) other)

/-- A copy in decreasing order is safe where the forward copy the other way is. -/
theorem backwardSafe_pairwise : ForwardSafe source destination length ↔
    (wordsFrom length 0).reverse.Pairwise fun i j => destination + i ≠ source + j := by
  rw [List.pairwise_reverse, forwardSafe_pairwise]
  simp only [ne_comm]

theorem memcpy_readsFirst (h : Makes (memcpy destination source length) t returned) :
    ReadsFirst t ↔ ForwardSafe destination source length :=
  (readsFirst_copies (memcpy_makes.mp h).1).trans forwardSafe_pairwise.symm

theorem memcpy_final (memory : Memory) : ((memcpy destination source length).onMemory memory).2.2 =
    (((wordsFrom length 0).forM (copyOne (destination + ·) (source + ·))).onMemory memory).2.2 := by
  rw [memcpy, countUp_eq, onMemory_bind, copyByte_eq]
  rfl

theorem memcpy_moved (safe : ForwardSafe destination source length)
    (target : NoWrap destination length) (memory : Memory) :
    Moved destination source length memory
      ((memcpy destination source length).onMemory memory).2.2 :=
  copies_moved (memcpy_makes.mp (onMemory_makes _ memory)).1 (fun _ => mem_wordsFrom_zero)
    (forwardSafe_pairwise.mp safe) target

/-- What both paths of `memmove` do. -/
theorem memmove_onMemory (target : NoWrap destination length) (origin : NoWrap source length)
    (memory : Memory) : ∃ trace after,
      (memmove destination source length).onMemory memory = (trace, destination, after) ∧
        ReadsFirst trace ∧ Moved destination source length memory after := by
  have made := onMemory_makes (memmove destination source length) memory
  by_cases below : destination < source
  · have safe : ForwardSafe destination source length :=
      forwardSafe_of_not_lt target origin fun above =>
        BitVec.lt_irrefl _ (BitVec.lt_trans below above)
    rw [memmove, if_pos below] at made ⊢
    exact ⟨_, _, Prod.ext rfl (Prod.ext (memcpy_makes.mp made).2 rfl),
      (memcpy_readsFirst made).mpr safe, memcpy_moved safe target memory⟩
  · obtain ⟨copies, returned⟩ := (memmove_makes below).mp made
    have apart := backwardSafe_pairwise.mp (forwardSafe_of_not_lt origin target below)
    refine ⟨_, _, Prod.ext rfl (Prod.ext returned rfl), (readsFirst_copies copies).mpr apart, ?_⟩
    apply copies_moved copies _ apart target
    intro i
    rw [List.mem_reverse, mem_wordsFrom_zero]

end Copies

/-- After `memmove` the destination range holds the bytes the source range held
before and every other byte is what it was, however the ranges lie. No byte is
read after it was written, and the program is that of `memcpy` only where a
forward copy is safe. -/
theorem memmove_moves (memory : Memory) (destination source length : BitVec 32)
    (target : NoWrap destination length) (origin : NoWrap source length) :
    (∃ trace after, (memmove destination source length).onMemory memory =
        (trace, destination, after) ∧
      ReadsFirst trace ∧ Moved destination source length memory after) ∧
    (destination < source → memmove destination source length = memcpy destination source length) ∧
    (memmove destination source length = memcpy destination source length →
      ForwardSafe destination source length) := by
  have moved := memmove_onMemory target origin memory
  refine ⟨moved, ?_, ?_⟩
  · intro below
    rw [memmove, if_pos below]
  · intro same
    obtain ⟨trace, after, ran, first, -⟩ := moved
    have made := onMemory_makes (memmove destination source length) memory
    rw [ran, same] at made
    exact (memcpy_readsFirst made).mp first

/-- Four bytes moved up by two, over themselves. -/
theorem memmove_moves_overlap : ∃ trace after,
    (memmove 0x20200002 0x20200000 4).onMemory (fun a => a.setWidth 8) =
      (trace, 0x20200002, after) ∧
    after 0x20200005 = 3 ∧ after 0x20200001 = 1 ∧ after 0x20200006 = 6 := by
  obtain ⟨⟨trace, after, ran, -, moved⟩, -, -⟩ :=
    memmove_moves (fun a => a.setWidth 8) 0x20200002 0x20200000 4 (by decide) (by decide)
  refine ⟨trace, after, ran, moved.copied 3 (by decide), ?_, ?_⟩
  · rw [moved.kept 0x20200001 (by decide)]
    rfl
  · rw [moved.kept 0x20200006 (by decide)]
    rfl

/-- `memcpy` moves the bytes of every memory exactly where the destination does
not start inside the source, after its first byte. -/
theorem memcpy_moves_iff {destination source length : BitVec 32}
    (target : NoWrap destination length) (origin : NoWrap source length) :
    (∀ memory, Moved destination source length memory
      ((memcpy destination source length).onMemory memory).2.2) ↔
      ¬(source ≠ destination ∧ InRange source length destination) := by
  constructor
  · rintro moves ⟨other, inside⟩
    obtain ⟨within, found⟩ := inside.offset
    -- one byte is set, at the destination; the first copy clears it
    have moved := (moves fun a => if a = destination then 1 else 0).copied _ within
    have some : (0 : BitVec 32) < length :=
      Nat.lt_of_le_of_lt (Nat.zero_le _) (BitVec.lt_def.mp within)
    have cleared : Function.update (fun a => if a = destination then (1 : BitVec 8) else 0)
        (destination + 0) (if source + 0 = destination then 1 else 0) = fun _ => 0 := by
      funext a
      simp [Function.update_apply, other]
    rw [memcpy_final, wordsFrom_of_lt some, copies_cons, cleared, copies_const, if_pos found] at moved
    change (0 : BitVec 8) = 1 at moved
    cases moved
  · intro apart memory
    exact memcpy_moved ((forwardSafe_iff target origin).mpr apart) target memory

/-- One byte up is not safe for two bytes. -/
theorem memcpy_moves_iff_shifted :
    ¬∀ memory, Moved 0x20000001 0x20000000 2 memory
      ((memcpy 0x20000001 0x20000000 2).onMemory memory).2.2 :=
  (memcpy_moves_iff (by decide) (by decide)).not.mpr fun apart =>
    apart ⟨by decide, by decide⟩

theorem memset_fills (memory : Memory) (destination : BitVec 32) (value : Int) (length : BitVec 32)
    (target : NoWrap destination length) : ∃ trace,
    (memset destination value length).onMemory memory =
      (trace, destination,
        fun a => if InRange destination length a then BitVec.ofInt 8 value else memory a) := by
  have made := onMemory_makes (memset destination value length) memory
  rw [memset, countUp_eq] at made ⊢
  obtain ⟨stores, returned⟩ := makes_returning.mp made
  have stores := (makes_forM_store ..).mp stores
  refine ⟨_, Prod.ext rfl (Prod.ext returned ?_)⟩
  funext a
  change _ = if InRange destination length a then BitVec.ofInt 8 value else memory a
  by_cases inside : InRange destination length a
  · rw [if_pos inside]
    obtain ⟨i, within, rfl⟩ := target.inRange_iff.mp inside
    apply onMemory_final
    · intro w mem
      rw [stores, List.mem_map] at mem
      obtain ⟨j, -, same⟩ := mem
      exact (Access.write.inj same).2.symm
    · right
      rw [stores, List.mem_map]
      exact ⟨i, mem_wordsFrom_zero.mpr within, rfl⟩
  · rw [if_neg inside]
    apply onMemory_frame
    intro w mem
    rw [stores, List.mem_map] at mem
    obtain ⟨i, mem, same⟩ := mem
    exact inside (target.inRange_iff.mpr
      ⟨i, mem_wordsFrom_zero.mp mem, (Access.write.inj same).1⟩)

/-! ## `memcmp` -/

def bytesFrom (memory : Memory) (start length index : BitVec 32) : List (BitVec 8) :=
  (wordsFrom length index).map fun i => memory (start + i)

/-- The sign of the lexicographic order of two strings of bytes. -/
def orderSign (left right : List (BitVec 8)) : Int :=
  if left = right then 0 else if left < right then -1 else 1

theorem bytesFrom_of_lt {memory : Memory} {start length index : BitVec 32} (below : index < length) :
    bytesFrom memory start length index =
      memory (start + index) :: bytesFrom memory start length (index + 1) := by
  rw [bytesFrom, wordsFrom_of_lt below]
  rfl

theorem orderSign_cons (byte : BitVec 8) (left right : List (BitVec 8)) :
    orderSign (byte :: left) (byte :: right) = orderSign left right := by
  simp [orderSign]

theorem orderSign_of_ne {leftByte rightByte : BitVec 8} (other : leftByte ≠ rightByte)
    (left right : List (BitVec 8)) : orderSign (leftByte :: left) (rightByte :: right) =
      if leftByte < rightByte then -1 else 1 := by
  simp [orderSign, List.cons_lt_cons_iff, other]

theorem memcmpFrom_onMemory (memory : Memory) (left right length index : BitVec 32) :
    ∃ trace, (memcmpFrom left right length index).onMemory memory = (trace,
      orderSign (bytesFrom memory left length index) (bytesFrom memory right length index),
      memory) := by
  induction index using countUp.induct length with
  | case1 index below ih =>
    rw [memcmpFrom, dif_pos below, bytesFrom_of_lt below, bytesFrom_of_lt below]
    simp only [onMemory_load_bind]
    by_cases same : memory (left + index) = memory (right + index)
    · obtain ⟨trace, ran⟩ := ih
      rw [if_neg (not_not.mpr same), ran, same, orderSign_cons]
      exact ⟨_, rfl⟩
    · rw [if_pos same, orderSign_of_ne same]
      exact ⟨_, rfl⟩
  | case2 index done =>
    rw [memcmpFrom, dif_neg done, bytesFrom, bytesFrom, wordsFrom_of_not_lt done]
    exact ⟨[], rfl⟩

theorem memcmp_orders (memory : Memory) (left right length : BitVec 32) :
    ∃ trace, (memcmp left right length).onMemory memory = (trace,
      orderSign (bytesFrom memory left length 0) (bytesFrom memory right length 0), memory) :=
  memcmpFrom_onMemory memory left right length 0

end MspmBaremetal.ArchMemory
