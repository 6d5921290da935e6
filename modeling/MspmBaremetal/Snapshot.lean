import Mathlib.Data.Nat.Bitwise
import Mathlib.Logic.Function.Basic

/-!
# Read snapshots of `lib_regmap`

A snapshot's two buffers and its state word, and what acquiring, releasing and
publishing do to them when nothing interrupts. The state word packs the active
buffer's index and both reader counts: `pack_acquire`, `pack_release` and
`pack_toggle` say that its three fields change independently.
-/

namespace MspmBaremetal

/-- A byte buffer in memory; `present` is false for a null pointer. -/
structure Buffer where
  present : Bool
  bytes : Nat → BitVec 8

structure Snapshot where
  buffers : Bool → Buffer
  length : BitVec 16
  state : BitVec 32
  publishRejectedCount : BitVec 32

namespace Snapshot

/-! ## The state word -/

/-- `state & LIB_REGMAP_SNAPSHOT_ACTIVE_MASK`, as a buffer index. -/
def activeIndex (state : BitVec 32) : Bool := state &&& 0x00000001 != 0

def readerShift (bufferIndex : Bool) : Nat := if bufferIndex = false then 1 else 16

def readerMask : BitVec 32 := 0x00007fff

def readerCount (state : BitVec 32) (bufferIndex : Bool) : BitVec 32 :=
  (state >>> readerShift bufferIndex) &&& readerMask

/-- One reader of a buffer, as `acquire` adds it and `release` subtracts it. -/
def readerUnit (bufferIndex : Bool) : BitVec 32 := 1 <<< readerShift bufferIndex

/-- The word with the given top bit, active buffer and reader counts. -/
def pack (top active : Bool) (readers : Bool → Nat) : BitVec 32 :=
  BitVec.ofNat 32 (active.toNat + 2 * readers false + 65536 * readers true + 0x80000000 * top.toNat)

/-- Both counts fit their fields. -/
def Fit (readers : Bool → Nat) : Prop := ∀ b, readers b ≤ 32767

variable {top active b : Bool} {readers : Bool → Nat}

theorem pack_toNat (fit : Fit readers) : (pack top active readers).toNat =
    active.toNat + 2 * readers false + 65536 * readers true + 0x80000000 * top.toNat := by
  have zero := fit false
  have one := fit true
  have bit := Bool.toNat_le active
  have bit31 := Bool.toNat_le top
  rw [pack, BitVec.toNat_ofNat, Nat.mod_eq_of_lt (by omega)]

theorem pack_activeIndex (fit : Fit readers) : activeIndex (pack top active readers) = active := by
  have value : (pack top active readers &&& 0x00000001).toNat = active.toNat := by
    rw [BitVec.toNat_and, pack_toNat fit, show (0x00000001 : BitVec 32).toNat = 2 ^ 1 - 1 from rfl,
      Nat.and_two_pow_sub_one_eq_mod]
    have bit := Bool.toNat_le active
    omega
  cases active with
  | false =>
    have zero : pack top false readers &&& 0x00000001 = 0#32 := BitVec.eq_of_toNat_eq value
    rw [activeIndex, zero]
    rfl
  | true =>
    have one : pack top true readers &&& 0x00000001 = 1#32 := BitVec.eq_of_toNat_eq value
    rw [activeIndex, one]
    rfl

theorem readerCount_toNat (state : BitVec 32) (b : Bool) :
    (readerCount state b).toNat = state.toNat / 2 ^ readerShift b % 32768 := by
  rw [readerCount, BitVec.toNat_and, BitVec.toNat_ushiftRight,
    show readerMask.toNat = 2 ^ 15 - 1 from rfl, Nat.and_two_pow_sub_one_eq_mod,
    Nat.shiftRight_eq_div_pow]

theorem pack_readerCount (top active b : Bool) (fit : Fit readers) :
    (readerCount (pack top active readers) b).toNat = readers b := by
  have zero := fit false
  have one := fit true
  have bit := Bool.toNat_le active
  rw [readerCount_toNat, pack_toNat fit]
  cases b with
  | false => rw [show readerShift false = 1 from rfl]; omega
  | true => rw [show readerShift true = 16 from rfl]; omega

theorem pack_top (fit : Fit readers) : (pack top active readers).getLsbD 31 = top := by
  have zero := fit false
  have one := fit true
  have bit := Bool.toNat_le active
  rw [BitVec.getLsbD, pack_toNat fit, Nat.testBit_eq_decide_div_mod_eq]
  cases top with
  | false => simp only [Bool.toNat_false, decide_eq_false_iff_not]; omega
  | true => simp only [Bool.toNat_true, decide_eq_true_eq]; omega

theorem readerCount_fit (state : BitVec 32) : Fit fun b => (readerCount state b).toNat := by
  intro b
  simp only [readerCount_toNat]
  omega

/-- Every word is packed from its fields. -/
theorem pack_fields (state : BitVec 32) :
    ∃ top active readers, Fit readers ∧ state = pack top active readers := by
  have bound := state.isLt
  have bit : ∀ n, n < 2 → (n == 1).toNat = n := by decide
  refine ⟨state.toNat / 0x80000000 == 1, state.toNat % 2 == 1,
    fun b => (readerCount state b).toNat, readerCount_fit state, ?_⟩
  apply BitVec.eq_of_toNat_eq
  rw [pack_toNat (readerCount_fit state), bit _ (by omega), bit _ (by omega), readerCount_toNat,
    readerCount_toNat, show readerShift false = 1 from rfl, show readerShift true = 16 from rfl]
  omega

theorem pack_acquire : pack top active readers + readerUnit b =
    pack top active (Function.update readers b (readers b + 1)) := by
  cases b with
  | false =>
    rw [show readerUnit false = BitVec.ofNat 32 2 from rfl, pack, pack, ← BitVec.ofNat_add,
      Function.update_self, Function.update_of_ne (by decide)]
    exact congrArg _ (by omega)
  | true =>
    rw [show readerUnit true = BitVec.ofNat 32 65536 from rfl, pack, pack, ← BitVec.ofNat_add,
      Function.update_self, Function.update_of_ne (by decide)]
    exact congrArg _ (by omega)

theorem pack_release (some : 0 < readers b) : pack top active readers - readerUnit b =
    pack top active (Function.update readers b (readers b - 1)) := by
  rw [BitVec.sub_eq_iff_eq_add, pack_acquire]
  congr 1
  ext c
  by_cases hc : c = b
  · subst hc
    simp
    omega
  · simp [hc]

theorem pack_toggle (fit : Fit readers) :
    pack top active readers ^^^ 0x00000001 = pack top (!active) readers := by
  apply BitVec.eq_of_toNat_eq
  rw [BitVec.toNat_xor, pack_toNat fit, pack_toNat fit, show (0x00000001 : BitVec 32).toNat = 1 from rfl]
  cases active with
  | false =>
    rw [Nat.xor_one_of_even (Nat.even_iff.mpr (by simp only [Bool.toNat_false]; omega))]
    simp only [Bool.toNat_false, Bool.not_false, Bool.toNat_true]
    omega
  | true =>
    rw [Nat.xor_one_of_odd (Nat.odd_iff.mpr (by simp only [Bool.toNat_true]; omega))]
    simp only [Bool.toNat_true, Bool.not_true, Bool.toNat_false]
    omega

/-! ## The buffers -/

/-- The bytes of a buffer after the first `count` bytes of `data` are copied in. -/
def copy (bytes data : Nat → BitVec 8) : Nat → Nat → BitVec 8
  | 0 => bytes
  | count + 1 => Function.update (copy bytes data count) count (data count)

theorem copy_apply (bytes data : Nat → BitVec 8) (count i : Nat) :
    copy bytes data count i = if i < count then data i else bytes i := by
  induction count with
  | zero => simp [copy]
  | succ count ih =>
    by_cases last : i = count
    · subst last
      simp [copy]
    · simp only [copy, Function.update_of_ne last, ih]
      split <;> split <;> first | rfl | omega

/-- `lib_regmap_snapshot_init`; `none` is a null pointer argument or the result
`false`. -/
def init (given : Option Snapshot) (bufferZero bufferOne : Option (Nat → BitVec 8))
    (length : BitVec 16) (initialData : Option (Nat → BitVec 8)) : Option Snapshot :=
  match given, bufferZero, bufferOne with
  | some _, some bufferZero, some bufferOne =>
    if length = 0 then none
    else
      let data := initialData.getD fun _ => 0
      some { buffers := fun b => ⟨true, copy (if b then bufferOne else bufferZero) data length.toNat⟩,
             length, state := 0, publishRejectedCount := 0 }
  | _, _, _ => none

/-- `lib_regmap_snapshot_is_valid`. -/
def isValid (snapshot : Option Snapshot) : Bool :=
  match snapshot with
  | none => false
  | some snapshot =>
    (snapshot.buffers false).present && (snapshot.buffers true).present && snapshot.length != 0 &&
      snapshot.state &&& 0x00000001 ≤ 1

/-- `snapshot->buffers[bufferIndex][index] = value`. -/
def setByte (snapshot : Snapshot) (bufferIndex : Bool) (index : Nat) (value : BitVec 8) : Snapshot :=
  { snapshot with
    buffers := Function.update snapshot.buffers bufferIndex
      { snapshot.buffers bufferIndex with
        bytes := Function.update (snapshot.buffers bufferIndex).bytes index value } }

/-- `lib_regmap_snapshot_note_publish_rejected`. -/
def notePublishRejected (snapshot : Snapshot) : Snapshot :=
  { snapshot with publishRejectedCount := snapshot.publishRejectedCount + 1 }

/-! ## The calls without interruption -/

/-- `lib_regmap_snapshot_acquire`; `none` is the result `false`. -/
def acquire (snapshot : Snapshot) : Option (Snapshot × Bool) :=
  let activeIndex := activeIndex snapshot.state
  if readerCount snapshot.state activeIndex = readerMask then none
  else some ({ snapshot with state := snapshot.state + readerUnit activeIndex }, activeIndex)

/-- `lib_regmap_snapshot_release`. -/
def release (snapshot : Snapshot) (bufferIndex : Bool) : Snapshot :=
  { snapshot with state := snapshot.state - readerUnit bufferIndex }

/-- What a call of `lib_regmap_snapshot_publish` did; only `published` returns
`true`. -/
inductive Publication where
  | invalid
  | rejected
  | published (data : Nat → BitVec 8) (bufferIndex : Bool)

/-- The check of the arguments of `lib_regmap_snapshot_publish`. -/
def acceptsPublish (snapshot : Snapshot) (data : Option (Nat → BitVec 8)) (length : BitVec 16) :
    Option (Nat → BitVec 8) :=
  if isValid (some snapshot) && length == snapshot.length then data else none

/-- The copy of `lib_regmap_snapshot_publish` and its flip of the active bit. -/
def install (snapshot : Snapshot) (inactiveIndex : Bool) (data : Nat → BitVec 8)
    (length : BitVec 16) : Snapshot :=
  { snapshot with
    buffers := Function.update snapshot.buffers inactiveIndex
      { snapshot.buffers inactiveIndex with
        bytes := copy (snapshot.buffers inactiveIndex).bytes data length.toNat }
    state := snapshot.state ^^^ 0x00000001 }

/-- `lib_regmap_snapshot_publish`. -/
def publish (snapshot : Snapshot) (data : Option (Nat → BitVec 8)) (length : BitVec 16) :
    Snapshot × Publication :=
  match acceptsPublish snapshot data length with
  | none => (snapshot, .invalid)
  | some data =>
    let inactiveIndex := !activeIndex snapshot.state
    if readerCount snapshot.state inactiveIndex ≠ 0 then
      (snapshot.notePublishRejected, .rejected)
    else (snapshot.install inactiveIndex data length, .published data inactiveIndex)

theorem acceptsPublish_length {snapshot : Snapshot} {data : Option (Nat → BitVec 8)}
    {length : BitVec 16} {image : Nat → BitVec 8}
    (h : acceptsPublish snapshot data length = some image) :
    length = snapshot.length ∧ data = some image := by
  simp only [acceptsPublish, Option.ite_none_right_eq_some, Bool.and_eq_true, beq_iff_eq] at h
  exact ⟨h.1.2, h.2⟩

end Snapshot

end MspmBaremetal
