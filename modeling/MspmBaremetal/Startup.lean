import MspmBaremetal.ArchMemory
import MspmBaremetal.CrashHistory
import MspmBaremetal.Linker

/-!
# `Reset_Handler`

What `startup.c` does to memory between a reset and `main`: it notes the boot in
the retained crash record, copies `.data` from flash and clears `.bss`. It runs
on the reserved stack, where it may leave any bytes.
-/

namespace MspmBaremetal.Startup

open RegisterProgram ArchMemory
open Crash (Call Record decode decode_eq decoded isValid noteBoot)

/-! ## The record in memory -/

def wordAt (m : Memory) (a : BitVec 32) : BitVec 32 := m (a + 3) ++ m (a + 2) ++ m (a + 1) ++ m a

def halfAt (m : Memory) (a : BitVec 32) : BitVec 16 := m (a + 1) ++ m a

/-- The record at an address; the core is little-endian. -/
def recordAt (m : Memory) (base : BitVec 32) : Record where
  magic := wordAt m base
  formatVersion := halfAt m (base + 4)
  recordSize := halfAt m (base + 6)
  sequence := wordAt m (base + 8)
  resetCause := wordAt m (base + 12)
  reason := wordAt m (base + 16)
  stackedPc := wordAt m (base + 20)
  stackedXpsr := wordAt m (base + 24)
  integrityCrc32 := wordAt m (base + 28)

def putRecord (base : BitVec 32) (r : Record) (m : Memory) : Memory :=
  fun a => r.toBytes[(a - base).toNat]?.getD (m a)

/-- A call of `lib_crash` on the record at an address. -/
def call (c : Call) (base : BitVec 32) (m : Memory) : Memory :=
  putRecord base (c.apply (recordAt m base)) m

/-- The memory after C code that left `left` on the reserved stack. -/
def onStack (left m : Memory) : Memory :=
  fun a => if Linker.stackLimit ≤ a.toNat ∧ a.toNat < Linker.stackTop then left a else m a

theorem onStack_outside {left m : Memory} {a : BitVec 32}
    (outside : ¬(0x20001c00 ≤ a.toNat ∧ a.toNat < 0x20002000)) : onStack left m a = m a :=
  if_neg outside

theorem word_bytes (v : BitVec 32) :
    (v >>> 24).setWidth 8 ++ (v >>> 16).setWidth 8 ++ (v >>> 8).setWidth 8 ++
      (v >>> 0).setWidth 8 = v := by
  apply BitVec.eq_of_getLsbD_eq
  intro i hi
  simp only [BitVec.getLsbD_append, BitVec.getLsbD_setWidth, BitVec.getLsbD_ushiftRight]
  grind

theorem half_bytes (v : BitVec 16) :
    (v >>> 8).setWidth 8 ++ (v >>> 0).setWidth 8 = v := by
  apply BitVec.eq_of_getLsbD_eq
  intro i hi
  simp only [BitVec.getLsbD_append, BitVec.getLsbD_setWidth, BitVec.getLsbD_ushiftRight]
  grind

theorem putRecord_inside (base : BitVec 32) (r : Record) (m : Memory) (k : BitVec 32) :
    putRecord base r m (base + k) = r.toBytes[k.toNat]?.getD (m (base + k)) := by
  rw [putRecord, BitVec.add_comm, BitVec.add_sub_cancel]

theorem recordAt_putRecord (base : BitVec 32) (r : Record) (m : Memory) :
    recordAt (putRecord base r m) base = r := by
  have here := putRecord_inside base r m
  have first : putRecord base r m base = r.toBytes[0]?.getD (m base) := by
    simpa using here 0
  obtain ⟨magic, formatVersion, recordSize, sequence, resetCause, reason, pc, xpsr, crc⟩ := r
  simp only [recordAt, wordAt, halfAt, BitVec.add_assoc, here, first]
  congr 1
  · exact word_bytes magic
  · exact half_bytes formatVersion
  · exact half_bytes recordSize
  · exact word_bytes sequence
  · exact word_bytes resetCause
  · exact word_bytes reason
  · exact word_bytes pc
  · exact word_bytes xpsr
  · exact word_bytes crc

theorem recordAt_congr {m m' : Memory} {base : BitVec 32}
    (same : ∀ k : BitVec 32, k < 32 → m (base + k) = m' (base + k)) :
    recordAt m base = recordAt m' base := by
  have first : m base = m' base := by simpa using same 0 (by decide)
  simp [recordAt, wordAt, halfAt, BitVec.add_assoc, same, first]

theorem putRecord_outside {base a : BitVec 32} {r : Record} {m : Memory} (far : 32 ≤ a - base) :
    putRecord base r m a = m a := by
  have far : 32 ≤ (a - base).toNat := far
  rw [putRecord, List.getElem?_eq_none far]
  rfl

theorem decode_pair {r : Record} (valid : isValid r = true) : decode r = (true, (decode r).2) := by
  rw [decode_eq valid]

/-! ## The two loops -/

/-- `while (destination < limit) { *destination = *source; ++destination; ++source; }`. -/
def copyWhile (source destination limit : BitVec 32) : Program PUnit :=
  if below : destination < limit then do
    let byte ← load source
    store destination byte
    copyWhile (source + 1) (destination + 1) limit
  else pure ⟨⟩
termination_by limit.toNat - destination.toNat
decreasing_by
  rw [toNat_succ below]
  have := BitVec.lt_def.mp below
  omega

/-- `while (destination < limit) { *destination = 0U; ++destination; }`. -/
def zeroWhile (destination limit : BitVec 32) : Program PUnit :=
  if below : destination < limit then do
    store destination 0
    zeroWhile (destination + 1) limit
  else pure ⟨⟩
termination_by limit.toNat - destination.toNat
decreasing_by
  rw [toNat_succ below]
  have := BitVec.lt_def.mp below
  omega

theorem copyWhile_eq (offset destination limit : BitVec 32) :
    copyWhile (offset + destination) destination limit =
      (wordsFrom limit destination).forM (copyOne id (offset + ·)) := by
  rw [← countUp_eq]
  induction destination using countUp.induct limit with
  | case1 destination below ih =>
    rw [copyWhile, countUp, dif_pos below, dif_pos below, BitVec.add_assoc, ih]
    rfl
  | case2 destination done => rw [copyWhile, countUp, dif_neg done, dif_neg done]

theorem zeroWhile_eq (destination limit : BitVec 32) :
    zeroWhile destination limit = (wordsFrom limit destination).forM fun a => store (id a) 0 := by
  rw [← countUp_eq]
  induction destination using countUp.induct limit with
  | case1 destination below ih =>
    rw [zeroWhile, countUp, dif_pos below, dif_pos below, ih]
    rfl
  | case2 destination done => rw [zeroWhile, countUp, dif_neg done, dif_neg done]

theorem copyWhile_final {source destination limit : BitVec 32} (m : Memory)
    (apart : ∀ i j, destination ≤ i → i < limit → destination ≤ j → j < limit →
      i ≠ source - destination + j) :
    (∀ a, destination ≤ a → a < limit →
      ((copyWhile source destination limit).onMemory m).2.2 a = m (source - destination + a)) ∧
    ∀ a, ¬(destination ≤ a ∧ a < limit) →
      ((copyWhile source destination limit).onMemory m).2.2 a = m a := by
  have eq := copyWhile_eq (source - destination) destination limit
  rw [BitVec.sub_add_cancel] at eq
  have makes := onMemory_makes (copyWhile source destination limit) m
  rw [eq] at makes ⊢
  have later : (wordsFrom limit destination).Pairwise fun i j => id i ≠ source - destination + j :=
    wordsFrom_pairwise.mpr fun i j least less within =>
      apart i j least (BitVec.lt_trans less within) (Nat.le_trans least (Nat.le_of_lt less)) within
  obtain ⟨copied, kept⟩ := copies_final makes later fun _ _ _ _ same => same
  constructor
  · intro a least within
    exact copied a (mem_wordsFrom.mpr ⟨least, within⟩)
  · intro a outside
    apply kept a
    rintro i mem rfl
    exact outside (mem_wordsFrom.mp mem)

theorem zeroWhile_final {destination limit : BitVec 32} (m : Memory) :
    (∀ a, destination ≤ a → a < limit →
      ((zeroWhile destination limit).onMemory m).2.2 a = 0) ∧
    ∀ a, ¬(destination ≤ a ∧ a < limit) →
      ((zeroWhile destination limit).onMemory m).2.2 a = m a := by
  have trace := onMemory_makes (zeroWhile destination limit) m
  rw [zeroWhile_eq, makes_forM_store] at trace
  rw [zeroWhile_eq]
  constructor
  · intro a least within
    apply onMemory_final
    · intro w mem
      rw [trace, List.mem_map] at mem
      obtain ⟨i, -, same⟩ := mem
      cases same
      rfl
    · right
      rw [trace]
      exact List.mem_map.mpr ⟨a, mem_wordsFrom.mpr ⟨least, within⟩, rfl⟩
  · intro a outside
    apply onMemory_frame
    intro w mem
    rw [trace, List.mem_map] at mem
    obtain ⟨i, mem, same⟩ := mem
    cases same
    exact outside (mem_wordsFrom.mp mem)

/-! ## From reset to `main` -/

/-- `SYSCTL_RSTCAUSE_ID_MASK`. -/
def rstcauseIdMask : BitVec 32 := 0x0000001f

def address (n : Nat) : BitVec 32 := BitVec.ofNat 32 n

/-- `.data` copied from its load image. -/
def loadData (l : Linker.Layout) (m : Memory) : Memory :=
  ((copyWhile (address l.dataLoad.start) (address l.data.start) (address l.data.stop)).onMemory m).2.2

/-- `.bss` cleared. -/
def clearBss (l : Linker.Layout) (m : Memory) : Memory :=
  ((zeroWhile (address l.bss.start) (address l.bss.stop)).onMemory m).2.2

/-- `Reset_Handler` up to its call of `main`; `rstcause` is what RSTCAUSE reads. -/
def resetHandler (l : Linker.Layout) (rstcause : BitVec 32) (left m : Memory) : Memory :=
  let resetCause := rstcause &&& rstcauseIdMask
  onStack left (clearBss l (loadData l (call (.noteBoot resetCause) (address l.crashRecord) m)))

theorem address_toNat {n : Nat} (fits : n < 2 ^ 32) : (address n).toNat = n :=
  (BitVec.toNat_ofNat ..).trans (Nat.mod_eq_of_lt fits)

theorem within_iff {start stop : Nat} (first : start < 2 ^ 32) (last : stop < 2 ^ 32)
    (a : BitVec 32) :
    (address start ≤ a ∧ a < address stop) ↔ (start ≤ a.toNat ∧ a.toNat < stop) := by
  rw [BitVec.le_def, BitVec.lt_def, address_toNat first, address_toNat last]

/-- What start-up relies on of the addresses in a linked image. -/
structure Placed (l : Linker.Layout) : Prop where
  load : l.dataLoad.stop ≤ 0xffc0
  first : 0x20000000 ≤ l.data.start
  data : l.data.start < l.data.stop
  image : l.dataLoad.start + l.data.stop = l.dataLoad.stop + l.data.start
  cleared : l.data.stop ≤ l.bss.start ∧ l.bss.start ≤ l.bss.stop
  retained : l.bss.stop ≤ l.crashRecord
  last : l.crashRecord + 32 ≤ 0x20001c00

theorem placed {i : Linker.Inputs} {l : Linker.Layout} (linked : Linker.link i = some l) :
    Placed l := by
  have apart := Linker.link_separated linked
  obtain ⟨-, -, -, load⟩ := apart.flash
  obtain ⟨first, cleared, retained, below⟩ := apart.sram
  obtain ⟨-, -, -, copied, zeroed, -⟩ := apart.holds
  obtain ⟨record, recordEnd⟩ := apart.record
  rw [apart.identity_last] at load
  rw [apart.stack_last] at below
  simp only at load below
  exact ⟨load, first, by omega, apart.load_image, by omega, by omega, by omega⟩

section Steps

variable {l : Linker.Layout} (h : Placed l) (m : Memory)
include h

theorem call_kept (c : Call) {a : BitVec 32}
    (outside : ¬(l.crashRecord ≤ a.toNat ∧ a.toNat < l.crashRecord + 32)) :
    call c (address l.crashRecord) m a = m a := by
  have := h.last
  have here := address_toNat (n := l.crashRecord) (by omega)
  apply putRecord_outside
  bv_omega

theorem loadData_final :
    (∀ k, l.data.start + k < l.data.stop →
      loadData l m (address (l.data.start + k)) = m (address (l.dataLoad.start + k))) ∧
    ∀ a, ¬(l.data.start ≤ a.toNat ∧ a.toNat < l.data.stop) → loadData l m a = m a := by
  have ⟨load, first, data, image, cleared, retained, last⟩ := h
  have dataStart := address_toNat (n := l.data.start) (by omega)
  have dataStop := address_toNat (n := l.data.stop) (by omega)
  have loadStart := address_toNat (n := l.dataLoad.start) (by omega)
  have within := @within_iff l.data.start l.data.stop (by omega) (by omega)
  -- the load image lies in flash, below every destination
  obtain ⟨loaded, kept⟩ := @copyWhile_final (address l.dataLoad.start) (address l.data.start)
    (address l.data.stop) m fun i j iLeast iWithin jLeast jWithin => by bv_omega
  constructor
  · intro k inside
    have here := address_toNat (n := l.data.start + k) (by omega)
    have there := address_toNat (n := l.dataLoad.start + k) (by omega)
    have source : address l.dataLoad.start - address l.data.start + address (l.data.start + k) =
        address (l.dataLoad.start + k) := by bv_omega
    obtain ⟨least, below⟩ := (within (address (l.data.start + k))).mpr (by omega)
    rw [loadData, loaded _ least below, source]
  · intro a outside
    exact kept a (mt (within a).mp outside)

theorem clearBss_final :
    (∀ a, l.bss.start ≤ a.toNat → a.toNat < l.bss.stop → clearBss l m a = 0) ∧
    ∀ a, ¬(l.bss.start ≤ a.toNat ∧ a.toNat < l.bss.stop) → clearBss l m a = m a := by
  have ⟨load, first, data, image, cleared, retained, last⟩ := h
  have within := @within_iff l.bss.start l.bss.stop (by omega) (by omega)
  obtain ⟨zero, kept⟩ := @zeroWhile_final (address l.bss.start) (address l.bss.stop) m
  constructor
  · intro a least below
    obtain ⟨least, below⟩ := (within a).mpr ⟨least, below⟩
    exact zero a least below
  · intro a outside
    exact kept a (mt (within a).mp outside)

/-- Only the note of the boot touches the record. -/
theorem resetHandler_record (rstcause : BitVec 32) (left : Memory) :
    recordAt (resetHandler l rstcause left m) (address l.crashRecord) =
      (Call.noteBoot (rstcause &&& 0x1f)).apply (recordAt m (address l.crashRecord)) := by
  have noted : recordAt (call (.noteBoot (rstcause &&& 0x1f)) (address l.crashRecord) m)
      (address l.crashRecord) = _ := recordAt_putRecord ..
  rw [← noted]
  apply recordAt_congr
  intro k small
  have ⟨load, first, data, image, cleared, retained, last⟩ := h
  have base := address_toNat (n := l.crashRecord) (by omega)
  have here : (address l.crashRecord + k).toNat = l.crashRecord + k.toNat := by bv_omega
  have small : k.toNat < 32 := small
  rw [resetHandler, onStack_outside (by omega), (clearBss_final h _).2 _ (by omega),
    (loadData_final h _).2 _ (by omega)]
  rfl

end Steps

/-- What the C code of `main` may rely on. -/
structure Started (l : Linker.Layout) (rstcause : BitVec 32) (m m' : Memory) : Prop where
  record : recordAt m' (address l.crashRecord) =
    (Call.noteBoot (rstcause &&& 0x1f)).apply (recordAt m (address l.crashRecord))
  data : ∀ k, l.data.start + k < l.data.stop →
    m' (address (l.data.start + k)) = m (address (l.dataLoad.start + k))
  bss : ∀ a, l.bss.start ≤ a.toNat → a.toNat < l.bss.stop → m' a = 0
  kept : ∀ a, ¬(l.data.start ≤ a.toNat ∧ a.toNat < l.data.stop) →
    ¬(l.bss.start ≤ a.toNat ∧ a.toNat < l.bss.stop) →
    ¬(l.crashRecord ≤ a.toNat ∧ a.toNat < l.crashRecord + 32) →
    ¬(l.stack.start ≤ a.toNat ∧ a.toNat < l.stack.stop) → m' a = m a

/-- In every image that links, from every memory, and whatever the C code left on
the stack. -/
theorem resetHandler_starts {i : Linker.Inputs} {l : Linker.Layout} (linked : Linker.link i = some l)
    (rstcause : BitVec 32) (left m : Memory) :
    Started l rstcause m (resetHandler l rstcause left m) := by
  have h := placed linked
  have stack := (Linker.link_separated linked).stack_last
  have ⟨load, first, data, image, cleared, retained, last⟩ := h
  constructor
  case record => exact resetHandler_record h m rstcause left
  case data =>
    intro k within
    have here := address_toNat (n := l.data.start + k) (by omega)
    have there := address_toNat (n := l.dataLoad.start + k) (by omega)
    rw [resetHandler, onStack_outside (by omega), (clearBss_final h _).2 _ (by omega),
      (loadData_final h _).1 k within, call_kept h _ _ (by omega)]
  case bss =>
    intro a least within
    rw [resetHandler, onStack_outside (by omega)]
    exact (clearBss_final h _).1 a least within
  case kept =>
    intro a data bss record offStack
    rw [stack] at offStack
    rw [resetHandler, onStack_outside offStack, (clearBss_final h _).2 a bss,
      (loadData_final h _).2 a data, call_kept h _ _ record]

theorem resetHandler_starts_sample : Started (Linker.sections Linker.sample) 0x1c (fun _ => 0x5a)
    (resetHandler (Linker.sections Linker.sample) 0x1c (fun _ => 0x77) fun _ => 0x5a) :=
  resetHandler_starts Linker.sample_linked 0x1c (fun _ => 0x77) fun _ => 0x5a

end MspmBaremetal.Startup
