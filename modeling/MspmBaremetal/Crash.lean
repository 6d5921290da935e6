import MspmBaremetal.Crc

/-!
# The retained crash record of `lib_crash`

The 32 bytes of the record, its validity check, and each updating call as the
list of its field stores in program order. The record has no padding, so every
content of its 32 bytes is one `Record`. A null pointer makes each function
return before it touches memory; the records here are present.
-/

namespace MspmBaremetal.Crash

structure Record where
  magic : BitVec 32
  formatVersion : BitVec 16
  recordSize : BitVec 16
  sequence : BitVec 32
  resetCause : BitVec 32
  reason : BitVec 32
  stackedPc : BitVec 32
  stackedXpsr : BitVec 32
  integrityCrc32 : BitVec 32
  deriving DecidableEq, Repr

/-- A C enumeration value is its code: callers can pass codes it does not name. -/
abbrev Reason := BitVec 32

def reasonNone : Reason := 0
def reasonNmi : Reason := 1
def reasonHardfault : Reason := 2
def reasonUnexpectedException : Reason := 3

def magic : BitVec 32 := 0x43525348
def formatVersion : BitVec 16 := 2
def reasonCodeMask : BitVec 32 := 0x000000ff
def exceptionNumberMask : BitVec 32 := 0x00ffffff

/-- The `n` low bytes of a word, lowest first, as they lie in memory. -/
def littleEndian {w : Nat} (n : Nat) (v : BitVec w) : List (BitVec 8) :=
  (List.range n).map fun i => (v >>> (8 * i)).setWidth 8

def Record.toBytes (r : Record) : List (BitVec 8) :=
  littleEndian 4 r.magic ++ littleEndian 2 r.formatVersion ++ littleEndian 2 r.recordSize ++
  littleEndian 4 r.sequence ++ littleEndian 4 r.resetCause ++ littleEndian 4 r.reason ++
  littleEndian 4 r.stackedPc ++ littleEndian 4 r.stackedXpsr ++ littleEndian 4 r.integrityCrc32

def polynomial : BitVec 32 := 0xEDB88320

/-- The bytes `lib_crash_crc32` reads: from `format_version`, at offset 4, up to
`integrity_crc32`, at offset 28. -/
def Record.crcBytes (r : Record) : List (BitVec 8) := (r.toBytes.drop 4).take (28 - 4)

def crc32 (r : Record) : BitVec 32 :=
  ~~~(r.crcBytes.foldl (Crc.feedByte polynomial) 0xFFFFFFFF)

def reasonCodeIsValid (code : BitVec 32) : Bool :=
  code == reasonNone || code == reasonNmi || code == reasonHardfault ||
  code == reasonUnexpectedException

def packReason (reason : Reason) (exceptionNumber : BitVec 32) : BitVec 32 :=
  ((exceptionNumber &&& exceptionNumberMask) <<< 8) ||| (reason &&& reasonCodeMask)

def isValid (r : Record) : Bool :=
  if r.magic ≠ magic ∨ r.formatVersion ≠ formatVersion ∨ r.recordSize ≠ 32 then false
  else reasonCodeIsValid (r.reason &&& reasonCodeMask) && r.integrityCrc32 == crc32 r

/-- `lib_crash_reason`. -/
def reasonOf (r : Record) : Reason :=
  if isValid r then r.reason &&& reasonCodeMask else reasonNone

def hasFault (r : Record) : Bool := reasonOf r != reasonNone

/-- `lib_crash_exception_number`. -/
def exceptionNumberOf (r : Record) : BitVec 32 :=
  if isValid r then r.reason >>> 8 else 0

structure Snapshot where
  reason : Reason
  sequence : BitVec 32
  resetCause : BitVec 32
  exceptionNumber : BitVec 32
  stackedPc : BitVec 32
  stackedXpsr : BitVec 32
  deriving DecidableEq, Repr

def Snapshot.zero : Snapshot := ⟨0, 0, 0, 0, 0, 0⟩

def decode (r : Record) : Bool × Snapshot :=
  if isValid r then
    (true, { reason := r.reason &&& reasonCodeMask, sequence := r.sequence,
             resetCause := r.resetCause, exceptionNumber := r.reason >>> 8,
             stackedPc := r.stackedPc, stackedXpsr := r.stackedXpsr })
  else (false, .zero)

/-! ## Updates as stores -/

/-- One field store, as what it does to the record. -/
abbrev Store := Record → Record

def run (stores : List Store) (r : Record) : Record := stores.foldl (fun r store => store r) r

def clearMagic : Store := fun r => { r with magic := 0 }
def setMagic : Store := fun r => { r with magic := magic }

def commit : List Store :=
  [clearMagic,
   fun r => { r with formatVersion := formatVersion },
   fun r => { r with recordSize := 32 },
   fun r => { r with integrityCrc32 := crc32 r },
   setMagic]

def clearRecord : List Store :=
  [clearMagic,
   fun r => { r with formatVersion := 0 },
   fun r => { r with recordSize := 0 },
   fun r => { r with sequence := 0 },
   fun r => { r with resetCause := 0 },
   fun r => { r with reason := reasonNone },
   fun r => { r with stackedPc := 0 },
   fun r => { r with stackedXpsr := 0 },
   fun r => { r with integrityCrc32 := 0 }]

def setResetCause (resetCause : BitVec 32) : Store := fun r => { r with resetCause }

def noteBoot (resetCause : BitVec 32) (r : Record) : List Store :=
  (if isValid r then [] else clearRecord) ++ [setResetCause resetCause] ++ commit

/-- The reason `lib_crash_capture` records for the one it is given. -/
def normalizeReason (reason : Reason) : Reason :=
  if reason = reasonNone ∨ ¬reasonCodeIsValid reason then reasonUnexpectedException else reason

def capture (reason : Reason) (exceptionNumber stackedPc stackedXpsr : BitVec 32) (r : Record) :
    List Store :=
  let sequence := if isValid r then r.sequence else 0
  let resetCause := if isValid r then r.resetCause else 0
  clearRecord ++
  [fun r => { r with sequence := sequence + 1 },
   setResetCause resetCause,
   fun r => { r with reason := packReason (normalizeReason reason) exceptionNumber },
   fun r => { r with stackedPc },
   fun r => { r with stackedXpsr }] ++
  commit

inductive Call where
  | noteBoot (resetCause : BitVec 32)
  | capture (reason : Reason) (exceptionNumber stackedPc stackedXpsr : BitVec 32)
  deriving DecidableEq, Repr

def Call.stores : Call → Record → List Store
  | .noteBoot resetCause => Crash.noteBoot resetCause
  | .capture reason exceptionNumber stackedPc stackedXpsr =>
    Crash.capture reason exceptionNumber stackedPc stackedXpsr

/-- The record the completed call leaves. -/
def Call.apply (c : Call) (r : Record) : Record := run (c.stores r) r

/-! ## Words in memory -/

theorem littleEndian_length {w : Nat} (n : Nat) (v : BitVec w) : (littleEndian n v).length = n := by
  simp [littleEndian]

theorem littleEndian_bits {w : Nat} (n : Nat) (v : BitVec w) :
    (littleEndian n v).flatMap Crc.byteBits = (List.range (8 * n)).map v.getLsbD := by
  induction n with
  | zero => rfl
  | succ n ih =>
    have last : Crc.byteBits ((v >>> (8 * n)).setWidth 8) =
        (List.range 8).map fun j => v.getLsbD (8 * n + j) := by
      apply List.map_congr_left
      intro j hj
      simp [List.mem_range.mp hj]
    have split : littleEndian (n + 1) v = littleEndian n v ++ [(v >>> (8 * n)).setWidth 8] := by
      simp [littleEndian, List.range_succ]
    rw [split, List.flatMap_append, ih, List.flatMap_singleton, last, Nat.mul_succ, List.range_add,
      List.map_append, List.map_map]
    rfl

/-- A word of whole bytes is read back from its bytes. -/
theorem littleEndian_inj {n : Nat} {a b : BitVec (8 * n)} (h : littleEndian n a = littleEndian n b) :
    a = b := by
  have bits := congrArg (List.flatMap Crc.byteBits) h
  rw [littleEndian_bits, littleEndian_bits] at bits
  apply BitVec.eq_of_getLsbD_eq
  intro i hi
  have at_i := congrArg (·[i]?) bits
  simpa [hi] using at_i

/-! ## The record -/

theorem run_append (a b : List Store) (r : Record) : run (a ++ b) r = run b (run a r) :=
  List.foldl_append

theorem run_cons (store : Store) (stores : List Store) (r : Record) :
    run (store :: stores) r = run stores (store r) := rfl

theorem crcBytes_eq (r : Record) :
    r.crcBytes = littleEndian 2 r.formatVersion ++ littleEndian 2 r.recordSize ++
      littleEndian 4 r.sequence ++ littleEndian 4 r.resetCause ++ littleEndian 4 r.reason ++
      littleEndian 4 r.stackedPc ++ littleEndian 4 r.stackedXpsr := by
  unfold Record.crcBytes Record.toBytes
  simp only [List.append_assoc]
  rw [List.drop_left' (littleEndian_length 4 r.magic)]
  simp only [← List.append_assoc]
  apply List.take_left'
  simp only [List.length_append, littleEndian_length]

/-- The check reads neither the magic word nor itself. -/
theorem crc32_frame {r s : Record} (formatVersion : r.formatVersion = s.formatVersion)
    (recordSize : r.recordSize = s.recordSize) (sequence : r.sequence = s.sequence)
    (resetCause : r.resetCause = s.resetCause) (reason : r.reason = s.reason)
    (stackedPc : r.stackedPc = s.stackedPc) (stackedXpsr : r.stackedXpsr = s.stackedXpsr) :
    crc32 r = crc32 s := by
  unfold crc32
  rw [crcBytes_eq, crcBytes_eq, formatVersion, recordSize, sequence, resetCause, reason, stackedPc,
    stackedXpsr]

theorem isValid_iff (r : Record) :
    isValid r = true ↔ r.magic = magic ∧ r.formatVersion = formatVersion ∧ r.recordSize = 32 ∧
      reasonCodeIsValid (r.reason &&& reasonCodeMask) = true ∧ r.integrityCrc32 = crc32 r := by
  unfold isValid
  by_cases h : r.magic ≠ magic ∨ r.formatVersion ≠ formatVersion ∨ r.recordSize ≠ 32
  · rw [if_pos h]
    simp only [Bool.false_eq_true, false_iff]
    rintro ⟨hm, hf, hs, -⟩
    simp [hm, hf, hs] at h
  · rw [if_neg h]
    simp only [not_or, ne_eq, Decidable.not_not] at h
    simp [h]

theorem invalid_of_cleared {r : Record} (h : r.magic = 0) : isValid r = false := by
  have ne : r.magic ≠ magic := by rw [h]; decide
  simp [isValid, ne]

/-- What `lib_crash_commit` leaves: everything else as it was, and a check that
matches. -/
theorem run_commit (r : Record) :
    ∃ c, run commit r = { r with magic := magic, formatVersion := formatVersion, recordSize := 32,
                                 integrityCrc32 := c } ∧ c = crc32 (run commit r) := by
  refine ⟨_, rfl, ?_⟩
  apply crc32_frame <;> rfl

theorem commit_valid {r : Record} (h : reasonCodeIsValid (r.reason &&& reasonCodeMask) = true) :
    isValid (run commit r) = true := by
  obtain ⟨c, hrun, hc⟩ := run_commit r
  rw [isValid_iff, ← hc, hrun]
  exact ⟨rfl, rfl, rfl, h, rfl⟩

end MspmBaremetal.Crash
