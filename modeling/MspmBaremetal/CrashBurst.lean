import MspmBaremetal.Crash

/-!
# Bursts of up to 32 bits

The stored check read as the end of the checked message leads every valid record
to the same register, so a change within one window of 32 bits of the checked
region and the check is always seen.
-/

namespace MspmBaremetal.Crash

/-- The bytes from `format_version` through `integrity_crc32`. -/
def Record.region (r : Record) : List (BitVec 8) := r.toBytes.drop 4

/-- Bits of the region in memory order, low bit of each byte first. -/
def Record.regionBits (r : Record) : List Bool := r.region.flatMap Crc.byteBits

/-- The records differ at most within 32 consecutive bits of the region. -/
def Burst (r s : Record) : Prop :=
  s.magic = r.magic ∧ Crc.Within 32 r.regionBits s.regionBits

inductive Field where
  | magic
  | formatVersion
  | recordSize
  | sequence
  | resetCause
  | reason
  | stackedPc
  | stackedXpsr
  | integrityCrc32
  deriving DecidableEq, Repr

/-- The record with one field replaced; the 16-bit fields take the low half. -/
def Record.replace (r : Record) (field : Field) (value : BitVec 32) : Record :=
  match field with
  | .magic => { r with magic := value }
  | .formatVersion => { r with formatVersion := value.setWidth 16 }
  | .recordSize => { r with recordSize := value.setWidth 16 }
  | .sequence => { r with sequence := value }
  | .resetCause => { r with resetCause := value }
  | .reason => { r with reason := value }
  | .stackedPc => { r with stackedPc := value }
  | .stackedXpsr => { r with stackedXpsr := value }
  | .integrityCrc32 => { r with integrityCrc32 := value }

/-! ## Words as bits -/

theorem word_littleEndian (v : BitVec 32) :
    Crc.word ((littleEndian 4 v).flatMap Crc.byteBits) = v := by
  apply BitVec.eq_of_getLsbD_eq
  intro i hi
  rw [Crc.word_getLsbD, littleEndian_bits]
  simp [hi, List.getD_eq_getElem?_getD]

/-! ## The residue -/

theorem region_eq (r : Record) : r.region = r.crcBytes ++ littleEndian 4 r.integrityCrc32 := by
  rw [crcBytes_eq]
  unfold Record.region Record.toBytes
  simp only [List.append_assoc]
  exact List.drop_left' (littleEndian_length 4 r.magic)

/-- A record whose check matches leads to one and the same register. -/
theorem residue {r : Record} (h : r.integrityCrc32 = crc32 r) :
    Crc.feed polynomial 0xFFFFFFFF r.regionBits = (Crc.shift polynomial)^[32] 0xFFFFFFFF := by
  have length : ((littleEndian 4 r.integrityCrc32).flatMap Crc.byteBits).length = 32 := by
    rw [Crc.bits_length, littleEndian_length]
  rw [Record.regionBits, region_eq, List.flatMap_append, Crc.feed_append,
    Crc.feed_eq_shift _ _ (by omega), length, word_littleEndian, h, crc32,
    Crc.foldl_feedByte _ _ _ (by decide)]
  congr 1
  generalize Crc.feed polynomial 0xFFFFFFFF (r.crcBytes.flatMap Crc.byteBits) = crc
  rw [show (0xFFFFFFFF : BitVec 32) = BitVec.allOnes 32 from rfl]
  apply BitVec.eq_of_getLsbD_eq
  intro i hi
  rw [BitVec.getLsbD_xor, BitVec.getLsbD_not, BitVec.getLsbD_allOnes, decide_eq_true hi]
  cases crc.getLsbD i <;> rfl

theorem region_inj {r s : Record} (magic : s.magic = r.magic) (h : s.region = r.region) : s = r := by
  rw [region_eq, region_eq, crcBytes_eq, crcBytes_eq] at h
  have lengths {w : Nat} (n : Nat) (a b : BitVec w) :
      (littleEndian n a).length = (littleEndian n b).length := by
    rw [littleEndian_length, littleEndian_length]
  obtain ⟨h, integrityCrc32⟩ := List.append_inj' h (lengths 4 _ _)
  obtain ⟨h, stackedXpsr⟩ := List.append_inj' h (lengths 4 _ _)
  obtain ⟨h, stackedPc⟩ := List.append_inj' h (lengths 4 _ _)
  obtain ⟨h, reason⟩ := List.append_inj' h (lengths 4 _ _)
  obtain ⟨h, resetCause⟩ := List.append_inj' h (lengths 4 _ _)
  obtain ⟨h, sequence⟩ := List.append_inj' h (lengths 4 _ _)
  obtain ⟨formatVersion, recordSize⟩ := List.append_inj' h (lengths 2 _ _)
  have word {a b : BitVec 32} : littleEndian 4 a = littleEndian 4 b → a = b :=
    littleEndian_inj (n := 4)
  have half {a b : BitVec 16} : littleEndian 2 a = littleEndian 2 b → a = b :=
    littleEndian_inj (n := 2)
  cases r
  cases s
  simp only [Record.mk.injEq]
  exact ⟨magic, half formatVersion, half recordSize, word sequence, word resetCause, word reason,
    word stackedPc, word stackedXpsr, word integrityCrc32⟩

/-! ## Rejection -/

theorem burst_invalid {r s : Record} (valid : isValid r = true) (ne : s ≠ r) (burst : Burst r s) :
    isValid s = false := by
  obtain ⟨magic, within⟩ := burst
  by_contra accepted
  have valid' : isValid s = true := by simpa using accepted
  obtain ⟨-, -, -, -, check⟩ := (isValid_iff r).mp valid
  obtain ⟨-, -, -, -, check'⟩ := (isValid_iff s).mp valid'
  have bits : r.regionBits ≠ s.regionBits := fun same =>
    ne (region_inj magic (Crc.bits_injective same.symm))
  have top : polynomial.getLsbD (32 - 1) = true := by decide
  apply within.feed_ne top 0xFFFFFFFF bits
  rw [residue check, residue check']

/-- A field of at most four bytes in front is a window of 32 bits. -/
theorem within_word {w n : Nat} (fits : n ≤ 4) (a b : BitVec w) (post : List Bool) :
    Crc.Within 32 ((littleEndian n a).flatMap Crc.byteBits ++ post)
      ((littleEndian n b).flatMap Crc.byteBits ++ post) := by
  apply Crc.within_head
  · rw [Crc.bits_length, Crc.bits_length, littleEndian_length, littleEndian_length]
  · rw [Crc.bits_length, littleEndian_length]
    omega

theorem replace_burst (r : Record) {field : Field} (value : BitVec 32) (ne : field ≠ .magic) :
    Burst r (r.replace field value) := by
  have bits (s : Record) : s.regionBits = (littleEndian 2 s.formatVersion).flatMap Crc.byteBits ++
      ((littleEndian 2 s.recordSize).flatMap Crc.byteBits ++
      ((littleEndian 4 s.sequence).flatMap Crc.byteBits ++
      ((littleEndian 4 s.resetCause).flatMap Crc.byteBits ++
      ((littleEndian 4 s.reason).flatMap Crc.byteBits ++
      ((littleEndian 4 s.stackedPc).flatMap Crc.byteBits ++
      ((littleEndian 4 s.stackedXpsr).flatMap Crc.byteBits ++
      ((littleEndian 4 s.integrityCrc32).flatMap Crc.byteBits ++ []))))))) := by
    simp only [Record.regionBits, region_eq, crcBytes_eq, List.flatMap_append, List.append_assoc,
      List.append_nil]
  refine ⟨?_, ?_⟩
  · cases field with
    | magic => exact absurd rfl ne
    | _ => rfl
  rw [bits, bits]
  -- the fields before the replaced one are the same
  cases field with
  | magic => exact absurd rfl ne
  | formatVersion => exact within_word (by decide) _ _ _
  | recordSize => exact (within_word (by decide) _ _ _).under _
  | sequence => exact ((within_word (by decide) _ _ _).under _).under _
  | resetCause => exact (((within_word (by decide) _ _ _).under _).under _).under _
  | reason => exact ((((within_word (by decide) _ _ _).under _).under _).under _).under _
  | stackedPc =>
    exact (((((within_word (by decide) _ _ _).under _).under _).under _).under _).under _
  | stackedXpsr =>
    exact ((((((within_word (by decide) _ _ _).under _).under _).under _).under _).under _).under _
  | integrityCrc32 =>
    exact (((((((within_word (by decide) _ _ _).under _).under _).under _).under _).under _).under
      _).under _

/-- **Every burst of up to 32 bits is rejected**, and with it every replaced
field. -/
theorem burst_rejected :
    (∀ r s, isValid r = true → s ≠ r → Burst r s → isValid s = false) ∧
    ∀ r field value, isValid r = true → Record.replace r field value ≠ r →
      isValid (r.replace field value) = false := by
  constructor
  · intro r s valid ne burst
    exact burst_invalid valid ne burst
  · intro r field value valid ne
    by_cases atMagic : field = .magic
    · subst atMagic
      have old := ((isValid_iff r).mp valid).1
      have changed : value ≠ magic := by
        rintro rfl
        exact ne (by rw [Record.replace, ← old])
      simp [isValid, Record.replace, changed]
    · exact burst_invalid valid ne (replace_burst r value atMagic)

/-- The record of a first boot. -/
def bootRecord : Record := (Call.noteBoot 0x0D).apply ⟨0, 0, 0, 0, 0, 0, 0, 0, 0⟩

/-- A burst over the last bit of the checked data and the first one of the check. -/
def straddled : Record :=
  { bootRecord with
    stackedXpsr := bootRecord.stackedXpsr ^^^ 0x80000000
    integrityCrc32 := bootRecord.integrityCrc32 ^^^ 0x00000001 }

theorem straddled_burst : Burst bootRecord straddled :=
  ⟨rfl, bootRecord.regionBits.take 191, (bootRecord.regionBits.drop 191).take 2,
    (straddled.regionBits.drop 191).take 2, bootRecord.regionBits.drop 193, by decide +kernel,
    by decide +kernel, by decide +kernel, by decide +kernel⟩

theorem burst_rejected_straddled : isValid bootRecord = true ∧ isValid straddled = false ∧
    isValid (bootRecord.replace .stackedPc 1) = false :=
  ⟨by decide +kernel,
    burst_rejected.1 bootRecord straddled (by decide +kernel) (by decide +kernel) straddled_burst,
    burst_rejected.2 bootRecord .stackedPc 1 (by decide +kernel) (by decide +kernel)⟩

end MspmBaremetal.Crash
