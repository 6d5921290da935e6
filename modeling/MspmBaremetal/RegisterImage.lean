import MspmBaremetal.CrashHistory

/-!
# The crash record's register image

`lib_crash_write_register_image` store by store, and the documented big-endian
layout of the crash page that a controller reads it back by.
-/

namespace MspmBaremetal.Crash

/-! ## The documented layout -/

/-- The crash page as its reader sees it. -/
structure RegisterImage where
  valid : BitVec 8
  reason : BitVec 8
  recordFormat : BitVec 16
  sequence : BitVec 32
  resetCause : BitVec 32
  activeException : BitVec 32
  stackedPc : BitVec 32
  stackedXpsr : BitVec 32
  deriving DecidableEq, Repr

/-- Big-endian words at an offset. -/
def readU16Be (bytes : Nat → BitVec 8) (offset : Nat) : BitVec 16 :=
  bytes offset ++ bytes (offset + 1)

def readU32Be (bytes : Nat → BitVec 8) (offset : Nat) : BitVec 32 :=
  readU16Be bytes offset ++ readU16Be bytes (offset + 2)

def parseImage (bytes : Nat → BitVec 8) : RegisterImage where
  valid := bytes 0x00
  reason := bytes 0x01
  recordFormat := readU16Be bytes 0x02
  sequence := readU32Be bytes 0x04
  resetCause := readU32Be bytes 0x08
  activeException := readU32Be bytes 0x0c
  stackedPc := readU32Be bytes 0x10
  stackedXpsr := readU32Be bytes 0x14

/-- The fields of a decoded record that the image carries. -/
def RegisterImage.snapshot (image : RegisterImage) : Snapshot where
  reason := image.reason.setWidth 32
  sequence := image.sequence
  resetCause := image.resetCause
  exceptionNumber := image.activeException
  stackedPc := image.stackedPc
  stackedXpsr := image.stackedXpsr

/-! ## The writer -/

/-- `LIB_CRASH_REGISTER_IMAGE_SIZE`. -/
def registerImageSize : Nat := 24

/-- What the two pointers lead to; `none` is a null pointer. -/
structure Memory where
  record : Option Record
  bytes : Option (Nat → BitVec 8)

/-- `bytes[index] = value`. -/
def store (bytes : Nat → BitVec 8) (index : Nat) (value : BitVec 8) : Nat → BitVec 8 :=
  Function.update bytes index value

/-- `lib_crash_write_u32_be`. -/
def writeU32Be (bytes : Nat → BitVec 8) (offset : Nat) (value : BitVec 32) : Nat → BitVec 8 :=
  let bytes := store bytes offset ((value >>> 24).setWidth 8)
  let bytes := store bytes (offset + 1) ((value >>> 16).setWidth 8)
  let bytes := store bytes (offset + 2) ((value >>> 8).setWidth 8)
  store bytes (offset + 3) (value.setWidth 8)

/-- The loop that clears the image: `bytes[0]` up to `bytes[count - 1]`. -/
def clearImage (bytes : Nat → BitVec 8) : Nat → Nat → BitVec 8
  | 0 => bytes
  | count + 1 => store (clearImage bytes count) count 0

/-- The stores of a decoded record. -/
def writeSnapshot (bytes : Nat → BitVec 8) (snapshot : Snapshot) : Nat → BitVec 8 :=
  let bytes := store bytes 0 1
  let bytes := store bytes 1 (snapshot.reason.setWidth 8)
  let bytes := store bytes 2 ((formatVersion >>> 8).setWidth 8)
  let bytes := store bytes 3 (formatVersion.setWidth 8)
  let bytes := writeU32Be bytes 4 snapshot.sequence
  let bytes := writeU32Be bytes 8 snapshot.resetCause
  let bytes := writeU32Be bytes 12 snapshot.exceptionNumber
  let bytes := writeU32Be bytes 16 snapshot.stackedPc
  writeU32Be bytes 20 snapshot.stackedXpsr

/-- `lib_crash_decode` of a pointer. -/
def decodeAt : Option Record → Bool × Snapshot
  | none => (false, .zero)
  | some record => decode record

/-- `lib_crash_write_register_image`. -/
def writeRegisterImage (m : Memory) (length : BitVec 32) : Bool × Memory :=
  match m.bytes with
  | none => (false, m)
  | some bytes =>
    if length.toNat < registerImageSize then (false, m)
    else
      let bytes := clearImage bytes registerImageSize
      match decodeAt m.record with
      | (false, _) => (false, { m with bytes := some bytes })
      | (true, snapshot) => (true, { m with bytes := some (writeSnapshot bytes snapshot) })

/-! ## What the stores leave -/

variable (bytes : Nat → BitVec 8)

theorem store_apply (index : Nat) (value : BitVec 8) (i : Nat) :
    store bytes index value i = if i = index then value else bytes i :=
  Function.update_apply ..

theorem clearImage_apply (count i : Nat) :
    clearImage bytes count i = if i < count then 0 else bytes i := by
  induction count with
  | zero => simp [clearImage]
  | succ count ih =>
    rw [clearImage, store_apply, ih]
    by_cases last : i = count
    · subst last
      simp
    · have same : i < count + 1 ↔ i < count := by omega
      simp only [last, same, if_false]

theorem writeU32Be_frame {offset i : Nat} (value : BitVec 32) (h : i < offset ∨ offset + 4 ≤ i) :
    writeU32Be bytes offset value i = bytes i := by
  simp only [writeU32Be, store_apply]
  repeat rw [if_neg (by omega)]

/-- Four bytes, highest first, make up the word they are shifted out of. -/
theorem word_of_bytes (value : BitVec 32) :
    ((value >>> 24).setWidth 8 ++ (value >>> 16).setWidth 8 : BitVec 16) ++
      ((value >>> 8).setWidth 8 ++ value.setWidth 8 : BitVec 16) = value := by
  apply BitVec.eq_of_getLsbD_eq
  intro i hi
  simp only [BitVec.getLsbD_append, BitVec.getLsbD_setWidth, BitVec.getLsbD_ushiftRight]
  rcases (by omega : i < 8 ∨ (8 ≤ i ∧ i < 16) ∨ (16 ≤ i ∧ i < 24) ∨ 24 ≤ i) with
    first | ⟨low, high⟩ | ⟨low, high⟩ | last
  · simp [first, show i < 16 by omega]
  · simp [high, show ¬i < 8 by omega, show i - 8 < 8 by omega, show 8 + (i - 8) = i by omega]
  · simp [show ¬i < 16 by omega, show i - 16 < 8 by omega, show 16 + (i - 16) = i by omega]
  · simp [show ¬i < 16 by omega, show ¬i - 16 < 8 by omega, show i - 16 - 8 < 8 by omega,
      show 24 + (i - 16 - 8) = i by omega]

/-- A word is read back from where it was written. -/
theorem readU32Be_writeU32Be (offset : Nat) (value : BitVec 32) :
    readU32Be (writeU32Be bytes offset value) offset = value := by
  have written : readU32Be (writeU32Be bytes offset value) offset =
      ((value >>> 24).setWidth 8 ++ (value >>> 16).setWidth 8 : BitVec 16) ++
        ((value >>> 8).setWidth 8 ++ value.setWidth 8 : BitVec 16) := by
    simp [readU32Be, readU16Be, writeU32Be, store_apply, Nat.add_assoc]
  rw [written, word_of_bytes]

theorem readU32Be_congr {bytes bytes' : Nat → BitVec 8} {offset : Nat}
    (h : ∀ i, offset ≤ i → i < offset + 4 → bytes i = bytes' i) :
    readU32Be bytes offset = readU32Be bytes' offset := by
  unfold readU32Be readU16Be
  rw [h offset (by omega) (by omega), h (offset + 1) (by omega) (by omega),
    h (offset + 2) (by omega) (by omega), h (offset + 2 + 1) (by omega) (by omega)]

/-- A word written elsewhere leaves a word alone. -/
theorem readU32Be_frame {offset offset' : Nat} (value : BitVec 32)
    (apart : offset' + 4 ≤ offset ∨ offset + 4 ≤ offset') :
    readU32Be (writeU32Be bytes offset value) offset' = readU32Be bytes offset' := by
  apply readU32Be_congr
  intro i low high
  exact writeU32Be_frame bytes value (by omega)

/-- The image of a decoded record reads back as its fields. -/
theorem parseImage_writeSnapshot (snapshot : Snapshot) :
    parseImage (writeSnapshot bytes snapshot) =
      { valid := 1, reason := snapshot.reason.setWidth 8, recordFormat := formatVersion,
        sequence := snapshot.sequence, resetCause := snapshot.resetCause,
        activeException := snapshot.exceptionNumber, stackedPc := snapshot.stackedPc,
        stackedXpsr := snapshot.stackedXpsr } := by
  have head : ∀ i < 4, writeSnapshot bytes snapshot i = store (store (store (store bytes 0 1) 1
      (snapshot.reason.setWidth 8)) 2 ((formatVersion >>> 8).setWidth 8)) 3
      (formatVersion.setWidth 8) i := by
    intro i hi
    simp only [writeSnapshot]
    repeat rw [writeU32Be_frame _ _ (by omega)]
  have format : (((formatVersion >>> 8).setWidth 8 : BitVec 8) ++
      (formatVersion.setWidth 8 : BitVec 8) : BitVec 16) = formatVersion := by decide
  simp only [parseImage, RegisterImage.mk.injEq]
  refine ⟨?_, ?_, ?_, ?_, ?_, ?_, ?_, ?_⟩
  · rw [head 0x00 (by decide)]
    simp [store_apply]
  · rw [head 0x01 (by decide)]
    simp [store_apply]
  · rw [readU16Be, head 0x02 (by decide), head (0x02 + 1) (by decide)]
    simpa [store_apply] using format
  all_goals
    simp only [writeSnapshot]
    repeat rw [readU32Be_frame _ _ (by decide)]
    rw [readU32Be_writeU32Be]

theorem writeSnapshot_frame (snapshot : Snapshot) {i : Nat} (h : registerImageSize ≤ i) :
    writeSnapshot bytes snapshot i = bytes i := by
  unfold registerImageSize at h
  simp only [writeSnapshot]
  repeat rw [writeU32Be_frame _ _ (by omega)]
  simp only [store_apply]
  repeat rw [if_neg (by omega)]

/-! ## The call -/

/-- `lib_crash_is_valid` of a pointer. -/
def isValidAt : Option Record → Bool
  | none => false
  | some record => isValid record

theorem decodeAt_valid (record : Option Record) : (decodeAt record).1 = isValidAt record := by
  cases record with
  | none => rfl
  | some r =>
    simp only [decodeAt, decode, isValidAt]
    split <;> simp_all

theorem reason_byte (x : BitVec 32) :
    ((x &&& reasonCodeMask).setWidth 8).setWidth 32 = x &&& reasonCodeMask := by
  have code := mask_toNat x
  apply BitVec.eq_of_toNat_eq
  simp only [BitVec.toNat_setWidth, code]
  omega

theorem decodeAt_reason {record : Option Record} (h : (decodeAt record).1 = true) :
    ((decodeAt record).2.reason.setWidth 8).setWidth 32 = (decodeAt record).2.reason := by
  cases record with
  | none => cases h
  | some r =>
    have valid : isValid r = true := by rwa [decodeAt_valid] at h
    rw [decodeAt, decode_eq valid]
    exact reason_byte r.reason

/-- `image` is what the call for `record` makes of `bytes`. -/
structure Encodes (record : Option Record) (bytes image : Nat → BitVec 8) : Prop where
  valid : isValidAt record = true → (parseImage image).valid = 1 ∧
    (parseImage image).snapshot = (decodeAt record).2 ∧
    (parseImage image).recordFormat = formatVersion
  invalid : isValidAt record = false → ∀ i < registerImageSize, image i = 0
  first : image 0 = 1 ↔ isValidAt record = true
  rest : ∀ i, registerImageSize ≤ i → image i = bytes i

theorem writeRegisterImage_encodes (record : Option Record) {length : BitVec 32}
    (long : registerImageSize ≤ length.toNat) :
    ∃ image, writeRegisterImage ⟨record, some bytes⟩ length =
      (isValidAt record, ⟨record, some image⟩) ∧ Encodes record bytes image := by
  have fits : ¬length.toNat < registerImageSize := by omega
  have zero : ∀ i < registerImageSize, clearImage bytes registerImageSize i = 0 := by
    intro i hi
    rw [clearImage_apply, if_pos hi]
  have rest : ∀ i, registerImageSize ≤ i → clearImage bytes registerImageSize i = bytes i := by
    intro i hi
    rw [clearImage_apply, if_neg (by omega)]
  have reason (h : (decodeAt record).1 = true) := decodeAt_reason h
  rw [← decodeAt_valid]
  simp only [writeRegisterImage, fits, if_false]
  cases decoded : decodeAt record with
  | mk result snapshot =>
    cases result with
    | false =>
      refine ⟨_, rfl, ?_, fun _ => zero, ?_, rest⟩
      · intro valid
        rw [← decodeAt_valid, decoded] at valid
        cases valid
      · rw [zero 0 (by decide), ← decodeAt_valid, decoded]
        simp
    | true =>
      have parsed := parseImage_writeSnapshot (clearImage bytes registerImageSize) snapshot
      rw [decoded] at reason
      refine ⟨_, rfl, ?_, ?_, ?_, ?_⟩
      · intro _
        rw [parsed, decoded]
        simp only [RegisterImage.snapshot, reason rfl, and_self]
      · intro invalid
        rw [← decodeAt_valid, decoded] at invalid
        cases invalid
      · have first := congrArg RegisterImage.valid parsed
        simp only [parseImage] at first
        rw [first, ← decodeAt_valid, decoded]
        simp
      · intro i hi
        rw [writeSnapshot_frame _ snapshot hi, rest i hi]

theorem parseImage_congr {image image' : Nat → BitVec 8}
    (h : ∀ i < registerImageSize, image i = image' i) : parseImage image = parseImage image' := by
  have word (offset : Nat) (inside : offset + 4 ≤ registerImageSize) :
      readU32Be image offset = readU32Be image' offset := by
    apply readU32Be_congr
    intro i low high
    exact h i (by omega)
  unfold registerImageSize at h word
  simp only [parseImage, RegisterImage.mk.injEq]
  refine ⟨h _ (by decide), h _ (by decide), ?_, word _ (by decide), word _ (by decide),
    word _ (by decide), word _ (by decide), word _ (by decide)⟩
  rw [readU16Be, readU16Be, h 2 (by decide), h (2 + 1) (by decide)]

/-- **The register image is a faithful codec.** It reads back as the decoded
record, tells different records apart, and nothing else is written. -/
theorem register_image_codec :
    (∀ record bytes (length : BitVec 32), registerImageSize ≤ length.toNat →
      ∃ image, writeRegisterImage ⟨record, some bytes⟩ length =
        (isValidAt record, ⟨record, some image⟩) ∧ Encodes record bytes image) ∧
    (∀ m (length : BitVec 32), m.bytes = none ∨ length.toNat < registerImageSize →
      writeRegisterImage m length = (false, m)) ∧
    ∀ r s image image' bytes bytes' (length length' : BitVec 32),
      registerImageSize ≤ length.toNat → registerImageSize ≤ length'.toNat →
      isValid r = true → isValid s = true → (decode r).2 ≠ (decode s).2 →
      (writeRegisterImage ⟨some r, some bytes⟩ length).2.bytes = some image →
      (writeRegisterImage ⟨some s, some bytes'⟩ length').2.bytes = some image' →
      ∃ i < registerImageSize, image i ≠ image' i := by
  refine ⟨fun record bytes _ long => writeRegisterImage_encodes bytes record long, ?_, ?_⟩
  · intro m length short
    cases bytes : m.bytes with
    | none => simp [writeRegisterImage, bytes]
    | some data =>
      have tooShort : length.toNat < registerImageSize := by simpa [bytes] using short
      simp [writeRegisterImage, bytes, tooShort]
  · intro r s image image' bytes bytes' length length' long long' valid valid' different hr hs
    obtain ⟨written, out, encodes⟩ := writeRegisterImage_encodes bytes (some r) long
    obtain ⟨written', out', encodes'⟩ := writeRegisterImage_encodes bytes' (some s) long'
    rw [out] at hr
    rw [out'] at hs
    obtain rfl := Option.some.inj hr
    obtain rfl := Option.some.inj hs
    by_contra same
    simp only [not_exists, not_and, ne_eq, not_not] at same
    have parsed := parseImage_congr same
    apply different
    rw [show (decode r).2 = _ from (encodes.valid valid).2.1.symm,
      show (decode s).2 = _ from (encodes'.valid valid').2.1.symm, parsed]

/-- A captured fault in a longer buffer, and the same buffer declared too short. -/
theorem register_image_codec_fault :
    ∃ record image, writeRegisterImage ⟨some record, some fun _ => 0xaa⟩ 32 =
        (true, ⟨some record, some image⟩) ∧
      (parseImage image).snapshot = ⟨2, 1, 0, 3, 0x12345678, 0x21000003⟩ ∧ image 24 = 0xaa ∧
      writeRegisterImage ⟨some record, some fun _ => 0xaa⟩ 23 =
        (false, ⟨some record, some fun _ => 0xaa⟩) := by
  let record := (Call.capture reasonHardfault 3 0x12345678 0x21000003).apply ⟨0, 0, 0, 0, 0, 0, 0, 0, 0⟩
  have valid : isValidAt (some record) = true := by decide +kernel
  have fields : (decodeAt (some record)).2 = ⟨2, 1, 0, 3, 0x12345678, 0x21000003⟩ := by
    decide +kernel
  obtain ⟨image, out, encodes⟩ :=
    register_image_codec.1 (some record) (fun _ => 0xaa) 32 (by decide)
  refine ⟨record, image, ?_, ?_, encodes.rest 24 (by decide), ?_⟩
  · rw [out, valid]
  · rw [(encodes.valid valid).2.1, fields]
  · exact register_image_codec.2.1 _ 23 (.inr (by decide))

end MspmBaremetal.Crash
