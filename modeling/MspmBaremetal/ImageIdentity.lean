import MspmBaremetal.ByteFields
import MspmBaremetal.Crc

/-!
# The firmware image identity

The 64-byte identity block of `stamp_image_identity.py`: what `stamp` builds for
a layout and what `decode_identity` accepts for it.
-/

namespace MspmBaremetal.ImageTool

open ByteFields

/-- `ImageLayout`. -/
structure ImageLayout where
  flashOrigin : Int
  flashLength : Int
  dataLoadEnd : Nat
  identityAddress : Nat
  identityOffset : Nat
  identitySize : Nat
  coverage : Bytes
  deriving DecidableEq, Repr

def ImageLayout.identityEnd (layout : ImageLayout) : Int :=
  layout.identityAddress + layout.identitySize

/-- `image_span`. -/
def ImageLayout.span (layout : ImageLayout) : Int := layout.identityEnd - layout.flashOrigin

/-- What `decode_identity` returns. -/
structure Identity where
  major : Nat
  minor : Nat
  flags : Nat
  crc32 : Nat
  sourceId : Bytes
  span : Nat
  contentLength : Nat
  deriving DecidableEq, Repr

def identityMagic : Bytes := [0x4D, 0x53, 0x50, 0x4D]
def identityFormatVersion : Nat := 1
def identitySize : Nat := 64
def identityCrcOffset : Nat := 16
def identityCrcSize : Nat := 4
def identityFlagSourceDirty : Nat := 1
def identityFlagDebug : Nat := 2
def identityFlagsAllowed : Nat := identityFlagSourceDirty ||| identityFlagDebug

/-- A number in hexadecimal, at least `width` digits. -/
def hex (width n : Nat) : String :=
  let digits := String.ofList (Nat.toDigits 16 n)
  "0x" ++ "".pushn '0' (width - digits.length) ++ digits

/-- The zeros of the decimal digits of Unicode. -/
def unicodeZeros : List Nat :=
  [0x30, 0x660, 0x6f0, 0x7c0, 0x966, 0x9e6, 0xa66, 0xae6, 0xb66, 0xbe6, 0xc66, 0xce6, 0xd66, 0xde6,
    0xe50, 0xed0, 0xf20, 0x1040, 0x1090, 0x17e0, 0x1810, 0x1946, 0x19d0, 0x1a80, 0x1a90, 0x1b50,
    0x1bb0, 0x1c40, 0x1c50, 0xa620, 0xa8d0, 0xa900, 0xa9d0, 0xa9f0, 0xaa50, 0xabf0, 0xff10, 0x104a0,
    0x10d30, 0x11066, 0x110f0, 0x11136, 0x111d0, 0x112f0, 0x11450, 0x114d0, 0x11650, 0x116c0,
    0x11730, 0x118e0, 0x11950, 0x11c50, 0x11d50, 0x11da0, 0x16a60, 0x16ac0, 0x16b50, 0x1d7ce,
    0x1d7d8, 0x1d7e2, 0x1d7ec, 0x1d7f6, 0x1e140, 0x1e2f0, 0x1e950, 0x1fbf0]

/-- `int` of one digit. A character that `isdigit` accepts and `int` does not,
such as a superscript, fails either way. -/
def decimal (c : Char) : Option Nat :=
  (unicodeZeros.find? fun digit => decide (digit ≤ c.toNat ∧ c.toNat < digit + 10)).map (c.toNat - ·)

/-- One part of a version as a BCD byte. -/
def bcdByte : List Char → Option Nat
  | [high, low] => do
    let high ← decimal high
    let low ← decimal low
    return high * 16 + low
  | _ => none

/-- `parse_bcd_version`. -/
def parseBcdVersion (value : List Char) : Except String (Nat × Nat) :=
  match (value.splitOn '.').map bcdByte with
  | [some major, some minor] => .ok (major, minor)
  | _ => .error ("version must be two BCD byte pairs, got " ++ "'" ++ String.ofList value ++ "'")

/-- `encode_source_id`. -/
def encodeSourceId (sourceId : List Char) : Except String Bytes := do
  failIf (sourceId.any fun c => 0x80 ≤ c.toNat) "source identifier is not ASCII"
  let encoded := sourceId.map fun c => BitVec.ofNat 8 c.toNat
  failIf (encoded = [] ∨ 16 < encoded.length ∨
      encoded.any fun byte => byte.toNat < 0x21 ∨ 0x7E < byte.toNat)
    "source identifier must contain 1 to 16 printable ASCII characters"
  return encoded ++ List.replicate (16 - encoded.length) 0

/-- One integer of `IDENTITY_HEADER.pack`, `n` bytes wide. -/
def packNat (n : Nat) (v : Int) : Except String Bytes := do
  failIf (v < 0 ∨ 256 ^ n ≤ v.toNat) "struct.error: integer out of range"
  return ByteFields.ofNat n v.toNat

/-- One byte string of `IDENTITY_HEADER.pack`, `n` bytes wide. -/
def packBytes (n : Nat) (bytes : Bytes) : Bytes := (bytes ++ List.replicate n 0).take n

/-- `build_identity`. -/
def buildIdentity (major minor : Nat) (sourceId : Bytes) (flags : Nat) (span contentLength crc32 : Int) :
    Except String Bytes := do
  let formatVersion ← packNat 2 identityFormatVersion
  let headerSize ← packNat 2 identitySize
  let major ← packNat 1 major
  let minor ← packNat 1 minor
  let flags ← packNat 2 flags
  let span ← packNat 4 span
  let crc32 ← packNat 4 crc32
  let contentLength ← packNat 4 contentLength
  return identityMagic ++ formatVersion ++ headerSize ++ major ++ minor ++ flags ++ span ++ crc32 ++
    packBytes 16 sourceId ++ contentLength ++ List.replicate 24 0xFF

/-- `crc32_iso_hdlc`. -/
def crc32IsoHdlc (data : Bytes) : Nat :=
  (~~~data.foldl (Crc.feedByte 0xEDB88320) (0xFFFFFFFF : BitVec 32)).toNat

/-- The arguments of `stamp` besides the file and the flash range. -/
structure StampArgs where
  version : List Char
  sourceId : List Char
  sourceDirty : Bool
  debug : Bool
  deriving DecidableEq, Repr

def StampArgs.flags (args : StampArgs) : Nat :=
  (if args.sourceDirty then identityFlagSourceDirty else 0) |||
    (if args.debug then identityFlagDebug else 0)

/-- The block that `stamp` builds. -/
def stampedIdentity (layout : ImageLayout) (args : StampArgs) : Except String Bytes := do
  let (major, minor) ← parseBcdVersion args.version
  let sourceId ← encodeSourceId args.sourceId
  let build := buildIdentity major minor sourceId args.flags layout.span layout.coverage.length
  let identityWithoutCrc ← build 0
  build (crc32IsoHdlc (layout.coverage ++ identityWithoutCrc))

/-- `decode_identity`. -/
def decodeIdentity (identity : Bytes) (layout : ImageLayout) : Except String Identity := do
  failIf (identity.length ≠ identitySize) "image identity has an invalid size"
  let number := fun offset size => toNat (slice identity offset size)
  failIf (slice identity 0 4 ≠ identityMagic) "image identity magic is invalid"
  failIf (number 4 2 ≠ identityFormatVersion ∨ number 6 2 ≠ identitySize)
    "image identity format or header size is unsupported"
  let flags := number 10 2
  failIf (flags &&& (0xFFFF ^^^ identityFlagsAllowed) ≠ 0) "image identity contains unsupported flags"
  let span := number 12 4
  failIf ((span : Int) ≠ layout.span)
    "image identity flash span does not match the linker reservation"
  let contentLength := number 36 4
  failIf (contentLength ≠ layout.coverage.length)
    "image identity content length does not match __data_load_end"
  failIf (slice identity 40 24 ≠ List.replicate 24 0xFF)
    "image identity reserved bytes are not erased-value 0xff"
  let sourceId := slice identity 20 16
  let sourceText := sourceId.takeWhile (· ≠ 0)
  failIf (sourceText = [] ∨ sourceText.any fun byte => byte.toNat < 0x21 ∨ 0x7E < byte.toNat)
    "image identity source identifier is invalid"
  failIf (sourceId.dropWhile (· ≠ 0) ≠ List.replicate (16 - sourceText.length) 0)
    "image identity source identifier is not NUL-padded"
  let crc32 := number identityCrcOffset identityCrcSize
  let expected := crc32IsoHdlc (layout.coverage ++
    patch identity identityCrcOffset (List.replicate identityCrcSize 0))
  failIf (crc32 ≠ expected)
    ("image identity CRC32 is " ++ hex 8 crc32 ++ "; expected " ++ hex 8 expected)
  return ⟨number 8 1, number 9 1, flags, crc32, sourceText, span, contentLength⟩

/-! ## The block -/

/-- The bytes of a block, field by field. -/
def fieldBytes (major minor : Nat) (sourceId : Bytes) (flags span contentLength crc32 : Nat) : Bytes :=
  identityMagic ++ ByteFields.ofNat 2 identityFormatVersion ++ ByteFields.ofNat 2 identitySize ++
    ByteFields.ofNat 1 major ++ ByteFields.ofNat 1 minor ++ ByteFields.ofNat 2 flags ++
    ByteFields.ofNat 4 span ++ ByteFields.ofNat 4 crc32 ++ packBytes 16 sourceId ++
    ByteFields.ofNat 4 contentLength ++ List.replicate 24 0xFF

/-- The one block of a layout with these contents: its CRC is that of the
coverage and the block without it. -/
def block (layout : ImageLayout) (major minor : Nat) (sourceId : Bytes) (flags : Nat) : Bytes :=
  let fields := fieldBytes major minor sourceId flags layout.span.toNat layout.coverage.length
  fields (crc32IsoHdlc (layout.coverage ++ fields 0))

theorem packNat_eq_ok (n : Nat) (v : Int) (b : Bytes) :
    packNat n v = .ok b ↔ (0 ≤ v ∧ v.toNat < 256 ^ n) ∧ b = ByteFields.ofNat n v.toNat := by
  simp only [packNat, failIf_bind_eq_ok, not_or, Int.not_lt, Nat.not_le, pure_eq_ok]

theorem crc32IsoHdlc_lt (data : Bytes) : crc32IsoHdlc data < 256 ^ 4 := BitVec.isLt _

theorem packBytes_length (n : Nat) (bytes : Bytes) : (packBytes n bytes).length = n := by
  simp [packBytes]

theorem packBytes_pad {n : Nat} {bytes : Bytes} (h : bytes.length ≤ n) :
    packBytes n bytes = bytes ++ List.replicate (n - bytes.length) 0 := by
  rw [packBytes, List.take_append, List.take_of_length_le h, List.take_replicate,
    Nat.min_eq_left (Nat.sub_le n bytes.length)]

theorem packBytes_eq {n : Nat} {bytes : Bytes} (h : bytes.length = n) : packBytes n bytes = bytes := by
  rw [packBytes, ← h, List.take_left]

theorem buildIdentity_eq_ok {major minor flags : Nat} {sourceId : Bytes}
    {span contentLength crc32 : Int} {b : Bytes} :
    buildIdentity major minor sourceId flags span contentLength crc32 = .ok b ↔
      (major < 256 ∧ minor < 256 ∧ flags < 256 ^ 2 ∧ (0 ≤ span ∧ span.toNat < 256 ^ 4) ∧
        (0 ≤ crc32 ∧ crc32.toNat < 256 ^ 4) ∧ 0 ≤ contentLength ∧ contentLength.toNat < 256 ^ 4) ∧
      b = fieldBytes major minor sourceId flags span.toNat contentLength.toNat crc32.toNat := by
  simp only [buildIdentity, bind_eq_ok, packNat_eq_ok, pure_eq_ok]
  constructor
  · rintro ⟨_, ⟨-, rfl⟩, _, ⟨-, rfl⟩, _, ⟨⟨-, ma⟩, rfl⟩, _, ⟨⟨-, mi⟩, rfl⟩, _, ⟨⟨-, fl⟩, rfl⟩, _,
      ⟨sp, rfl⟩, _, ⟨cr, rfl⟩, _, ⟨co, rfl⟩, rfl⟩
    exact ⟨⟨by simpa using ma, by simpa using mi, by simpa using fl, sp, cr, co⟩, rfl⟩
  · rintro ⟨⟨ma, mi, fl, sp, cr, co⟩, rfl⟩
    exact ⟨_, ⟨by decide, rfl⟩, _, ⟨by decide, rfl⟩, _, ⟨⟨by simp, by simpa using ma⟩, rfl⟩, _,
      ⟨⟨by simp, by simpa using mi⟩, rfl⟩, _, ⟨⟨by simp, by simpa using fl⟩, rfl⟩, _, ⟨sp, rfl⟩, _,
      ⟨cr, rfl⟩, _, ⟨co, rfl⟩, rfl⟩

/-! ## What the parsers accept -/

/-- A byte that a source identifier may contain. -/
def Printable (byte : BitVec 8) : Prop := 0x21 ≤ byte.toNat ∧ byte.toNat ≤ 0x7E

/-- A nonempty printable identifier of at most 16 bytes. -/
structure SourceText (text : Bytes) : Prop where
  nonempty : text ≠ []
  fits : text.length ≤ 16
  printable : ∀ byte ∈ text, Printable byte

/-- The bytes of an ASCII text. -/
def asciiBytes (text : List Char) : Bytes := text.map fun c => BitVec.ofNat 8 c.toNat

theorem encodeSourceId_eq_ok {sourceId : List Char} {b : Bytes} (h : encodeSourceId sourceId = .ok b) :
    SourceText (asciiBytes sourceId) ∧ b = packBytes 16 (asciiBytes sourceId) := by
  simp only [encodeSourceId, failIf_bind_eq_ok, pure_eq_ok, List.any_eq_true, decide_eq_true_eq,
    not_or, not_exists, not_and, Nat.not_lt] at h
  obtain ⟨-, ⟨nonempty, fits, printable⟩, rfl⟩ := h
  exact ⟨⟨nonempty, fits, printable⟩, (packBytes_pad fits).symm⟩

theorem encodeSourceId_text {text : Bytes} (h : SourceText text) :
    encodeSourceId (text.map fun byte => Char.ofNat byte.toNat) = .ok (packBytes 16 text) := by
  have char : ∀ byte ∈ text, (Char.ofNat byte.toNat).toNat = byte.toNat := by
    intro byte mem
    have small := (h.printable byte mem).2
    have ascii : ∀ n < 0x80, (Char.ofNat n).toNat = n := by decide
    exact ascii _ (by omega)
  have encoded : (text.map fun byte => Char.ofNat byte.toNat).map
      (fun c => BitVec.ofNat 8 c.toNat) = text := by
    rw [List.map_map]
    conv_rhs => rw [← List.map_id text]
    refine List.map_congr_left fun byte mem => ?_
    simp [char byte mem]
  simp only [encodeSourceId, failIf_bind_eq_ok, pure_eq_ok, List.any_eq_true, decide_eq_true_eq,
    encoded, packBytes_pad h.fits, and_true]
  refine ⟨?_, ?_⟩
  · rintro ⟨c, listed, high⟩
    obtain ⟨byte, mem, rfl⟩ := List.mem_map.mp listed
    have small := (h.printable byte mem).2
    rw [char byte mem] at high
    omega
  · rintro (none | long | ⟨byte, mem, bad⟩)
    · exact h.nonempty none
    · exact absurd h.fits (Nat.not_le.mpr long)
    · have := h.printable byte mem
      unfold Printable at this
      omega

theorem decimal_lt {c : Char} {d : Nat} (h : decimal c = some d) : d < 10 := by
  simp only [decimal, Option.map_eq_some_iff] at h
  obtain ⟨digit, found, rfl⟩ := h
  have inside := List.find?_some found
  simp only [decide_eq_true_eq] at inside
  omega

/-- Two decimal digits in the nibbles of a byte. -/
def Bcd (byte : Nat) : Prop := byte / 16 < 10 ∧ byte % 16 < 10

instance : DecidablePred Bcd := fun _ => inferInstanceAs (Decidable (_ ∧ _))

theorem bcdByte_bcd {part : List Char} {byte : Nat} (h : bcdByte part = some byte) : Bcd byte := by
  unfold bcdByte at h
  split at h
  · simp only [Option.bind_eq_bind, Option.bind_eq_some_iff, Option.pure_def, Option.some.injEq] at h
    obtain ⟨high, hh, low, hl, rfl⟩ := h
    have := decimal_lt hh
    have := decimal_lt hl
    exact ⟨by omega, by omega⟩
  · cases h

theorem parseBcdVersion_bcd {value : List Char} {major minor : Nat}
    (h : parseBcdVersion value = .ok (major, minor)) : Bcd major ∧ Bcd minor := by
  unfold parseBcdVersion at h
  split at h
  next major' minor' parts =>
    cases h
    have mem : ∀ byte, some byte ∈ (value.splitOn '.').map bcdByte → Bcd byte := by
      intro byte mem
      obtain ⟨part, -, found⟩ := List.mem_map.mp mem
      exact bcdByte_bcd found
    rw [parts] at mem
    exact ⟨mem _ (by simp), mem _ (by simp)⟩
  · cases h

def digitChar (d : Nat) : Char := Char.ofNat (0x30 + d)

theorem decimal_digitChar {d : Nat} (h : d < 10) : decimal (digitChar d) = some d := by
  have all : ∀ d < 10, decimal (digitChar d) = some d := by decide
  exact all d h

theorem digitChar_ne {d : Nat} (h : d < 10) : digitChar d ≠ '.' := by
  have all : ∀ d < 10, digitChar d ≠ '.' := by decide
  exact all d h

/-- The version string of two BCD bytes. -/
def versionText (major minor : Nat) : List Char :=
  [digitChar (major / 16), digitChar (major % 16), '.', digitChar (minor / 16),
    digitChar (minor % 16)]

theorem parseBcdVersion_text {major minor : Nat} (ma : Bcd major) (mi : Bcd minor) :
    parseBcdVersion (versionText major minor) = .ok (major, minor) := by
  have split : (versionText major minor).splitOn '.' =
      [[digitChar (major / 16), digitChar (major % 16)],
        [digitChar (minor / 16), digitChar (minor % 16)]] := by
    simp [versionText, List.splitOn, List.splitOnP, List.splitOnPPrepend, digitChar_ne ma.1,
      digitChar_ne ma.2, digitChar_ne mi.1, digitChar_ne mi.2]
  simp only [parseBcdVersion, split, List.map_cons, List.map_nil, bcdByte, decimal_digitChar ma.1,
    decimal_digitChar ma.2, decimal_digitChar mi.1, decimal_digitChar mi.2, Option.bind_eq_bind,
    Option.bind_some, Option.pure_def, Except.ok.injEq, Prod.mk.injEq]
  omega

/-! ## What `decode_identity` accepts -/

theorem fieldBytes_length (major minor flags span contentLength crc32 : Nat) (sourceId : Bytes) :
    (fieldBytes major minor sourceId flags span contentLength crc32).length = identitySize := by
  simp [fieldBytes, identityMagic, packBytes_length, identitySize]

theorem fieldBytes_slices (major minor flags span contentLength crc32 : Nat) (sourceId : Bytes) :
    let b := fieldBytes major minor sourceId flags span contentLength crc32
    slice b 0 4 = identityMagic ∧ slice b 4 2 = ByteFields.ofNat 2 identityFormatVersion ∧
      slice b 6 2 = ByteFields.ofNat 2 identitySize ∧ slice b 8 1 = ByteFields.ofNat 1 major ∧
      slice b 9 1 = ByteFields.ofNat 1 minor ∧ slice b 10 2 = ByteFields.ofNat 2 flags ∧
      slice b 12 4 = ByteFields.ofNat 4 span ∧ slice b 16 4 = ByteFields.ofNat 4 crc32 ∧
      slice b 20 16 = packBytes 16 sourceId ∧ slice b 36 4 = ByteFields.ofNat 4 contentLength ∧
      slice b 40 24 = List.replicate 24 0xFF := by
  simp [fieldBytes, slice, List.drop_append, List.take_append, List.drop_eq_nil_of_le,
    packBytes_length, identityMagic]

theorem slices_join {b : Bytes} (h : b.length = identitySize) :
    b = slice b 0 4 ++ slice b 4 2 ++ slice b 6 2 ++ slice b 8 1 ++ slice b 9 1 ++ slice b 10 2 ++
      slice b 12 4 ++ slice b 16 4 ++ slice b 20 16 ++ slice b 36 4 ++ slice b 40 24 := by
  have last : slice b 40 24 = b.drop 40 := List.take_of_length_le (by simp [h, identitySize])
  rw [last]
  simp only [List.append_assoc]
  rw [show slice b 36 4 ++ b.drop 40 = b.drop 36 from slice_append_drop b 36 4,
    show slice b 20 16 ++ b.drop 36 = b.drop 20 from slice_append_drop b 20 16,
    show slice b 16 4 ++ b.drop 20 = b.drop 16 from slice_append_drop b 16 4,
    show slice b 12 4 ++ b.drop 16 = b.drop 12 from slice_append_drop b 12 4,
    show slice b 10 2 ++ b.drop 12 = b.drop 10 from slice_append_drop b 10 2,
    show slice b 9 1 ++ b.drop 10 = b.drop 9 from slice_append_drop b 9 1,
    show slice b 8 1 ++ b.drop 9 = b.drop 8 from slice_append_drop b 8 1,
    show slice b 6 2 ++ b.drop 8 = b.drop 6 from slice_append_drop b 6 2,
    show slice b 4 2 ++ b.drop 6 = b.drop 4 from slice_append_drop b 4 2,
    show slice b 0 4 ++ b.drop 4 = b.drop 0 from slice_append_drop b 0 4, List.drop_zero]


theorem number_eq {b : Bytes} {a n v : Nat} (fits : a + n ≤ b.length) (h : toNat (slice b a n) = v) :
    slice b a n = ByteFields.ofNat n v := by
  rw [← h]
  conv_lhs => rw [← ofNat_toNat (slice b a n), slice_length fits]

/-- The contents that a decoded block of a layout has. -/
structure Fits (layout : ImageLayout) (d : Identity) : Prop where
  major : d.major < 256
  minor : d.minor < 256
  flags : d.flags < 4
  source : SourceText d.sourceId
  span : (d.span : Int) = layout.span ∧ d.span < 256 ^ 4
  content : d.contentLength = layout.coverage.length ∧ d.contentLength < 256 ^ 4
  crc32 : d.crc32 = crc32IsoHdlc (layout.coverage ++
    fieldBytes d.major d.minor d.sourceId d.flags layout.span.toNat layout.coverage.length 0)

theorem flags_allowed {flags : Nat} (small : flags < 256 ^ 2) :
    flags &&& (0xFFFF ^^^ identityFlagsAllowed) = 0 ↔ flags < 4 := by
  have mask : ∀ i < 16, 2 ≤ i → (0xFFFF ^^^ identityFlagsAllowed).testBit i = true := by decide
  constructor
  · intro clear
    have high : flags >>> 2 = 0 := by
      apply Nat.eq_of_testBit_eq
      intro i
      rw [Nat.testBit_shiftRight, Nat.zero_testBit]
      rcases Nat.lt_or_ge (2 + i) 16 with inside | beyond
      · have bit := congrArg (Nat.testBit · (2 + i)) clear
        simpa [Nat.testBit_and, mask (2 + i) inside (by omega)] using bit
      · have fits : flags < 2 ^ 16 := by simpa using small
        exact Nat.testBit_lt_two_pow (lt_of_lt_of_le fits (Nat.pow_le_pow_right (by omega) beyond))
    rw [Nat.shiftRight_eq_div_pow] at high
    omega
  · intro low
    have all : ∀ flags < 4, flags &&& (0xFFFF ^^^ identityFlagsAllowed) = 0 := by decide
    exact all flags low

theorem padded_eq {source : Bytes} (len : source.length = 16)
    (padded : source.dropWhile (· ≠ 0) = List.replicate (16 - (source.takeWhile (· ≠ 0)).length) 0) :
    source = packBytes 16 (source.takeWhile (· ≠ 0)) := by
  have short : (source.takeWhile (· ≠ 0)).length ≤ 16 := by
    rw [← len]
    exact (List.takeWhile_sublist _).length_le
  rw [packBytes_pad short, ← padded, List.takeWhile_append_dropWhile]

theorem patch_crc (major minor flags span contentLength crc32 : Nat) (sourceId : Bytes) :
    patch (fieldBytes major minor sourceId flags span contentLength crc32) identityCrcOffset
      (List.replicate identityCrcSize 0) =
      fieldBytes major minor sourceId flags span contentLength 0 := by
  simp [fieldBytes, patch, List.drop_append, packBytes_length, identityMagic, identityCrcOffset,
    identityCrcSize, ByteFields.ofNat]

theorem decodeIdentity_fits {identity : Bytes} {layout : ImageLayout} {d : Identity}
    (h : decodeIdentity identity layout = .ok d) :
    Fits layout d ∧ identity = block layout d.major d.minor d.sourceId d.flags := by
  simp only [decodeIdentity, failIf_bind_eq_ok, pure_eq_ok, List.any_eq_true, decide_eq_true_eq,
    not_or, not_exists, not_and, ne_eq, Classical.not_not, Nat.not_lt] at h
  obtain ⟨length, magic, ⟨format, size⟩, flags, span, content, reserved, ⟨nonempty, printable⟩,
    padded, crc, rfl⟩ := h
  have number : ∀ a n, a + n ≤ identitySize → slice identity a n =
      ByteFields.ofNat n (toNat (slice identity a n)) := fun a n fits =>
    number_eq (by rw [length]; exact fits) rfl
  have below : ∀ a n, a + n ≤ identitySize → toNat (slice identity a n) < 256 ^ n := by
    intro a n fits
    have bound := toNat_lt (slice identity a n)
    rwa [slice_length (by rw [length]; exact fits)] at bound
  have sourceLength : (slice identity 20 16).length = 16 := slice_length (by rw [length]; decide)
  have text := padded_eq sourceLength padded
  have joined : identity = fieldBytes (toNat (slice identity 8 1)) (toNat (slice identity 9 1))
      ((slice identity 20 16).takeWhile (· ≠ 0)) (toNat (slice identity 10 2)) layout.span.toNat
      layout.coverage.length (toNat (slice identity 16 4)) := by
    have spanNat : layout.span.toNat = toNat (slice identity 12 4) := by omega
    rw [spanNat, ← content, fieldBytes, ← text, ← magic, ← format, ← size, ← number 4 2 (by decide),
      ← number 6 2 (by decide), ← number 8 1 (by decide), ← number 9 1 (by decide),
      ← number 10 2 (by decide), ← number 12 4 (by decide), ← number 16 4 (by decide),
      ← number 36 4 (by decide), ← reserved]
    exact slices_join length
  have zeroed : patch identity identityCrcOffset (List.replicate identityCrcSize 0) =
      fieldBytes (toNat (slice identity 8 1)) (toNat (slice identity 9 1))
        ((slice identity 20 16).takeWhile (· ≠ 0)) (toNat (slice identity 10 2)) layout.span.toNat
        layout.coverage.length 0 := by
    conv_lhs => rw [joined]
    exact patch_crc ..
  have crc' : toNat (slice identity 16 4) = _ := crc
  rw [zeroed] at crc crc'
  refine ⟨⟨by simpa using below 8 1 (by decide), by simpa using below 9 1 (by decide),
    (flags_allowed (below 10 2 (by decide))).mp flags, ⟨nonempty, ?_, fun byte mem => ?_⟩,
    ⟨span, below 12 4 (by decide)⟩, ⟨content, below 36 4 (by decide)⟩, crc⟩, ?_⟩
  · exact (List.takeWhile_sublist _).length_le.trans_eq sourceLength
  · exact printable byte mem
  · rw [block]
    dsimp only
    rw [← crc']
    exact joined

theorem source_text {text : Bytes} (h : SourceText text) :
    (packBytes 16 text).takeWhile (· ≠ 0) = text ∧
      (packBytes 16 text).dropWhile (· ≠ 0) = List.replicate (16 - text.length) 0 := by
  have nonzero : ∀ byte ∈ text, decide (byte ≠ 0) = true := by
    intro byte mem
    have visible := (h.printable byte mem).1
    refine decide_eq_true fun zero => ?_
    rw [zero] at visible
    exact absurd visible (by decide)
  have padding : (List.replicate (16 - text.length) (0 : BitVec 8)).takeWhile (· ≠ 0) = [] := by
    cases 16 - text.length <;> simp
  have padding' : (List.replicate (16 - text.length) (0 : BitVec 8)).dropWhile (· ≠ 0) =
      List.replicate (16 - text.length) 0 := by
    cases 16 - text.length <;> simp [List.replicate]
  rw [packBytes_pad h.fits]
  exact ⟨by rw [List.takeWhile_append_of_pos nonzero, padding, List.append_nil],
    by rw [List.dropWhile_append_of_pos nonzero, padding']⟩

/-- `decode_identity` accepts the block of its own findings and no other. -/
theorem decodeIdentity_iff {identity : Bytes} {layout : ImageLayout} {d : Identity} :
    decodeIdentity identity layout = .ok d ↔
      Fits layout d ∧ identity = block layout d.major d.minor d.sourceId d.flags := by
  constructor
  · exact decodeIdentity_fits
  · rintro ⟨fits, rfl⟩
    obtain ⟨magic, format, size, major, minor, flags, span, crc, source, content, reserved⟩ :=
      fieldBytes_slices d.major d.minor d.flags layout.span.toNat layout.coverage.length
        (crc32IsoHdlc (layout.coverage ++ fieldBytes d.major d.minor d.sourceId d.flags
          layout.span.toNat layout.coverage.length 0)) d.sourceId
    obtain ⟨text, padding⟩ := source_text fits.source
    have spanFits : layout.span.toNat < 256 ^ 4 := by have := fits.span; omega
    have contentFits : layout.coverage.length < 256 ^ 4 := fits.content.1 ▸ fits.content.2
    have crcFits := crc32IsoHdlc_lt (layout.coverage ++ fieldBytes d.major d.minor d.sourceId
      d.flags layout.span.toNat layout.coverage.length 0)
    have flagsFit : d.flags < 256 ^ 2 := lt_trans fits.flags (by decide)
    have majorFits : d.major < 256 ^ 1 := by simpa using fits.major
    have minorFits : d.minor < 256 ^ 1 := by simpa using fits.minor
    have crc' : slice _ identityCrcOffset identityCrcSize = _ := crc
    have formatFits : identityFormatVersion < 256 ^ 2 := by decide
    have sizeFits : identitySize < 256 ^ 2 := by decide
    simp only [decodeIdentity, failIf_bind_eq_ok, pure_eq_ok, List.any_eq_true, decide_eq_true_eq, block, fieldBytes_length, magic,
      format, size, major, minor, flags, span, crc', source, content, reserved, text, padding,
      patch_crc, toNat_ofNat formatFits, toNat_ofNat sizeFits, toNat_ofNat majorFits,
      toNat_ofNat minorFits, toNat_ofNat flagsFit, toNat_ofNat spanFits, toNat_ofNat contentFits,
      toNat_ofNat crcFits, (flags_allowed flagsFit).mpr fits.flags]
    have spanEq : (layout.span.toNat : Int) = layout.span := by have := fits.span; omega
    have printable : ¬∃ byte ∈ d.sourceId, byte.toNat < 0x21 ∨ 0x7E < byte.toNat := by
      rintro ⟨byte, mem, bad⟩
      have := fits.source.printable byte mem
      unfold Printable at this
      omega
    have found : d = ⟨d.major, d.minor, d.flags, crc32IsoHdlc (layout.coverage ++
        fieldBytes d.major d.minor d.sourceId d.flags layout.span.toNat layout.coverage.length 0),
        d.sourceId, layout.span.toNat, layout.coverage.length⟩ := by
      have spanNat : d.span = layout.span.toNat := by have := fits.span; omega
      rw [← fits.crc32, ← spanNat, ← fits.content.1]
    simp only [ne_eq, not_true_eq_false, not_false_eq_true, or_self, true_and, spanEq,
      printable, fits.source.nonempty]
    exact found

/-! ## What `stamp` builds -/

theorem Bcd.lt {byte : Nat} (h : Bcd byte) : byte < 256 := by
  have := h.1
  omega

theorem flags_lt (args : StampArgs) : args.flags < 4 := by
  have all : ∀ dirty debug : Bool, (if dirty then identityFlagSourceDirty else 0) |||
      (if debug then identityFlagDebug else 0) < 4 := by decide
  exact all args.sourceDirty args.debug

theorem block_packBytes (layout : ImageLayout) (major minor flags : Nat) (text : Bytes) :
    block layout major minor (packBytes 16 text) flags = block layout major minor text flags := by
  simp only [block, fieldBytes, packBytes_eq (packBytes_length 16 text)]

theorem block_version (layout : ImageLayout) {major minor : Nat} (source : Bytes) (flags : Nat)
    (ma : major < 256) (mi : minor < 256) :
    toNat (slice (block layout major minor source flags) 8 1) = major ∧
      toNat (slice (block layout major minor source flags) 9 1) = minor := by
  obtain ⟨-, -, -, eight, nine, -⟩ := fieldBytes_slices major minor flags layout.span.toNat
    layout.coverage.length (crc32IsoHdlc (layout.coverage ++
      fieldBytes major minor source flags layout.span.toNat layout.coverage.length 0)) source
  rw [block, eight, nine]
  exact ⟨toNat_ofNat (by simpa using ma), toNat_ofNat (by simpa using mi)⟩

theorem stampedIdentity_iff {layout : ImageLayout} {args : StampArgs} {b : Bytes} :
    stampedIdentity layout args = .ok b ↔
      ∃ major minor source, parseBcdVersion args.version = .ok (major, minor) ∧
        encodeSourceId args.sourceId = .ok source ∧
        (0 ≤ layout.span ∧ layout.span.toNat < 256 ^ 4) ∧ layout.coverage.length < 256 ^ 4 ∧
        b = block layout major minor source args.flags := by
  simp only [stampedIdentity, bind_eq_ok, buildIdentity_eq_ok, Int.toNat_natCast, Int.toNat_zero]
  constructor
  · rintro ⟨⟨major, minor⟩, version, source, encoded, _, ⟨⟨-, -, -, span, -, -, content⟩, rfl⟩, -, rfl⟩
    exact ⟨major, minor, source, version, encoded, span, content, rfl⟩
  · rintro ⟨major, minor, source, version, encoded, span, content, rfl⟩
    obtain ⟨ma, mi⟩ := parseBcdVersion_bcd version
    have flags : args.flags < 256 ^ 2 := lt_trans (flags_lt args) (by decide)
    exact ⟨(major, minor), version, source, encoded, _,
      ⟨⟨ma.lt, mi.lt, flags, span, by decide, by simp, content⟩, rfl⟩,
      ⟨ma.lt, mi.lt, flags, span, ⟨by simp, crc32IsoHdlc_lt _⟩, by simp, content⟩, rfl⟩

/-- A block that `stamp` builds passes its own check, with the stamped values. -/
theorem stampedIdentity_decoded {layout : ImageLayout} {args : StampArgs} {b : Bytes}
    (built : stampedIdentity layout args = .ok b) : ∃ d, decodeIdentity b layout = .ok d ∧
      parseBcdVersion args.version = .ok (d.major, d.minor) ∧
      d.sourceId = asciiBytes args.sourceId ∧ d.flags = args.flags := by
  obtain ⟨major, minor, source, version, encoded, span, content, rfl⟩ := stampedIdentity_iff.mp built
  obtain ⟨ma, mi⟩ := parseBcdVersion_bcd version
  obtain ⟨text, rfl⟩ := encodeSourceId_eq_ok encoded
  exact ⟨⟨major, minor, args.flags, crc32IsoHdlc (layout.coverage ++
      fieldBytes major minor (asciiBytes args.sourceId) args.flags layout.span.toNat
        layout.coverage.length 0), asciiBytes args.sourceId, layout.span.toNat, layout.coverage.length⟩,
    decodeIdentity_iff.mpr ⟨⟨ma.lt, mi.lt, flags_lt args, text,
      ⟨Int.toNat_of_nonneg span.1, span.2⟩, ⟨rfl, content⟩, rfl⟩, block_packBytes ..⟩,
    version, rfl, rfl⟩

/-- Arguments for which `stamp` builds a decoded block. -/
def Identity.args (d : Identity) : StampArgs where
  version := versionText d.major d.minor
  sourceId := d.sourceId.map fun byte => Char.ofNat byte.toNat
  sourceDirty := decide (d.flags % 2 = 1)
  debug := decide (d.flags / 2 = 1)

theorem Identity.args_flags {d : Identity} (small : d.flags < 4) : d.args.flags = d.flags := by
  have all : ∀ flags < 4, (⟨[], [], decide (flags % 2 = 1), decide (flags / 2 = 1)⟩ : StampArgs).flags =
      flags := by decide
  exact all d.flags small

/-- The version bytes of a block. -/
def BcdVersion (identity : Bytes) : Prop :=
  Bcd (toNat (slice identity 8 1)) ∧ Bcd (toNat (slice identity 9 1))

instance : DecidablePred BcdVersion := fun _ => inferInstanceAs (Decidable (_ ∧ _))

theorem stampedIdentity_bcd {layout : ImageLayout} {args : StampArgs} {identity : Bytes}
    (built : stampedIdentity layout args = .ok identity) : BcdVersion identity := by
  obtain ⟨major, minor, source, version, -, -, -, rfl⟩ := stampedIdentity_iff.mp built
  obtain ⟨ma, mi⟩ := parseBcdVersion_bcd version
  obtain ⟨eight, nine⟩ := block_version layout source args.flags ma.lt mi.lt
  exact ⟨by rwa [eight], by rwa [nine]⟩

/-- The decoder leaves the version bytes unchecked: of the blocks it accepts,
`stamp` can build exactly those whose version is BCD. No two of them share
version, source identifier and flags. -/
theorem decoded_stampable_iff (layout : ImageLayout) (identity : Bytes) (d : Identity)
    (accepted : decodeIdentity identity layout = .ok d) :
    ((∃ args, stampedIdentity layout args = .ok identity) ↔ BcdVersion identity) ∧
      ∀ other e, decodeIdentity other layout = .ok e → e.major = d.major → e.minor = d.minor →
        e.sourceId = d.sourceId → e.flags = d.flags → other = identity := by
  obtain ⟨fits, rfl⟩ := decodeIdentity_iff.mp accepted
  refine ⟨⟨fun ⟨args, built⟩ => stampedIdentity_bcd built, fun bcd => ⟨d.args, ?_⟩⟩, ?_⟩
  · obtain ⟨eight, nine⟩ := block_version layout d.sourceId d.flags fits.major fits.minor
    rw [BcdVersion, eight, nine] at bcd
    refine stampedIdentity_iff.mpr ⟨d.major, d.minor, _, parseBcdVersion_text bcd.1 bcd.2,
      encodeSourceId_text fits.source, ?_, fits.content.1 ▸ fits.content.2, ?_⟩
    · have := fits.span
      omega
    · rw [block_packBytes, Identity.args_flags fits.flags]
  · intro other e accepted' major minor source flags
    obtain ⟨-, rfl⟩ := decodeIdentity_iff.mp accepted'
    rw [major, minor, source, flags]

/-- An image of one byte on 128 bytes of flash. -/
def sampleLayout : ImageLayout := ⟨0, 128, 1, 64, 0, 64, [0x5A]⟩

/-- Version 01.02, source identifier `a`, a debug build. -/
def sampleBlock : Bytes := block sampleLayout 0x01 0x02 [0x61] 2

theorem decoded_stampable_iff_sample : ∃ args, stampedIdentity sampleLayout args = .ok sampleBlock :=
  (decoded_stampable_iff sampleLayout sampleBlock ⟨1, 2, 2, 2301052891, [0x61], 128, 1⟩
    (by decide +kernel)).1.mpr (by decide +kernel)

/-- The same with version 1A.02: the decoder accepts it, and `stamp` cannot build it. -/
def unstampable : Bytes := block sampleLayout 0x1A 0x02 [0x61] 2

theorem decoded_unstampable : ¬∀ (layout : ImageLayout) (identity : Bytes) (d : Identity),
    decodeIdentity identity layout = .ok d → ∃ args, stampedIdentity layout args = .ok identity := by
  intro always
  obtain ⟨args, built⟩ := always sampleLayout unstampable
    ⟨0x1A, 2, 2, 1091622443, [0x61], 128, 1⟩ (by decide +kernel)
  exact absurd (stampedIdentity_bcd built) (by decide +kernel)

end MspmBaremetal.ImageTool
