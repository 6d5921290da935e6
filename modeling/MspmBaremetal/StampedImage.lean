import MspmBaremetal.ImageArtifacts
import MspmBaremetal.InterpretedBytes

/-!
# Files that `stamp` leaves

`stamp` computes the identity from the file as it finds it and then checks its
own result against that layout. A later `verify` reads the layout from the file
with the identity in it: the same one if no byte of the identity section was
interpreted.
-/

namespace MspmBaremetal.ImageTool

open ByteFields

/-- No byte of the range is among the `n` bytes from `a` on. -/
def FileRange.Clear (range : FileRange) (a n : Nat) : Prop :=
  range.size = 0 ∨ range.start + range.size ≤ a ∨ a + n ≤ range.start

instance (range : FileRange) (a n : Nat) : Decidable (range.Clear a n) :=
  inferInstanceAs (Decidable (_ ∨ _ ∨ _))

theorem slice_patch_of_clear {data new : Bytes} {a : Nat} (fits : a + new.length ≤ data.length)
    {range : FileRange} (clear : range.Clear a new.length) :
    slice (patch data a new) range.start range.size = slice data range.start range.size := by
  rcases clear with none | apart
  · rw [none, slice, slice, List.take_zero, List.take_zero]
  · exact slice_patch_of_disjoint fits apart

section Apart

variable (elf : ElfArgs) (file : Bytes) (header : Elf32Header) (image : Elf32Image) (layout : ImageLayout)

/-- What is read of a file. -/
structure Reads : Prop where
  headed : readHeader elf.path file = .ok header
  read : readElf elf.path file = .ok image
  made : makeLayout image elf.flashOrigin elf.flashLength = .ok layout

/-- Headers, names and symbols are read from outside the identity section. -/
def ParsedApart : Prop :=
  ∀ range ∈ parsedRanges header image layout, range.Clear layout.identityOffset identitySize

/-- No covered byte lies in the identity section. -/
def CoverageApart : Prop :=
  ∀ i < layout.coverage.length, coveredIndex image layout i < layout.identityOffset ∨
    layout.identityOffset + identitySize ≤ coveredIndex image layout i

instance : Decidable (ParsedApart header image layout) := inferInstanceAs (Decidable (∀ _ ∈ _, _))

instance : Decidable (CoverageApart image layout) :=
  inferInstanceAs (Decidable (∀ i < layout.coverage.length, _))

end Apart

/-- No interpreted byte of the file lies in the identity section. -/
def IdentityApart (elf : ElfArgs) (file : Bytes) : Prop :=
  ∃ header image layout, Reads elf file header image layout ∧ ParsedApart header image layout ∧
    CoverageApart image layout

/-- `verify` reads the stamped values back, and another `stamp` changes nothing. -/
structure Reverifies (elf : ElfArgs) (args : StampArgs) (file : Bytes) : Prop where
  verified : ∃ report, verify elf file none none = .ok report ∧
    parseBcdVersion args.version = .ok (report.major, report.minor) ∧
    report.sourceId = asciiBytes args.sourceId ∧ report.flags = args.flags
  restamped : stamp elf args file = (.ok (), file)

theorem readElf_data {path : String} {file : Bytes} {image : Elf32Image}
    (read : readElf path file = .ok image) : image.data = file := by
  simp only [readElf, bind_eq_ok, pure_eq_ok] at read
  obtain ⟨-, -, -, -, -, -, -, -, rfl⟩ := read
  rfl

theorem block_length (layout : ImageLayout) (major minor flags : Nat) (source : Bytes) :
    (block layout major minor source flags).length = identitySize := fieldBytes_length ..

theorem stampedIdentity_length {layout : ImageLayout} {args : StampArgs} {b : Bytes}
    (built : stampedIdentity layout args = .ok b) : b.length = identitySize := by
  obtain ⟨-, -, -, -, -, -, -, rfl⟩ := stampedIdentity_iff.mp built
  exact block_length ..

/-- What `stamp` has computed when it saves the file: the block is in it. -/
theorem stampImage_eq_ok {elf : ElfArgs} {args : StampArgs} {file : Bytes} {stamped : Elf32Image}
    {layout : ImageLayout} : stampImage elf args file = .ok (stamped, layout) ↔
      ∃ image identity, readElf elf.path file = .ok image ∧
        makeLayout image elf.flashOrigin elf.flashLength = .ok layout ∧
        stampedIdentity layout args = .ok identity ∧
        stamped = { image with data := patch file layout.identityOffset identity } := by
  simp only [stampImage, writeIdentity, bind_eq_ok, failIf_eq_ok, pure_eq_ok, Prod.mk.injEq]
  constructor
  · rintro ⟨image, read, layout, made, identity, built, _, ⟨-, -, rfl⟩, rfl, rfl⟩
    exact ⟨image, identity, read, made, built, by rw [readElf_data read]⟩
  · rintro ⟨image, identity, read, made, built, rfl⟩
    obtain ⟨-, -, -, h⟩ := makeLayout_layoutOf made
    have length : identity.length = layout.identitySize :=
      (stampedIdentity_length built).trans h.size.symm
    exact ⟨image, read, layout, made, identity, built, _, ⟨(), not_not.mpr length, rfl⟩,
      by rw [readElf_data read], rfl⟩

/-- The check that `stamp` makes of its own result passes. -/
theorem stampImage_verifies {elf : ElfArgs} {args : StampArgs} {file : Bytes} {stamped : Elf32Image}
    {layout : ImageLayout} (computed : stampImage elf args file = .ok (stamped, layout)) :
    ∃ identity found, verifyElf stamped layout = .ok (identity, found) := by
  obtain ⟨image, identity, read, made, built, rfl⟩ := stampImage_eq_ok.mp computed
  obtain ⟨-, -, -, h⟩ := makeLayout_layoutOf made
  obtain ⟨found, decoded, -⟩ := stampedIdentity_decoded built
  have inFile := h.inFile
  rw [readElf_data read, ← stampedIdentity_length built] at inFile
  refine ⟨identity, found, verifyElf_eq_ok.mpr ⟨?_, decoded⟩⟩
  rw [h.size, ← stampedIdentity_length built, slice_patch_self inFile]

/-- `stamp` succeeds if it can build a block, and puts this into the file. -/
theorem stamp_eq_ok {elf : ElfArgs} {args : StampArgs} {file file' : Bytes} :
    stamp elf args file = (.ok (), file') ↔ ∃ image layout identity,
      readElf elf.path file = .ok image ∧
      makeLayout image elf.flashOrigin elf.flashLength = .ok layout ∧
      stampedIdentity layout args = .ok identity ∧
      file' = patch file layout.identityOffset identity := by
  constructor
  · intro stamped
    unfold stamp at stamped
    split at stamped
    · cases stamped
    next image layout computed =>
      obtain ⟨image, identity, read, made, built, rfl⟩ := stampImage_eq_ok.mp computed
      exact ⟨image, layout, identity, read, made, built, (congrArg Prod.snd stamped).symm⟩
  · rintro ⟨image, layout, identity, read, made, built, rfl⟩
    have computed := stampImage_eq_ok.mpr ⟨image, identity, read, made, built, rfl⟩
    obtain ⟨_, _, verified⟩ := stampImage_verifies computed
    rw [stamp, computed]
    dsimp only
    rw [verified]
    rfl

/-- A file reverifies if the layout read from it has the identity that the file holds. -/
theorem reverifies_iff {elf : ElfArgs} {args : StampArgs} {file : Bytes} :
    Reverifies elf args file ↔ ∃ image layout, readElf elf.path file = .ok image ∧
      makeLayout image elf.flashOrigin elf.flashLength = .ok layout ∧
      stampedIdentity layout args = .ok (slice file layout.identityOffset identitySize) := by
  constructor
  · rintro ⟨-, restamped⟩
    obtain ⟨image, layout, identity, read, made, built, same⟩ := stamp_eq_ok.mp restamped
    obtain ⟨-, -, -, h⟩ := makeLayout_layoutOf made
    have inFile := h.inFile
    rw [readElf_data read, ← stampedIdentity_length built] at inFile
    refine ⟨image, layout, read, made, ?_⟩
    rw [same, ← stampedIdentity_length built, slice_patch_self inFile]
    exact built
  · rintro ⟨image, layout, read, made, built⟩
    obtain ⟨-, -, -, h⟩ := makeLayout_layoutOf made
    obtain ⟨report, decoded, values⟩ := stampedIdentity_decoded built
    refine ⟨⟨report, verify_eq_ok.mpr ⟨image, layout, _, read, made, verifyElf_eq_ok.mpr ⟨rfl, ?_⟩,
      by simp, by simp⟩, values⟩, stamp_eq_ok.mpr ⟨image, layout, _, read, made, built, ?_⟩⟩
    · rw [readElf_data read, h.size]
      exact decoded
    · have inFile := h.inFile
      rw [readElf_data read] at inFile
      exact (patch_slice inFile).symm

theorem crc32IsoHdlc_append (a b tail : Bytes) :
    crc32IsoHdlc (a ++ tail) = crc32IsoHdlc (b ++ tail) ↔ crc32IsoHdlc a = crc32IsoHdlc b := by
  have wide : 8 ≤ 32 := by decide
  have top : (0xEDB88320 : BitVec 32).getLsbD (32 - 1) = true := by decide
  simp only [crc32IsoHdlc, BitVec.toNat_inj, BitVec.not_inj, List.foldl_append]
  rw [Crc.foldl_feedByte _ _ tail wide, Crc.foldl_feedByte _ _ tail wide]
  exact (Crc.feed_crc_injective top _).eq_iff

theorem fieldBytes_crc32 {major minor flags span contentLength crc32 crc32' : Nat} {sourceId : Bytes}
    (small : crc32 < 256 ^ 4) (small' : crc32' < 256 ^ 4) :
    fieldBytes major minor sourceId flags span contentLength crc32 =
      fieldBytes major minor sourceId flags span contentLength crc32' ↔ crc32 = crc32' := by
  refine ⟨fun same => ?_, fun same => by rw [same]⟩
  obtain ⟨-, -, -, -, -, -, -, crc, -⟩ :=
    fieldBytes_slices major minor flags span contentLength crc32 sourceId
  obtain ⟨-, -, -, -, -, -, -, crc', -⟩ :=
    fieldBytes_slices major minor flags span contentLength crc32' sourceId
  rw [same, crc'] at crc
  rw [← toNat_ofNat small, ← toNat_ofNat small', crc]

/-- Other bytes in the coverage leave the block as it is exactly if their CRC is the same. -/
theorem stampedIdentity_coverage {layout : ImageLayout} {args : StampArgs} {b coverage : Bytes}
    (built : stampedIdentity layout args = .ok b) (length : coverage.length = layout.coverage.length) :
    stampedIdentity { layout with coverage } args = .ok b ↔
      crc32IsoHdlc coverage = crc32IsoHdlc layout.coverage := by
  obtain ⟨major, minor, source, version, encoded, span, content, rfl⟩ := stampedIdentity_iff.mp built
  have blocks : block layout major minor source args.flags =
      block { layout with coverage } major minor source args.flags ↔
        crc32IsoHdlc coverage = crc32IsoHdlc layout.coverage := by
    have same : ({ layout with coverage } : ImageLayout).span = layout.span := rfl
    simp only [block, same, length]
    rw [fieldBytes_crc32 (crc32IsoHdlc_lt _) (crc32IsoHdlc_lt _), crc32IsoHdlc_append]
    exact eq_comm
  rw [stampedIdentity_iff, ← blocks]
  constructor
  · rintro ⟨major', minor', source', version', encoded', -, -, same⟩
    cases version.symm.trans version'
    cases encoded.symm.trans encoded'
    exact same
  · intro same
    exact ⟨major, minor, source, version, encoded, span, length ▸ content, same⟩

section Stamped

variable {elf : ElfArgs} {args : StampArgs} {file file' : Bytes} {header : Elf32Header}
  {image : Elf32Image} {layout : ImageLayout}

/-- The file is stamped with a block in its identity section. -/
theorem Reads.patched (reads : Reads elf file header image layout)
    (stamped : stamp elf args file = (.ok (), file')) :
    ∃ identity, stampedIdentity layout args = .ok identity ∧
      file' = patch file layout.identityOffset identity ∧ identity.length = identitySize ∧
      layout.identityOffset + identity.length ≤ file.length := by
  obtain ⟨image', layout', identity, read', made', built, rfl⟩ := stamp_eq_ok.mp stamped
  obtain rfl : image = image' := Except.ok.inj (reads.read.symm.trans read')
  obtain rfl : layout = layout' := Except.ok.inj (reads.made.symm.trans made')
  obtain ⟨-, -, -, h⟩ := makeLayout_layoutOf made'
  have length := stampedIdentity_length built
  refine ⟨identity, built, rfl, length, ?_⟩
  rw [length, ← readElf_data reads.read]
  exact h.inFile

/-- If only covered bytes change, the file reverifies exactly if their CRC is kept. -/
theorem Reads.reverifies_iff (reads : Reads elf file header image layout)
    (stamped : stamp elf args file = (.ok (), file')) (kept : ParsedKept header image layout file') :
    Reverifies elf args file' ↔
      crc32IsoHdlc (coverageOf image layout file') = crc32IsoHdlc layout.coverage := by
  obtain ⟨identity, built, rfl, length, inFile⟩ := reads.patched stamped
  obtain ⟨header', readable, rfl⟩ := readElf_iff.mp reads.read
  obtain rfl : header = header' := Except.ok.inj (reads.headed.symm.trans readable.headed)
  have alike : Alike header (header.image file elf.path) layout
      (patch file layout.identityOffset identity) :=
    ⟨patch_length inFile, kept⟩
  have reread := readElf_iff.mpr ⟨header, alike.readable_same readable, rfl⟩
  have remade := alike.makeLayout_read readable reads.made
  have held : slice (patch file layout.identityOffset identity) layout.identityOffset identitySize =
      identity := by rw [← length, slice_patch_self inFile]
  rw [ImageTool.reverifies_iff,
    ← stampedIdentity_coverage built coverageOf_length]
  constructor
  · rintro ⟨image', layout', read', made', rebuilt⟩
    obtain rfl := Except.ok.inj (reread.symm.trans read')
    obtain rfl := Except.ok.inj (remade.symm.trans made')
    rwa [held] at rebuilt
  · intro rebuilt
    exact ⟨_, _, reread, remade, by rwa [held]⟩

/-- Bytes outside the identity section are kept. -/
theorem Reads.parsed_kept (reads : Reads elf file header image layout)
    (stamped : stamp elf args file = (.ok (), file')) (apart : ParsedApart header image layout) :
    ParsedKept header image layout file' := by
  obtain ⟨identity, -, rfl, length, inFile⟩ := reads.patched stamped
  intro range mem
  rw [readElf_data reads.read]
  exact slice_patch_of_clear inFile (length ▸ apart range mem)

/-- Covered bytes outside the identity section are kept. -/
theorem Reads.coverage_kept (reads : Reads elf file header image layout)
    (stamped : stamp elf args file = (.ok (), file')) (apart : CoverageApart image layout) :
    coverageOf image layout file' = layout.coverage := by
  obtain ⟨identity, -, rfl, length, inFile⟩ := reads.patched stamped
  obtain ⟨-, -, -, h⟩ := makeLayout_layoutOf reads.made
  rw [h.coverageOf, readElf_data reads.read]
  simp only [ImageTool.coverageOf]
  apply List.map_congr_left
  intro i mem
  have outside := apart i (List.mem_range.mp mem)
  rw [List.getD, List.getD, patch_getElem? inFile, if_neg (by omega)]

end Stamped

/-- A stamped file reverifies if no byte of its identity section was interpreted.
Wherever headers, names and symbols keep their bytes, it reverifies exactly if
the CRC of the covered bytes is the same with the identity in place. -/
theorem stamped_reverifies {elf : ElfArgs} {args : StampArgs} {file file' : Bytes}
    (stamped : stamp elf args file = (.ok (), file')) :
    (IdentityApart elf file → Reverifies elf args file') ∧
      ∃ header image layout, Reads elf file header image layout ∧
        (ParsedKept header image layout file' → (Reverifies elf args file' ↔
          crc32IsoHdlc (coverageOf image layout file') = crc32IsoHdlc layout.coverage)) := by
  constructor
  · rintro ⟨header, image, layout, reads, parsed, covered⟩
    rw [reads.reverifies_iff stamped (reads.parsed_kept stamped parsed),
      reads.coverage_kept stamped covered]
  · obtain ⟨image, layout, identity, read, made, -, -⟩ := stamp_eq_ok.mp stamped
    obtain ⟨header, readable, -⟩ := readElf_iff.mp read
    have reads : Reads elf file header image layout := ⟨readable.headed, read, made⟩
    exact ⟨header, image, layout, reads, fun kept => reads.reverifies_iff stamped kept⟩

/-- The block before it is stamped. -/
def blankBlock : Bytes := List.replicate identitySize 0xFF

/-- Version 01.02, source identifier `a`, a debug build. -/
def smallArgs : StampArgs := ⟨['0', '1', '.', '0', '2'], ['a'], false, true⟩

theorem stamped_reverifies_small :
    Reverifies smallElfArgs smallArgs (smallElf smallBlock smallSegments) := by
  have read : readElf smallElfArgs.path (smallElf blankBlock smallSegments) =
      .ok (smallImage blankBlock smallSegments) := by decide +kernel
  have made : makeLayout (smallImage blankBlock smallSegments) smallElfArgs.flashOrigin
      smallElfArgs.flashLength = .ok smallLayout := by decide +kernel
  have apart : IdentityApart smallElfArgs (smallElf blankBlock smallSegments) :=
    ⟨⟨326, 166, 2, 4, 3⟩, smallImage blankBlock smallSegments, smallLayout,
      ⟨by decide +kernel, read, made⟩, by decide +kernel, by decide +kernel⟩
  have stamped : stamp smallElfArgs smallArgs (smallElf blankBlock smallSegments) =
      (.ok (), smallElf smallBlock smallSegments) :=
    stamp_eq_ok.mpr ⟨_, _, smallBlock, read, made, by decide +kernel, by decide +kernel⟩
  exact (stamped_reverifies stamped).1 apart

/-- A segment that loads the first identity byte into the coverage. -/
def sharedSegments : List (Nat × Nat × Nat) := [(52, 0, 1), (52, 64, 64)]

/-- The layout while the first byte of the identity section is `byte`. -/
def sharedLayout (byte : BitVec 8) : ImageLayout := { smallLayout with coverage := [byte] }

/-- The identity block for the blank section. -/
def sharedBlock : Bytes := block (sharedLayout 0xFF) 0x01 0x02 [0x61] 2

/-- `stamp` changes the covered byte after it has computed the CRC. -/
theorem stamped_not_reverified : ¬∀ (elf : ElfArgs) (args : StampArgs) (file file' : Bytes),
    stamp elf args file = (.ok (), file') → Reverifies elf args file' := by
  intro always
  have stamped : stamp smallElfArgs smallArgs (smallElf blankBlock sharedSegments) =
      (.ok (), smallElf sharedBlock sharedSegments) :=
    stamp_eq_ok.mpr ⟨smallImage blankBlock sharedSegments, sharedLayout 0xFF, sharedBlock,
      by decide +kernel, by decide +kernel, by decide +kernel, by decide +kernel⟩
  obtain ⟨⟨report, verified, -⟩, -⟩ := always _ _ _ _ stamped
  obtain ⟨image, layout, identity, read, made, checked, -⟩ := verify_eq_ok.mp verified
  have read' : readElf smallElfArgs.path (smallElf sharedBlock sharedSegments) =
      .ok (smallImage sharedBlock sharedSegments) := by decide +kernel
  obtain rfl := Except.ok.inj (read'.symm.trans read)
  have made' : makeLayout (smallImage sharedBlock sharedSegments) smallElfArgs.flashOrigin
      smallElfArgs.flashLength = .ok (sharedLayout 0x4D) := by decide +kernel
  obtain rfl := Except.ok.inj (made'.symm.trans made)
  obtain ⟨rfl, decoded⟩ := verifyElf_eq_ok.mp checked
  have rejected : (decodeIdentity (slice (smallImage sharedBlock sharedSegments).data 52 64)
      (sharedLayout 0x4D)).toOption = none := by decide +kernel
  have accepted := congrArg Except.toOption decoded
  cases rejected.symm.trans accepted

end MspmBaremetal.ImageTool
