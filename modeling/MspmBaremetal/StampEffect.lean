import MspmBaremetal.StampedImage

/-!
# What `stamp` does

The block that `stamp` builds decodes to what went into it, and this block is
all that `stamp` changes in a file.
-/

namespace MspmBaremetal.ImageTool

open ByteFields

/-- The span of a layout holds its coverage. -/
theorem LayoutOf.length_le {image : Elf32Image} {layout : ImageLayout} (h : LayoutOf image layout) :
    0 ≤ layout.span ∧ layout.coverage.length ≤ layout.span := by
  have := h.content
  have := h.length
  have := h.size
  unfold ImageLayout.span ImageLayout.identityEnd
  omega

/-- The block that `stamp` builds, first without its CRC, is accepted for the
same layout and decodes to what was encoded. -/
theorem identity_round_trip {image : Elf32Image} {flashOrigin flashLength : Int}
    {layout : ImageLayout} (made : makeLayout image flashOrigin flashLength = .ok layout)
    (fits : layout.span < 2 ^ 32) (args : StampArgs) {major minor : Nat} {source : Bytes}
    (version : parseBcdVersion args.version = .ok (major, minor))
    (encoded : encodeSourceId args.sourceId = .ok source) :
    ∃ withoutCrc identity,
      buildIdentity major minor source args.flags layout.span layout.coverage.length 0 =
        .ok withoutCrc ∧
      buildIdentity major minor source args.flags layout.span layout.coverage.length
        (crc32IsoHdlc (layout.coverage ++ withoutCrc)) = .ok identity ∧
      stampedIdentity layout args = .ok identity ∧
      decodeIdentity identity layout = .ok
        { major, minor, flags := args.flags
          crc32 := crc32IsoHdlc (layout.coverage ++ withoutCrc)
          sourceId := asciiBytes args.sourceId
          span := layout.span.toNat
          contentLength := layout.coverage.length } ∧
      (layout.span.toNat : Int) = layout.span := by
  obtain ⟨-, -, -, h⟩ := makeLayout_layoutOf made
  obtain ⟨nonneg, content⟩ := h.length_le
  obtain ⟨ma, mi⟩ := parseBcdVersion_bcd version
  obtain ⟨text, rfl⟩ := encodeSourceId_eq_ok encoded
  have flags := flags_lt args
  have spanFits : 0 ≤ layout.span ∧ layout.span.toNat < 256 ^ 4 := by omega
  have contentFits : layout.coverage.length < 256 ^ 4 := by omega
  have build : ∀ crc32 : Nat, crc32 < 256 ^ 4 →
      buildIdentity major minor (packBytes 16 (asciiBytes args.sourceId)) args.flags layout.span
        layout.coverage.length crc32 = .ok (fieldBytes major minor
          (packBytes 16 (asciiBytes args.sourceId)) args.flags layout.span.toNat
          layout.coverage.length crc32) := fun crc32 small =>
    buildIdentity_eq_ok.mpr ⟨⟨ma.lt, mi.lt, lt_trans flags (by decide), spanFits,
      ⟨Int.natCast_nonneg _, small⟩, Int.natCast_nonneg _, contentFits⟩, rfl⟩
  refine ⟨_, _, build 0 (by decide), build _ (crc32IsoHdlc_lt _), ?_, ?_,
    Int.toNat_of_nonneg nonneg⟩
  · exact stampedIdentity_iff.mpr ⟨major, minor, _, version, encoded, spanFits, contentFits, rfl⟩
  · have unpadded : ∀ crc32, fieldBytes major minor (packBytes 16 (asciiBytes args.sourceId)) args.flags
        layout.span.toNat layout.coverage.length crc32 = fieldBytes major minor
          (asciiBytes args.sourceId) args.flags layout.span.toNat layout.coverage.length crc32 := by
      intro crc32
      rw [fieldBytes, packBytes_eq (packBytes_length 16 _), fieldBytes]
    rw [unpadded, unpadded]
    exact decodeIdentity_iff.mpr ⟨⟨ma.lt, mi.lt, flags, text,
      ⟨Int.toNat_of_nonneg nonneg, spanFits.2⟩, ⟨rfl, contentFits⟩, rfl⟩, rfl⟩

/-- A source identifier that fills its field. -/
def longArgs : StampArgs :=
  ⟨['0', '1', '.', '0', '2'], List.replicate 16 'x', true, true⟩

theorem identity_round_trip_long : ∃ identity found,
    stampedIdentity smallLayout longArgs = .ok identity ∧
      decodeIdentity identity smallLayout = .ok found ∧
      found.sourceId = List.replicate 16 0x78 ∧ found.flags = 3 := by
  have made : makeLayout (smallImage blankBlock smallSegments) 0 128 = .ok smallLayout := by
    decide +kernel
  have version : parseBcdVersion longArgs.version = .ok (0x01, 0x02) := by decide +kernel
  have encoded : encodeSourceId longArgs.sourceId = .ok (List.replicate 16 0x78) := by decide +kernel
  obtain ⟨_, identity, -, -, built, decoded, -⟩ :=
    identity_round_trip made (by decide) longArgs version encoded
  exact ⟨identity, _, built, decoded, rfl, rfl⟩

/-! ## The file -/

/-- The file keeps its length and its bytes outside the 64 from `offset` on. -/
def OnlyIdentity (offset : Nat) (file file' : Bytes) : Prop :=
  file'.length = file.length ∧
    ∀ i, i < offset ∨ offset + identitySize ≤ i → file'[i]? = file[i]?

/-- `stamp` changes nothing but the identity block, and that only if it
succeeds. The check that it makes of the saved file never fails. -/
theorem stamp_frame (elf : ElfArgs) (args : StampArgs) (file : Bytes) :
    ((∃ message, stamp elf args file = (.error message, file)) ∨
      ∃ file' image found, stamp elf args file = (.ok (), file') ∧
        readElf elf.path file = .ok image ∧
        sectionNamed image identitySectionName = .ok found ∧
        OnlyIdentity found.offset file file') ∧
      ∀ stamped layout, stampImage elf args file = .ok (stamped, layout) →
        ∃ verified, verifyElf stamped layout = .ok verified := by
  constructor
  · cases computed : stampImage elf args file with
    | error message =>
      left
      exact ⟨message, by rw [stamp, computed]⟩
    | ok out =>
      right
      obtain ⟨stamped, layout⟩ := out
      obtain ⟨image, identity, read, made, built, rfl⟩ := stampImage_eq_ok.mp computed
      obtain ⟨-, -, -, h⟩ := makeLayout_layoutOf made
      obtain ⟨found, named, -, offset⟩ := h.found
      have length := stampedIdentity_length built
      have inFile := h.inFile
      rw [readElf_data read, ← length] at inFile
      refine ⟨_, image, found, stamp_eq_ok.mpr ⟨image, layout, identity, read, made, built, rfl⟩,
        read, named, patch_length inFile, ?_⟩
      intro i outside
      rw [patch_getElem? inFile, if_neg]
      rw [length, offset]
      omega
  · intro stamped layout computed
    obtain ⟨identity, found, verified⟩ := stampImage_verifies computed
    exact ⟨(identity, found), verified⟩

theorem stamp_frame_small : ∃ stamped verified,
    stampImage smallElfArgs smallArgs (smallElf blankBlock smallSegments) = .ok (stamped, smallLayout) ∧
      verifyElf stamped smallLayout = .ok verified := by
  have read : readElf smallElfArgs.path (smallElf blankBlock smallSegments) =
      .ok (smallImage blankBlock smallSegments) := by decide +kernel
  have made : makeLayout (smallImage blankBlock smallSegments) smallElfArgs.flashOrigin
      smallElfArgs.flashLength = .ok smallLayout := by decide +kernel
  have built : stampedIdentity smallLayout smallArgs = .ok smallBlock := by decide +kernel
  have computed := stampImage_eq_ok.mpr ⟨_, smallBlock, read, made, built, rfl⟩
  obtain ⟨verified, accepted⟩ := (stamp_frame smallElfArgs smallArgs _).2 _ _ computed
  exact ⟨_, verified, computed, accepted⟩

end MspmBaremetal.ImageTool
