import MspmBaremetal.ArtifactAgreement

/-!
# The image that an ELF file programs

A programmer loads the segments of an ELF file, while the tool reads the
identity through a section header and looks at segments only in the coverage.
There the two agree; in the gap and the identity block nothing makes them agree.
-/

namespace MspmBaremetal.ImageTool

open ByteFields SparseMemory

/-- What a programmer takes from a segment. -/
def ProgramHeader.chunk (data : Bytes) (header : ProgramHeader) : Chunk (BitVec 8) where
  address := header.pPaddr
  bytes := if header.pType = ptLoad then slice data header.pOffset header.pFilesz else []

/-- What an ELF file writes: its loadable segments at their physical addresses,
one after another. -/
def programElf (image : Elf32Image) : Memory (BitVec 8) :=
  storeAll empty (image.programHeaders.map (·.chunk image.data))

/-- The file byte that a segment loads at an address. -/
def ProgramHeader.loaded (data : Bytes) (a : Int) (header : ProgramHeader) : Option (BitVec 8) :=
  if header.Loads a then data[header.fileIndex a]? else none

theorem ProgramHeader.chunk_byteAt (data : Bytes) (header : ProgramHeader) (a : Int) :
    (header.chunk data).byteAt a = header.loaded data a := by
  rw [loaded]
  by_cases holds : header.Loads a
  · obtain ⟨load, above, below⟩ := id holds
    have inside : (a - header.pPaddr).toNat < header.pFilesz := by omega
    rw [if_pos holds, Chunk.byteAt_of_le above, chunk, if_pos load, slice_getElem?, if_pos inside,
      fileIndex]
  · rw [if_neg holds, ← Option.not_isSome_iff_eq_none, Chunk.byteAt_isSome]
    rintro ⟨above, below⟩
    dsimp only [chunk] at above below
    split at below
    next load =>
      refine holds ⟨load, above, ?_⟩
      simp only [slice, List.length_take] at below
      omega
    · simp at below
      omega

/-- The last segment that holds an address counts. -/
theorem programElf_apply (image : Elf32Image) (a : Int) : programElf image a =
    image.programHeaders.reverse.findSome? (·.loaded image.data a) := by
  simp only [programElf, storeAll_apply, empty, Option.or_none, ← List.map_reverse,
    List.findSome?_map, Function.comp_def, ProgramHeader.chunk_byteAt]

section Regions

variable {image : Elf32Image} {layout : ImageLayout} {identity : Bytes}

/-- In the coverage an ELF file programs what the CRC covers. -/
theorem programElf_coverage (h : LayoutOf image layout) {i : Nat} (hi : i < layout.coverage.length) :
    programElf image (layout.flashOrigin + i) = layout.coverage[i]? := by
  obtain ⟨header, byte, only, inFile, covered⟩ := h.coverage i hi
  obtain ⟨before, after, split, -, loads, none⟩ := List.filter_eq_cons_iff.mp only
  have loads' : header.Loads (layout.flashOrigin + i) := of_decide_eq_true loads
  rw [programElf, split, List.map_append, List.map_cons, covered]
  apply storeAll_of_last
  · rw [ProgramHeader.chunk_byteAt, ProgramHeader.loaded, if_pos loads', inFile]
  · intro chunk mem
    obtain ⟨other, listed, rfl⟩ := List.mem_map.mp mem
    have idle := List.filter_eq_nil_iff.mp none other listed
    rw [ProgramHeader.chunk_byteAt, ProgramHeader.loaded, if_neg (by simpa using idle)]

/-- What is left to the linker script: segments put only erased bytes into the
gap, and into the identity block the bytes of its section. -/
structure SegmentsMatch (image : Elf32Image) (layout : ImageLayout) : Prop where
  gap : ∀ a : Int, layout.dataLoadEnd ≤ a → a < layout.identityAddress →
    ∀ byte, image.programHeaders.reverse.findSome? (·.loaded image.data a) = some byte → byte = 0xFF
  identity : ∀ k : Nat, k < identitySize →
    image.data[layout.identityOffset + k]? =
      some ((image.programHeaders.reverse.findSome?
        (·.loaded image.data (layout.identityAddress + k))).getD 0xFF)

theorem erased_gap_iff (byte? : Option (BitVec 8)) :
    byte?.getD 0xFF = 0xFF ↔ ∀ byte, byte? = some byte → byte = 0xFF := by
  cases byte? <;> simp

/-- An ELF file programs the image if its segments match. -/
theorem programElf_content_iff (h : LayoutOf image layout)
    (same : identity = slice image.data layout.identityOffset identitySize) :
    (∀ a : Int, layout.flashOrigin ≤ a → a < layout.identityEnd →
        erasedTo 0xFF (programElf image) a = erasedTo 0xFF (content layout identity) a) ↔
      SegmentsMatch image layout := by
  have len : identity.length = identitySize := same ▸ slice_length h.inFile
  have := h.content
  have length := h.length
  have stop := h.end_eq
  have at_ : ∀ k : Nat, k < identitySize → identity[k]? = image.data[layout.identityOffset + k]? := by
    intro k small
    rw [same, slice_getElem?, if_pos small]
  constructor
  · intro agree
    refine ⟨fun a lo hi => ?_, fun k small => ?_⟩
    · rw [← programElf_apply, ← erased_gap_iff]
      have erased := agree a (by omega) (by omega)
      rwa [erasedTo, erasedTo, content_gap h lo hi] at erased
    · have byte := agree (layout.identityAddress + k) (by omega) (by omega)
      rw [erasedTo, erasedTo, content_identity (by omega), programElf_apply] at byte
      rw [byte, at_ k small, List.getElem?_eq_getElem (by have := h.inFile; omega)]
      rfl
  · intro matches_ a lo hi
    rcases lt_or_ge a (layout.dataLoadEnd : Int) with inside | beyond
    · obtain ⟨i, rfl⟩ : ∃ i : Nat, a = layout.flashOrigin + i := ⟨(a - layout.flashOrigin).toNat, by omega⟩
      have covered : i < layout.coverage.length := by omega
      rw [erasedTo, erasedTo, programElf_coverage h covered, content_coverage h covered]
    · rcases lt_or_ge a (layout.identityAddress : Int) with gap | block
      · rw [erasedTo, erasedTo, content_gap h beyond gap, programElf_apply]
        exact (erased_gap_iff _).mpr (matches_.gap a beyond gap)
      · obtain ⟨k, rfl⟩ : ∃ k : Nat, a = layout.identityAddress + k :=
          ⟨(a - layout.identityAddress).toNat, by omega⟩
        have small : k < identitySize := by omega
        rw [erasedTo, erasedTo, content_identity (by omega), programElf_apply, at_ k small,
          matches_.identity k small]
        rfl

end Regions

/-- `verify` compares the artifacts with the coverage and the identity section,
not with the other bytes that segments load: the BIN file that it accepts is
what the ELF file programs exactly if the segments match. -/
theorem verified_programs_iff {elf : ElfArgs} {file : Bytes} {image : Elf32Image} {layout : ImageLayout}
    {binPath : String} {bin : Bytes} {hexFile : Option (String × Bytes)} {report : Identity}
    (read : readElf elf.path file = .ok image)
    (made : makeLayout image elf.flashOrigin elf.flashLength = .ok layout)
    (accepted : verify elf file (some (binPath, bin)) hexFile = .ok report) :
    (∀ a : Int, layout.flashOrigin ≤ a → a < layout.identityEnd →
        bin[(a - layout.flashOrigin).toNat]? = some (erasedTo 0xFF (programElf image) a)) ↔
      SegmentsMatch image layout := by
  obtain ⟨image', layout', identity, read', made', verified, binChecked, -⟩ := verify_eq_ok.mp accepted
  obtain rfl : image = image' := Except.ok.inj (read.symm.trans read')
  obtain rfl : layout = layout' := Except.ok.inj (made.symm.trans made')
  have binAccepted := binChecked (binPath, bin) rfl
  obtain ⟨-, -, -, h⟩ := makeLayout_layoutOf made
  obtain ⟨same, decoded⟩ := verifyElf_eq_ok.mp verified
  rw [h.size] at same
  have len := decodeIdentity_length decoded
  obtain ⟨span, -⟩ := verifyBinary_iff.mp binAccepted
  rw [← programElf_content_iff h same]
  refine forall_congr' fun a => forall_congr' fun lo => forall_congr' fun hi => ?_
  have stored := verifyBinary_content h len binAccepted (i := (a - layout.flashOrigin).toNat) (by
    rw [ImageLayout.span] at span
    omega)
  rw [stored, show layout.flashOrigin + ((a - layout.flashOrigin).toNat : Int) = a by omega,
    Option.some_inj, eq_comm]

theorem small_segmentsMatch : SegmentsMatch (smallImage smallBlock smallSegments) smallLayout := by
  have unloaded : ∀ k : Nat, k < 64 → 1 ≤ k →
      (smallImage smallBlock smallSegments).programHeaders.reverse.findSome?
        (·.loaded (smallImage smallBlock smallSegments).data k) = none := by decide +kernel
  refine ⟨fun a lo hi byte held => ?_, by decide +kernel⟩
  have start : (1 : Int) ≤ a := lo
  have stop : a < 64 := hi
  lift a to Nat using by omega
  rw [unloaded a (by omega) (by omega)] at held
  cases held

/-- The small ELF file passes with the small artifacts whether its segments load
the identity or not. -/
theorem small_verified {segments : List (Nat × Nat × Nat)}
    (read : readElf smallElfArgs.path (smallElf smallBlock segments) = .ok (smallImage smallBlock segments))
    (made : makeLayout (smallImage smallBlock segments) smallElfArgs.flashOrigin
      smallElfArgs.flashLength = .ok smallLayout)
    (checked : verifyElf (smallImage smallBlock segments) smallLayout = .ok (smallBlock, smallReport)) :
    verify smallElfArgs (smallElf smallBlock segments) (some ("small.bin", smallBin))
      (some ("small.hex", smallHex)) = .ok smallReport := by
  refine verify_eq_ok.mpr ⟨_, _, _, read, made, checked, ?_, ?_⟩
  · rintro _ ⟨⟩
    exact smallBin_verified
  · rintro _ ⟨⟩
    exact smallHex_verified

theorem verified_programs_iff_small : SegmentsMatch (smallImage smallBlock smallSegments) smallLayout ∧
    ∀ a : Int, 0 ≤ a → a < 128 → smallBin[(a - 0).toNat]? =
      some (erasedTo 0xFF (programElf (smallImage smallBlock smallSegments)) a) := by
  have read : readElf smallElfArgs.path (smallElf smallBlock smallSegments) =
      .ok (smallImage smallBlock smallSegments) := by decide +kernel
  have made : makeLayout (smallImage smallBlock smallSegments) smallElfArgs.flashOrigin
      smallElfArgs.flashLength = .ok smallLayout := by decide +kernel
  have accepted := small_verified read made (by decide +kernel)
  exact ⟨small_segmentsMatch, (verified_programs_iff read made accepted).mpr small_segmentsMatch⟩

/-- No segment loads the identity block: `verify` accepts the files, and the
identity block stays erased. -/
theorem verified_not_programmed : ¬∀ (elf : ElfArgs) (file : Bytes) (image : Elf32Image)
    (layout : ImageLayout) (binPath hexPath : String) (bin hexFile : Bytes) (report : Identity),
    readElf elf.path file = .ok image →
    makeLayout image elf.flashOrigin elf.flashLength = .ok layout →
    verify elf file (some (binPath, bin)) (some (hexPath, hexFile)) = .ok report →
    ∀ a : Int, layout.flashOrigin ≤ a → a < layout.identityEnd →
      bin[(a - layout.flashOrigin).toNat]? = some (erasedTo 0xFF (programElf image) a) := by
  intro always
  have read : readElf smallElfArgs.path (smallElf smallBlock [(116, 0, 1)]) =
      .ok (smallImage smallBlock [(116, 0, 1)]) := by decide +kernel
  have made : makeLayout (smallImage smallBlock [(116, 0, 1)]) smallElfArgs.flashOrigin
      smallElfArgs.flashLength = .ok smallLayout := by decide +kernel
  have accepted := small_verified read made (by decide +kernel)
  have programmed := always _ _ _ _ _ _ _ _ _ read made accepted 64 (by decide) (by decide)
  exact absurd programmed (by decide +kernel)

end MspmBaremetal.ImageTool
