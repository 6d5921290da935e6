import MspmBaremetal.ElfImage
import MspmBaremetal.ImageIdentity

/-!
# The layout of an image

`make_layout` of `stamp_image_identity.py`: where the identity block lies and
which file bytes the CRC covers.
-/

namespace MspmBaremetal.ImageTool

open ByteFields

/-- `.image_identity` and `__data_load_end`. -/
def identitySectionName : List Char :=
  ['.', 'i', 'm', 'a', 'g', 'e', '_', 'i', 'd', 'e', 'n', 't', 'i', 't', 'y']

def dataLoadEndName : List Char :=
  ['_', '_', 'd', 'a', 't', 'a', '_', 'l', 'o', 'a', 'd', '_', 'e', 'n', 'd']

/-- The coverage as `make_layout` builds it, with the bytes it has found. -/
structure Coverage where
  bytes : Bytes
  covered : List Bool
  deriving DecidableEq, Repr

/-- One turn of the loop of `make_layout` over the program headers. -/
def cover (image : Elf32Image) (flashOrigin : Int) (dataLoadEnd : Nat) (coverage : Coverage)
    (header : ProgramHeader) : Except String Coverage := do
  if header.pType ≠ ptLoad ∨ header.pFilesz = 0 then return coverage
  let segmentStart : Int := header.pPaddr
  let segmentEnd : Int := header.pPaddr + header.pFilesz
  let overlapStart := max segmentStart flashOrigin
  let overlapEnd := min segmentEnd dataLoadEnd
  if overlapEnd ≤ overlapStart then return coverage
  let coverageStart := (overlapStart - flashOrigin).toNat
  let size := (overlapEnd - overlapStart).toNat
  failIf (true ∈ slice coverage.covered coverageStart size)
    (image.path ++ ": overlapping loadable segments in CRC coverage")
  let fileStart := header.pOffset + (overlapStart - segmentStart).toNat
  let bytes ← checkedSlice image.data fileStart size "loadable segment"
  return { bytes := patch coverage.bytes coverageStart bytes
           covered := patch coverage.covered coverageStart (List.replicate size true) }

/-- `make_layout`. -/
def makeLayout (image : Elf32Image) (flashOrigin flashLength : Int) : Except String ImageLayout := do
  failIf (flashLength ≤ identitySize) "flash length is too small for the image-identity reservation"
  let symbols ← symbolValues image
  match symbols.lookup dataLoadEndName with
  | none => .error (image.path ++ ": missing __data_load_end linker symbol")
  | some dataLoadEnd => do
    let identity ← sectionNamed image identitySectionName
    let expectedAddress := flashOrigin + flashLength - identitySize
    failIf ((identity.address : Int) ≠ expectedAddress ∨ identity.size ≠ identitySize)
      (image.path ++ ": .image_identity must be 64 bytes at " ++ hex 8 expectedAddress.toNat)
    failIf ((dataLoadEnd : Int) ≤ flashOrigin ∨ identity.address < dataLoadEnd)
      (image.path ++ ": __data_load_end is outside the defined-content range")
    let _ ← checkedSlice image.data identity.offset identity.size ".image_identity"
    let coverageLength := (dataLoadEnd - flashOrigin).toNat
    let coverage ← image.programHeaders.foldlM (cover image flashOrigin dataLoadEnd)
      ⟨List.replicate coverageLength 0, List.replicate coverageLength false⟩
    failIf (false ∈ coverage.covered)
      (image.path ++ ": no loadable byte at " ++
        hex 8 (flashOrigin + coverage.covered.idxOf false).toNat ++ " inside CRC coverage")
    return { flashOrigin, flashLength, dataLoadEnd
             identityAddress := identity.address
             identityOffset := identity.offset
             identitySize := identity.size
             coverage := coverage.bytes }

/-! ## The coverage -/

/-- A loadable segment holds the byte of an address. -/
def ProgramHeader.Loads (header : ProgramHeader) (a : Int) : Prop :=
  header.pType = ptLoad ∧ header.pPaddr ≤ a ∧ a < header.pPaddr + header.pFilesz

instance (header : ProgramHeader) (a : Int) : Decidable (header.Loads a) :=
  inferInstanceAs (Decidable (_ ∧ _ ∧ _))

/-- The index of that byte in the file. -/
def ProgramHeader.fileIndex (header : ProgramHeader) (a : Int) : Nat :=
  header.pOffset + (a - header.pPaddr).toNat

/-- What a segment contributes to the coverage: where, how many bytes, and from
where in the file. -/
structure Overlap where
  start : Nat
  size : Nat
  fileStart : Nat

def ProgramHeader.overlap (header : ProgramHeader) (flashOrigin : Int) (dataLoadEnd : Nat) : Overlap :=
  let overlapStart : Int := max header.pPaddr flashOrigin
  let overlapEnd : Int := min (header.pPaddr + header.pFilesz) dataLoadEnd
  { start := (overlapStart - flashOrigin).toNat
    size := if header.pType = ptLoad then (overlapEnd - overlapStart).toNat else 0
    fileStart := header.fileIndex overlapStart }

section Cover

variable {image : Elf32Image} {flashOrigin : Int} {dataLoadEnd : Nat} {header : ProgramHeader}
  {coverage coverage' : Coverage}

theorem cover_eq_ok : cover image flashOrigin dataLoadEnd coverage header = .ok coverage' ↔
    let o := header.overlap flashOrigin dataLoadEnd
    o.size = 0 ∧ coverage' = coverage ∨
      o.size ≠ 0 ∧ true ∉ slice coverage.covered o.start o.size ∧
        o.fileStart + o.size ≤ image.data.length ∧
        coverage' = ⟨patch coverage.bytes o.start (slice image.data o.fileStart o.size),
          patch coverage.covered o.start (List.replicate o.size true)⟩ := by
  unfold cover
  by_cases skip : header.pType ≠ ptLoad ∨ header.pFilesz = 0
  · have empty : (header.overlap flashOrigin dataLoadEnd).size = 0 := by
      simp only [ProgramHeader.overlap]
      split <;> simp_all
    rw [if_pos skip, pure_eq_ok]
    simp [empty]
  · obtain ⟨load, nonempty⟩ := not_or.mp skip
    have size : (header.overlap flashOrigin dataLoadEnd).size =
        (min ((header.pPaddr : Int) + header.pFilesz) dataLoadEnd - max (header.pPaddr : Int) flashOrigin).toNat :=
      if_pos (not_not.mp load)
    rw [if_neg skip]
    dsimp only
    by_cases none : min ((header.pPaddr : Int) + header.pFilesz) dataLoadEnd ≤
        max (header.pPaddr : Int) flashOrigin
    · have empty : (header.overlap flashOrigin dataLoadEnd).size = 0 := by omega
      rw [if_pos none, pure_eq_ok]
      simp [empty]
    · have some : (header.overlap flashOrigin dataLoadEnd).size ≠ 0 := by omega
      rw [if_neg none]
      rw [failIf_bind_eq_ok, bind_eq_ok, ← size]
      simp only [checkedSlice_eq_ok, pure_eq_ok, some, false_and, ne_eq, not_false_eq_true,
        true_and, false_or]
      constructor
      · rintro ⟨free, bytes, ⟨inside, rfl⟩, rfl⟩
        exact ⟨free, inside, rfl⟩
      · rintro ⟨free, inside, rfl⟩
        exact ⟨free, _, ⟨inside, rfl⟩, rfl⟩

variable (header flashOrigin dataLoadEnd) in
theorem overlap_fits (h : (header.overlap flashOrigin dataLoadEnd).size ≠ 0) :
    (header.overlap flashOrigin dataLoadEnd).start + (header.overlap flashOrigin dataLoadEnd).size ≤
      (dataLoadEnd - flashOrigin).toNat := by
  simp only [ProgramHeader.overlap] at h ⊢
  split at h <;> simp_all
  omega

variable (header flashOrigin dataLoadEnd) in
/-- A segment holds exactly the bytes of its overlap, from consecutive file bytes. -/
theorem loads_iff (i : Nat) (h : i < (dataLoadEnd - flashOrigin).toNat) :
    header.Loads (flashOrigin + i) ↔
      (header.overlap flashOrigin dataLoadEnd).start ≤ i ∧
        i < (header.overlap flashOrigin dataLoadEnd).start + (header.overlap flashOrigin dataLoadEnd).size := by
  simp only [ProgramHeader.overlap, ProgramHeader.Loads]
  split <;> simp_all
  omega

variable (header flashOrigin dataLoadEnd) in
theorem fileIndex_eq (i : Nat) (lo : (header.overlap flashOrigin dataLoadEnd).start ≤ i)
    (hi : i < (header.overlap flashOrigin dataLoadEnd).start + (header.overlap flashOrigin dataLoadEnd).size) :
    header.fileIndex (flashOrigin + i) =
      (header.overlap flashOrigin dataLoadEnd).fileStart +
        (i - (header.overlap flashOrigin dataLoadEnd).start) := by
  simp only [ProgramHeader.overlap, ProgramHeader.fileIndex] at *
  split at hi <;> omega

/-- The coverage after some headers: an address is found if just one of them
holds it, with that segment's file byte, and missing if none does. -/
structure Covers (image : Elf32Image) (flashOrigin : Int) (dataLoadEnd : Nat)
    (headers : List ProgramHeader) (coverage : Coverage) : Prop where
  bytes : coverage.bytes.length = (dataLoadEnd - flashOrigin).toNat
  covered : coverage.covered.length = (dataLoadEnd - flashOrigin).toNat
  at_ : ∀ i, i < (dataLoadEnd - flashOrigin).toNat →
    coverage.covered[i]? = some false ∧ headers.filter (·.Loads (flashOrigin + i)) = [] ∨
      coverage.covered[i]? = some true ∧ ∃ header byte,
        headers.filter (·.Loads (flashOrigin + i)) = [header] ∧
          image.data[header.fileIndex (flashOrigin + i)]? = some byte ∧
          coverage.bytes[i]? = some byte

theorem covers_nil : Covers image flashOrigin dataLoadEnd []
    ⟨List.replicate (dataLoadEnd - flashOrigin).toNat 0,
      List.replicate (dataLoadEnd - flashOrigin).toNat false⟩ :=
  ⟨List.length_replicate, List.length_replicate, fun _ hi =>
    .inl ⟨List.getElem?_replicate_of_lt hi, rfl⟩⟩

theorem Covers.cover {headers : List ProgramHeader}
    (h : Covers image flashOrigin dataLoadEnd headers coverage)
    (step : cover image flashOrigin dataLoadEnd coverage header = .ok coverage') :
    Covers image flashOrigin dataLoadEnd (headers ++ [header]) coverage' := by
  obtain ⟨bytes, covered, found⟩ := h
  obtain ⟨empty, rfl⟩ | ⟨nonempty, free, inside, rfl⟩ := cover_eq_ok.mp step
  · refine ⟨bytes, covered, fun i hi => ?_⟩
    have outside : ¬header.Loads (flashOrigin + i) := by
      rw [loads_iff flashOrigin dataLoadEnd header i hi]
      omega
    simpa [List.filter_append, outside] using found i hi
  · have fits := overlap_fits flashOrigin dataLoadEnd header nonempty
    have loads := loads_iff flashOrigin dataLoadEnd header
    have index := fileIndex_eq flashOrigin dataLoadEnd header
    generalize header.overlap flashOrigin dataLoadEnd = o at *
    have sliced : (slice image.data o.fileStart o.size).length = o.size := slice_length inside
    have fitsBytes : o.start + (slice image.data o.fileStart o.size).length ≤ coverage.bytes.length := by
      omega
    have fitsCovered : o.start + (List.replicate o.size true).length ≤ coverage.covered.length := by
      rw [List.length_replicate]
      omega
    refine ⟨(patch_length fitsBytes).trans bytes, (patch_length fitsCovered).trans covered,
      fun i hi => ?_⟩
    rw [patch_getElem? fitsBytes, patch_getElem? fitsCovered, sliced, List.length_replicate]
    by_cases here : header.Loads (flashOrigin + i)
    · have inside' := (loads i hi).mp here
      rw [if_pos inside', if_pos inside']
      obtain ⟨-, none⟩ | ⟨marked, -⟩ := found i hi
      · right
        have lt : o.fileStart + (i - o.start) < image.data.length := by omega
        refine ⟨List.getElem?_replicate_of_lt (by omega), header, image.data[o.fileStart + (i - o.start)],
          by simp [List.filter_append, none, here], ?_, ?_⟩
        · rw [index i inside'.1 inside'.2]
          exact List.getElem?_eq_getElem lt
        · rw [slice_getElem?, if_pos (by omega)]
          exact List.getElem?_eq_getElem lt
      · refine absurd (List.mem_of_getElem? (i := i - o.start) ?_) free
        rw [slice_getElem?, if_pos (by omega), Nat.add_sub_cancel' inside'.1]
        exact marked
    · have elsewhere := (loads i hi).not.mp here
      rw [if_neg elsewhere, if_neg elsewhere]
      simpa [List.filter_append, here] using found i hi

/-- What the loop over the program headers has found. -/
theorem Covers.foldlM {headers more : List ProgramHeader}
    (h : Covers image flashOrigin dataLoadEnd headers coverage)
    (run : more.foldlM (ImageTool.cover image flashOrigin dataLoadEnd) coverage = .ok coverage') :
    Covers image flashOrigin dataLoadEnd (headers ++ more) coverage' := by
  induction more generalizing headers coverage with
  | nil =>
    cases run
    simpa using h
  | cons header more ih =>
    rw [List.foldlM_cons, bind_eq_ok] at run
    obtain ⟨next, step, run⟩ := run
    simpa using ih (h.cover step) run

end Cover

/-! ## What a layout says -/

/-- A layout and the image it was made from. -/
structure LayoutOf (image : Elf32Image) (layout : ImageLayout) : Prop where
  size : layout.identitySize = identitySize
  address : (layout.identityAddress : Int) = layout.flashOrigin + layout.flashLength - identitySize
  found : ∃ found, sectionNamed image identitySectionName = .ok found ∧
    layout.identityAddress = found.address ∧ layout.identityOffset = found.offset
  inFile : layout.identityOffset + identitySize ≤ image.data.length
  content : layout.flashOrigin < layout.dataLoadEnd ∧ layout.dataLoadEnd ≤ layout.identityAddress
  length : layout.coverage.length = (layout.dataLoadEnd - layout.flashOrigin).toNat
  coverage : ∀ i, i < layout.coverage.length → ∃ header byte,
    image.programHeaders.filter (·.Loads (layout.flashOrigin + i)) = [header] ∧
      image.data[header.fileIndex (layout.flashOrigin + i)]? = some byte ∧
      layout.coverage[i]? = some byte

theorem makeLayout_layoutOf {image : Elf32Image} {flashOrigin flashLength : Int}
    {layout : ImageLayout} (h : makeLayout image flashOrigin flashLength = .ok layout) :
    layout.flashOrigin = flashOrigin ∧ layout.flashLength = flashLength ∧ identitySize < flashLength ∧
      LayoutOf image layout := by
  simp only [makeLayout, bind_eq_ok, failIf_eq_ok] at h
  obtain ⟨-, long, symbols, -, h⟩ := h
  split at h
  · cases h
  next dataLoadEnd _ =>
    simp only [bind_eq_ok, failIf_eq_ok, checkedSlice_eq_ok, pure_eq_ok, not_or, not_not, not_le,
      not_lt] at h
    obtain ⟨identity, named, -, ⟨address, size⟩, -, content, _, ⟨inFile, -⟩, coverage, loop, -, full,
      rfl⟩ := h
    obtain ⟨bytes, covered, found⟩ := covers_nil.foldlM loop
    refine ⟨rfl, rfl, by omega, size, address, ⟨identity, named, rfl, rfl⟩, size ▸ inFile, content, bytes,
      fun i hi => ?_⟩
    rw [bytes] at hi
    obtain ⟨missing, -⟩ | ⟨-, only⟩ := found i hi
    · exact absurd (List.mem_of_getElem? missing) full
    · exact only

end MspmBaremetal.ImageTool
