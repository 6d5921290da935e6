import MspmBaremetal.ImageArtifacts

/-!
# The coverage, address by address

`make_layout` finds the bytes of the CRC coverage segment by segment. What it
finds depends only on which segments hold an address, not on their order.
-/

namespace MspmBaremetal.ImageTool

open ByteFields

/-- The headers that load the byte of an address. -/
def Elf32Image.holders (image : Elf32Image) (a : Int) : List ProgramHeader :=
  image.programHeaders.filter (·.Loads a)

/-- The file byte of an address that just one header loads. -/
def Elf32Image.content (image : Elf32Image) (a : Int) : Option (BitVec 8) :=
  match image.holders a with
  | [header] => image.data[header.fileIndex a]?
  | _ => none

theorem content_eq_some {image : Elf32Image} {a : Int} {byte : BitVec 8} :
    image.content a = some byte ↔
      ∃ header, image.holders a = [header] ∧ image.data[header.fileIndex a]? = some byte := by
  unfold Elf32Image.content
  split
  next header only => simp [only]
  next several =>
    refine ⟨nofun, ?_⟩
    rintro ⟨header, only, -⟩
    exact absurd only (several header)

theorem content_eq_none {image : Elf32Image} {a : Int} : image.content a = none ↔
    (image.holders a).length ≠ 1 ∨
      ∃ header ∈ image.holders a, image.data.length ≤ header.fileIndex a := by
  rcases held : image.holders a with _ | ⟨header, _ | ⟨second, rest⟩⟩ <;>
    simp [Elf32Image.content, held]

theorem content_perm {image : Elf32Image} {headers : List ProgramHeader}
    (perm : image.programHeaders.Perm headers) (a : Int) :
    ({ image with programHeaders := headers } : Elf32Image).content a = image.content a := by
  have held : (image.holders a).Perm
      (({ image with programHeaders := headers } : Elf32Image).holders a) :=
    perm.filter _
  apply Option.ext
  intro byte
  rw [content_eq_some, content_eq_some]
  constructor
  · rintro ⟨header, only, stored⟩
    exact ⟨header, List.perm_singleton.mp (only ▸ held), stored⟩
  · rintro ⟨header, only, stored⟩
    exact ⟨header, List.perm_singleton.mp (only ▸ held.symm), stored⟩

section Loop

variable {image : Elf32Image} {flashOrigin : Int} {dataLoadEnd : Nat} {header : ProgramHeader}
  {headers rest : List ProgramHeader} {coverage : Coverage}

/-- Just one header loads an address, and its byte is in the file. -/
def Supplied (image : Elf32Image) (headers : List ProgramHeader) (a : Int) : Prop :=
  ∃ header, headers.filter (·.Loads a) = [header] ∧ header.fileIndex a < image.data.length

theorem Supplied.unique {a : Int} (h : Supplied image (headers ++ header :: rest) a)
    (loads : header.Loads a) :
    headers.filter (·.Loads a) = [] ∧ header.fileIndex a < image.data.length := by
  obtain ⟨only, held, inside⟩ := h
  rw [List.filter_append, List.filter_cons_of_pos (by simpa using loads)] at held
  rcases before : headers.filter (·.Loads a) with _ | ⟨first, others⟩
  · rw [before, List.nil_append] at held
    exact ⟨before, (List.cons.inj held).1 ▸ inside⟩
  · rw [before] at held
    simp at held

/-- A header is covered without an error where it alone holds an address. -/
theorem Covers.cover_total (h : Covers image flashOrigin dataLoadEnd headers coverage)
    (supplied : ∀ i, i < (dataLoadEnd - flashOrigin).toNat →
      Supplied image (headers ++ header :: rest) (flashOrigin + (i : Nat))) :
    ∃ coverage', ImageTool.cover image flashOrigin dataLoadEnd coverage header = .ok coverage' := by
  by_cases empty : (header.overlap flashOrigin dataLoadEnd).size = 0
  · exact ⟨coverage, cover_eq_ok.mpr (.inl ⟨empty, rfl⟩)⟩
  have fits := overlap_fits flashOrigin dataLoadEnd header empty
  have loads := loads_iff flashOrigin dataLoadEnd header
  have index := fileIndex_eq flashOrigin dataLoadEnd header
  refine ⟨_, cover_eq_ok.mpr (.inr ⟨empty, ?_, ?_, rfl⟩)⟩
  · intro marked
    obtain ⟨j, there⟩ := List.mem_iff_getElem?.mp marked
    rw [slice_getElem?] at there
    split at there
    next inside =>
      have inRange : (header.overlap flashOrigin dataLoadEnd).start + j <
          (dataLoadEnd - flashOrigin).toNat := by omega
      have here := (loads _ inRange).mpr ⟨by omega, by omega⟩
      obtain ⟨none, -⟩ := (supplied _ inRange).unique here
      obtain ⟨unmarked, -⟩ | ⟨-, first, _, one, -⟩ := h.at_ _ inRange
      · rw [unmarked] at there
        cases there
      · rw [none] at one
        cases one
    · cases there
  · -- the last byte of the overlap is the one farthest in the file
    have last : (header.overlap flashOrigin dataLoadEnd).start +
        (header.overlap flashOrigin dataLoadEnd).size - 1 < (dataLoadEnd - flashOrigin).toNat := by
      omega
    have here := (loads _ last).mpr ⟨by omega, by omega⟩
    obtain ⟨-, inside⟩ := (supplied _ last).unique here
    rw [index _ (by omega) (by omega)] at inside
    omega

theorem Covers.foldlM_total (h : Covers image flashOrigin dataLoadEnd headers coverage)
    (supplied : ∀ i, i < (dataLoadEnd - flashOrigin).toNat →
      Supplied image (headers ++ rest) (flashOrigin + (i : Nat))) :
    ∃ coverage', rest.foldlM (ImageTool.cover image flashOrigin dataLoadEnd) coverage =
      .ok coverage' := by
  induction rest generalizing headers coverage with
  | nil => exact ⟨coverage, rfl⟩
  | cons header rest ih =>
    obtain ⟨next, step⟩ := h.cover_total supplied
    obtain ⟨coverage', run⟩ := ih (h.cover step) (by simpa using supplied)
    exact ⟨coverage', by rw [List.foldlM_cons, step]; exact run⟩

/-- Where every address has its byte, the loop covers all of them. -/
theorem Covers.full (h : Covers image flashOrigin dataLoadEnd headers coverage)
    (supplied : ∀ i, i < (dataLoadEnd - flashOrigin).toNat →
      Supplied image headers (flashOrigin + (i : Nat))) : false ∉ coverage.covered := by
  intro missing
  obtain ⟨i, there⟩ := List.mem_iff_getElem?.mp missing
  have hi : i < (dataLoadEnd - flashOrigin).toNat :=
    h.covered ▸ (List.getElem?_eq_some_iff.mp there).1
  obtain ⟨-, none⟩ | ⟨marked, -⟩ := h.at_ i hi
  · obtain ⟨header, only, -⟩ := supplied i hi
    rw [none] at only
    cases only
  · rw [marked] at there
    cases there

theorem Covers.bytes_eq (h : Covers image flashOrigin dataLoadEnd image.programHeaders coverage)
    {bytes : Bytes} (length : bytes.length = (dataLoadEnd - flashOrigin).toNat)
    (known : ∀ i, i < (dataLoadEnd - flashOrigin).toNat → ∃ byte,
      image.content (flashOrigin + (i : Nat)) = some byte ∧ bytes[i]? = some byte) :
    coverage.bytes = bytes := by
  apply List.ext_getElem?
  intro i
  rcases Nat.lt_or_ge i (dataLoadEnd - flashOrigin).toNat with hi | beyond
  · obtain ⟨byte, stored, kept⟩ := known i hi
    obtain ⟨header, only, inside⟩ := content_eq_some.mp stored
    obtain ⟨-, none⟩ | ⟨-, header', byte', only', inside', kept'⟩ := h.at_ i hi
    · rw [Elf32Image.holders, none] at only
      cases only
    · obtain rfl : header' = header := by
        rw [Elf32Image.holders, only'] at only
        exact (List.cons.inj only).1
      rw [kept, kept', ← inside', inside]
  · rw [List.getElem?_eq_none (h.bytes ▸ beyond), List.getElem?_eq_none (length ▸ beyond)]

end Loop

/-! ## The layout -/

/-- The checks that `make_layout` makes before it looks at the segments. -/
structure LayoutChecks (image : Elf32Image) (flashOrigin flashLength : Int) (dataLoadEnd : Nat)
    (identity : Section) : Prop where
  long : identitySize < flashLength
  symbol : ∃ symbols, symbolValues image = .ok symbols ∧
    symbols.lookup dataLoadEndName = some dataLoadEnd
  named : sectionNamed image identitySectionName = .ok identity
  address : (identity.address : Int) = flashOrigin + flashLength - identitySize
  size : identity.size = identitySize
  content : flashOrigin < dataLoadEnd ∧ dataLoadEnd ≤ identity.address
  inFile : identity.offset + identity.size ≤ image.data.length

section Layout

variable {image : Elf32Image} {flashOrigin flashLength : Int} {layout : ImageLayout}

/-- The layout of an image whose coverage is known. -/
def layoutWith (flashOrigin flashLength : Int) (dataLoadEnd : Nat) (identity : Section)
    (coverage : Bytes) : ImageLayout where
  flashOrigin := flashOrigin
  flashLength := flashLength
  dataLoadEnd := dataLoadEnd
  identityAddress := identity.address
  identityOffset := identity.offset
  identitySize := identity.size
  coverage := coverage

/-- What `make_layout` returns: the checks hold, and every address has its byte. -/
theorem makeLayout_iff : makeLayout image flashOrigin flashLength = .ok layout ↔
    ∃ dataLoadEnd identity coverage,
      LayoutChecks image flashOrigin flashLength dataLoadEnd identity ∧
        coverage.length = (dataLoadEnd - flashOrigin).toNat ∧
        (∀ i, i < (dataLoadEnd - flashOrigin).toNat → ∃ byte,
          image.content (flashOrigin + (i : Nat)) = some byte ∧ coverage[i]? = some byte) ∧
        layout = layoutWith flashOrigin flashLength dataLoadEnd identity coverage := by
  constructor
  · intro h
    simp only [makeLayout, bind_eq_ok, failIf_eq_ok] at h
    obtain ⟨-, long, symbols, read, h⟩ := h
    split at h
    · cases h
    next dataLoadEnd symbol =>
      simp only [bind_eq_ok, failIf_eq_ok, checkedSlice_eq_ok, pure_eq_ok, not_or, not_not, not_le,
        not_lt] at h
      obtain ⟨identity, named, -, ⟨address, size⟩, -, content, _, ⟨inFile, -⟩, coverage, loop, -, full,
        rfl⟩ := h
      obtain ⟨bytes, -, found⟩ := covers_nil.foldlM loop
      refine ⟨dataLoadEnd, identity, coverage.bytes,
        ⟨by omega, ⟨symbols, read, symbol⟩, named, address, size, content, inFile⟩, bytes,
        fun i hi => ?_, rfl⟩
      obtain ⟨missing, -⟩ | ⟨-, header, byte, only, stored, kept⟩ := found i hi
      · exact absurd (List.mem_of_getElem? missing) full
      · exact ⟨byte, content_eq_some.mpr ⟨header, only, stored⟩, kept⟩
  · rintro ⟨dataLoadEnd, identity, bytes, checks, length, known, rfl⟩
    obtain ⟨long, ⟨symbols, read, symbol⟩, named, address, size, content, inFile⟩ := checks
    have supplied : ∀ i, i < (dataLoadEnd - flashOrigin).toNat →
        Supplied image image.programHeaders (flashOrigin + (i : Nat)) := by
      intro i hi
      obtain ⟨byte, stored, -⟩ := known i hi
      obtain ⟨header, only, inside⟩ := content_eq_some.mp stored
      exact ⟨header, only, (List.getElem?_eq_some_iff.mp inside).1⟩
    obtain ⟨coverage, loop⟩ := covers_nil.foldlM_total supplied
    have covers : Covers image flashOrigin dataLoadEnd image.programHeaders coverage :=
      covers_nil.foldlM loop
    have full := covers.full supplied
    have same := covers.bytes_eq length known
    simp only [makeLayout, bind_eq_ok, failIf_eq_ok]
    refine ⟨(), by omega, symbols, read, ?_⟩
    rw [symbol]
    simp only [bind_eq_ok, failIf_eq_ok, checkedSlice_eq_ok, pure_eq_ok, not_or, not_not, not_le,
      not_lt]
    exact ⟨identity, named, (), ⟨address, size⟩, (), content, _, ⟨inFile, rfl⟩, coverage, loop, (),
      full, by rw [same]; rfl⟩

theorem LayoutChecks.unique {dataLoadEnd dataLoadEnd' : Nat} {identity identity' : Section}
    (h : LayoutChecks image flashOrigin flashLength dataLoadEnd identity)
    (h' : LayoutChecks image flashOrigin flashLength dataLoadEnd' identity') :
    dataLoadEnd' = dataLoadEnd ∧ identity' = identity := by
  obtain ⟨symbols, read, symbol⟩ := h.symbol
  obtain ⟨symbols', read', symbol'⟩ := h'.symbol
  obtain rfl : symbols = symbols' := Except.ok.inj (read.symm.trans read')
  exact ⟨Option.some.inj (symbol'.symm.trans symbol), Except.ok.inj (h'.named.symm.trans h.named)⟩

/-- The checks apart, `make_layout` needs a byte for every address. -/
theorem LayoutChecks.fails_iff {dataLoadEnd : Nat} {identity : Section}
    (checks : LayoutChecks image flashOrigin flashLength dataLoadEnd identity) :
    (∃ message, makeLayout image flashOrigin flashLength = .error message) ↔
      ∃ a : Int, flashOrigin ≤ a ∧ a < dataLoadEnd ∧ image.content a = none := by
  constructor
  · rintro ⟨message, failed⟩
    by_contra every
    have known : ∀ a : Int, flashOrigin ≤ a → a < dataLoadEnd → ∃ byte, image.content a = some byte :=
      fun a lo hi => Option.ne_none_iff_exists'.mp fun none => every ⟨a, lo, hi, none⟩
    have made := makeLayout_iff.mpr ⟨dataLoadEnd, identity,
      (List.range (dataLoadEnd - flashOrigin).toNat).map
        fun i => (image.content (flashOrigin + (i : Nat))).getD 0,
      checks, by simp, fun i hi => ?_, rfl⟩
    · rw [made] at failed
      cases failed
    · obtain ⟨byte, stored⟩ := known (flashOrigin + i) (by omega) (by omega)
      refine ⟨byte, stored, ?_⟩
      rw [List.getElem?_map, List.getElem?_range hi]
      simp [stored]
  · rintro ⟨a, lo, hi, none⟩
    rcases made : makeLayout image flashOrigin flashLength with message | layout
    · exact ⟨message, rfl⟩
    · obtain ⟨dataLoadEnd', identity', coverage, checks', -, known, -⟩ := makeLayout_iff.mp made
      obtain ⟨rfl, rfl⟩ := checks.unique checks'
      obtain ⟨byte, stored, -⟩ := known (a - flashOrigin).toNat (by omega)
      rw [show flashOrigin + ((a - flashOrigin).toNat : Int) = a by omega, none] at stored
      cases stored

/-- The order of the program headers does not matter. -/
theorem makeLayout_perm {headers : List ProgramHeader} (perm : image.programHeaders.Perm headers) :
    makeLayout { image with programHeaders := headers } flashOrigin flashLength = .ok layout ↔
      makeLayout image flashOrigin flashLength = .ok layout := by
  rw [makeLayout_iff, makeLayout_iff]
  apply exists_congr
  intro dataLoadEnd
  apply exists_congr
  intro identity
  apply exists_congr
  intro coverage
  simp only [content_perm perm]
  apply and_congr_left
  intro _
  constructor
  · rintro ⟨long, symbol, named, address, size, content, inFile⟩
    exact ⟨long, symbol, named, address, size, content, inFile⟩
  · rintro ⟨long, symbol, named, address, size, content, inFile⟩
    exact ⟨long, symbol, named, address, size, content, inFile⟩

end Layout

/-- The coverage holds the file byte of the one segment that loads an address,
for every address up to `__data_load_end`; an address with no such byte, and
nothing else about the segments, makes `make_layout` fail. -/
theorem coverage_exact (image : Elf32Image) (flashOrigin flashLength : Int) :
    (∀ layout, makeLayout image flashOrigin flashLength = .ok layout →
      (∃ symbols, symbolValues image = .ok symbols ∧
        symbols.lookup dataLoadEndName = some layout.dataLoadEnd) ∧
      (layout.coverage.length : Int) = layout.dataLoadEnd - flashOrigin ∧
      ∀ a : Int, flashOrigin ≤ a → a < layout.dataLoadEnd → ∃ header byte,
        image.programHeaders.filter (·.Loads a) = [header] ∧
          image.data[header.pOffset + (a - header.pPaddr).toNat]? = some byte ∧
          layout.coverage[(a - flashOrigin).toNat]? = some byte) ∧
    (∀ dataLoadEnd identity, LayoutChecks image flashOrigin flashLength dataLoadEnd identity →
      ((∃ message, makeLayout image flashOrigin flashLength = .error message) ↔
        ∃ a : Int, flashOrigin ≤ a ∧ a < dataLoadEnd ∧
          ((image.programHeaders.filter (·.Loads a)).length ≠ 1 ∨
            ∃ header ∈ image.programHeaders.filter (·.Loads a),
              image.data.length ≤ header.fileIndex a))) ∧
    ∀ headers, image.programHeaders.Perm headers → ∀ layout,
      makeLayout { image with programHeaders := headers } flashOrigin flashLength = .ok layout ↔
        makeLayout image flashOrigin flashLength = .ok layout := by
  refine ⟨?_, ?_, fun headers perm layout => makeLayout_perm perm⟩
  · intro layout made
    obtain ⟨dataLoadEnd, identity, coverage, checks, length, known, rfl⟩ := makeLayout_iff.mp made
    have content := checks.content
    refine ⟨checks.symbol, ?_, ?_⟩
    · change (coverage.length : Int) = dataLoadEnd - flashOrigin
      omega
    · intro a lo hi
      change a < (dataLoadEnd : Int) at hi
      obtain ⟨byte, stored, kept⟩ := known (a - flashOrigin).toNat (by omega)
      rw [show flashOrigin + ((a - flashOrigin).toNat : Int) = a by omega] at stored
      obtain ⟨header, only, inside⟩ := content_eq_some.mp stored
      exact ⟨header, byte, only, inside, kept⟩
  · intro dataLoadEnd identity checks
    rw [checks.fails_iff]
    simp only [content_eq_none]
    rfl

theorem coverage_exact_small :
    let image := smallImage smallBlock smallSegments
    makeLayout { image with programHeaders := image.programHeaders.reverse } 0 128 =
      .ok smallLayout := by
  obtain ⟨-, -, order⟩ := coverage_exact (smallImage smallBlock smallSegments) 0 128
  exact (order _ (List.reverse_perm _).symm smallLayout).mpr (by decide +kernel)

end MspmBaremetal.ImageTool
