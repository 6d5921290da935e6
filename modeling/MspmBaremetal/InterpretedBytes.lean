import MspmBaremetal.ElfFields

/-!
# The bytes of a file that a layout is read from

Which bytes of an ELF file `Elf32Image` and `make_layout` interpret: used fields,
names up to their NUL, the value of one symbol, and the covered bytes. A file
with the same bytes in the former gives the same layout, with the covered bytes
as it holds them (`Alike.makeLayout_read`).
-/

namespace MspmBaremetal.ImageTool

open ByteFields

/-- A range of file bytes. -/
structure FileRange where
  start : Nat
  size : Nat
  deriving DecidableEq, Repr

/-! ## Interpreted bytes -/

/-- The used fields of the ELF header: the first six bytes, the two tables and
the sizes and counts at its end. -/
def headerFields : List FileRange := [⟨0, 6⟩, ⟨28, 8⟩, ⟨42, 10⟩]

section Interpreted

variable (header : Elf32Header) (image : Elf32Image) (layout : ImageLayout)

/-- The section is looked up: it holds section names, symbols or their strings,
or it is the identity section. -/
def Located (i : Nat) : Prop :=
  i = header.sectionNameIndex ∨ (header.sectionAt image.data i).sectionType = shtSymtab ∨
    (header.sectionAt image.data i).name = identitySectionName ∨
    ∃ symtab ∈ image.sections, symtab.sectionType = shtSymtab ∧ symtab.link = i

instance (i : Nat) : Decidable (Located header image i) :=
  inferInstanceAs (Decidable (_ ∨ _ ∨ _ ∨ ∃ symtab ∈ image.sections, _))

/-- The used fields of a section header, and the name. The first name is not read. -/
def sectionFields (i : Nat) : List FileRange :=
  let start := header.sectionStart i
  let sect := header.sectionAt image.data i
  ⟨start + 4, 4⟩ ::
    ((if i = 0 then [] else [⟨start, 4⟩, ⟨header.nameStart image.data i, sect.name.length + 1⟩]) ++
    (if Located header image i then [⟨start + 16, 4⟩, ⟨start + 20, 4⟩] else []) ++
    (if sect.sectionType = shtSymtab then [⟨start + 24, 4⟩, ⟨start + 36, 4⟩] else []) ++
    (if sect.name = identitySectionName then [⟨start + 12, 4⟩] else []))

/-- The used fields of a program header. -/
def segmentFields (k : Nat) : List FileRange :=
  let start := header.segmentStart k
  let segment := header.segmentAt image.data k
  ⟨start, 4⟩ :: if segment.pType ≠ ptLoad then [] else
    ⟨start + 16, 4⟩ :: if segment.pFilesz = 0 then [] else
      ⟨start + 12, 4⟩ ::
        if (segment.overlap layout.flashOrigin layout.dataLoadEnd).size = 0 then [] else
          [⟨start + 4, 4⟩]

/-- The offset of a symbol's name, and the name if it has one. -/
def nameFields (symbol : Symbol) : List FileRange :=
  ⟨symbol.start, 4⟩ ::
    if symbol.nameOffset = 0 then [] else [⟨symbol.nameStart, symbol.name.length + 1⟩]

/-- The symbol that gives `__data_load_end`. -/
def Elf32Image.loadEnd (image : Elf32Image) : Option Symbol :=
  image.symbols.find? (·.name = dataLoadEndName)

/-- The file bytes that headers, names and symbols are read from. -/
def parsedRanges : List FileRange :=
  headerFields ++ (List.range header.sectionHeaderCount).flatMap (sectionFields header image) ++
    image.symbols.flatMap nameFields ++
    image.loadEnd.toList.map (fun symbol => ⟨symbol.start + 4, 4⟩) ++
    (List.range header.programHeaderCount).flatMap (segmentFields header image layout)

/-- The file index of a covered byte. -/
def coveredIndex (i : Nat) : Nat :=
  (image.programHeaders.find? (·.Loads (layout.flashOrigin + i))).elim 0
    (·.fileIndex (layout.flashOrigin + i))

/-- The covered bytes as a file holds them. -/
def coverageOf (data : Bytes) : Bytes :=
  (List.range layout.coverage.length).map fun i => data.getD (coveredIndex image layout i) 0

end Interpreted

theorem coverageOf_length {image : Elf32Image} {layout : ImageLayout} {data : Bytes} :
    (coverageOf image layout data).length = layout.coverage.length := by
  rw [coverageOf, List.length_map, List.length_range]

theorem LayoutOf.coverageOf {image : Elf32Image} {layout : ImageLayout} (h : LayoutOf image layout) :
    layout.coverage = coverageOf image layout image.data := by
  apply List.ext_getElem?
  intro i
  rw [ImageTool.coverageOf, List.getElem?_map]
  by_cases inside : i < layout.coverage.length
  · obtain ⟨header, byte, only, held, covered⟩ := h.coverage i inside
    have found : image.programHeaders.find? (·.Loads (layout.flashOrigin + i)) = some header := by
      rw [← List.head?_filter, only, List.head?_cons]
    rw [covered, List.getElem?_range inside, Option.map_some, coveredIndex, found, Option.elim_some,
      List.getD, held, Option.getD_some]
  · rw [List.getElem?_eq_none (Nat.not_lt.mp inside), List.getElem?_eq_none (by simpa using inside),
      Option.map_none]

/-! ## Reading a file around replaced bytes -/

/-- Headers, names and symbols are read from the same bytes. -/
def ParsedKept (header : Elf32Header) (image : Elf32Image) (layout : ImageLayout) (data' : Bytes) :
    Prop :=
  ∀ range ∈ parsedRanges header image layout,
    slice data' range.start range.size = slice image.data range.start range.size

/-- A file with the same length and the same bytes there. -/
structure Alike (header : Elf32Header) (image : Elf32Image) (layout : ImageLayout) (data' : Bytes) :
    Prop where
  length : data'.length = image.data.length
  same : ParsedKept header image layout data'

theorem slice_sub {data data' : Bytes} {a n b m : Nat} (same : slice data' a n = slice data a n)
    (least : a ≤ b) (most : b + m ≤ a + n) : slice data' b m = slice data b m := by
  obtain ⟨c, rfl⟩ := Nat.exists_eq_add_of_le least
  rw [← slice_slice (n := n) (by omega), ← slice_slice (n := n) (by omega), same]

theorem getElem?_of_slice {data data' : Bytes} {a n b : Nat} (same : slice data' a n = slice data a n)
    (least : a ≤ b) (most : b < a + n) : data'[b]? = data[b]? := by
  have at_ := congrArg (·[b - a]?) same
  simp only [slice_getElem?, if_pos (show b - a < n by omega), Nat.add_sub_cancel' least] at at_
  exact at_

namespace Alike

variable {path : String} {header : Elf32Header} {data data' : Bytes} {layout : ImageLayout}

section Fields

variable {image : Elf32Image} (h : Alike header image layout data')
include h

theorem header_same (range : FileRange) (mem : range ∈ headerFields) :
    slice data' range.start range.size = slice image.data range.start range.size :=
  h.same range (by simp [parsedRanges, mem])

theorem section_same {i : Nat} (inside : i < header.sectionHeaderCount) (range : FileRange)
    (mem : range ∈ sectionFields header image i) :
    slice data' range.start range.size = slice image.data range.start range.size := by
  apply h.same range
  simp only [parsedRanges, List.mem_append, List.mem_flatMap, List.mem_range]
  exact .inl (.inl (.inl (.inr ⟨i, inside, mem⟩)))

theorem symbol_same {symbol : Symbol} (listed : symbol ∈ image.symbols) (range : FileRange)
    (mem : range ∈ nameFields symbol) :
    slice data' range.start range.size = slice image.data range.start range.size := by
  apply h.same range
  simp only [parsedRanges, List.mem_append, List.mem_flatMap]
  exact .inl (.inl (.inr ⟨symbol, listed, mem⟩))

theorem segment_same {k : Nat} (inside : k < header.programHeaderCount) (range : FileRange)
    (mem : range ∈ segmentFields header image layout k) :
    slice data' range.start range.size = slice image.data range.start range.size := by
  apply h.same range
  simp only [parsedRanges, List.mem_append, List.mem_flatMap, List.mem_range]
  exact .inr ⟨k, inside, mem⟩

theorem value_same {symbol : Symbol} (found : image.loadEnd = some symbol) :
    field data' (symbol.start + 4) 4 = field image.data (symbol.start + 4) 4 := by
  rw [field, field, h.same ⟨symbol.start + 4, 4⟩ (by simp [parsedRanges, found])]

theorem field_same {i a : Nat} (inside : i < header.sectionHeaderCount)
    (mem : ⟨a, 4⟩ ∈ sectionFields header image i) : field data' a 4 = field image.data a 4 :=
  congrArg ByteFields.toNat (h.section_same inside ⟨a, 4⟩ mem)

theorem segmentField_same {k a : Nat} (inside : k < header.programHeaderCount)
    (mem : ⟨a, 4⟩ ∈ segmentFields header image layout k) : field data' a 4 = field image.data a 4 :=
  congrArg ByteFields.toNat (h.segment_same inside ⟨a, 4⟩ mem)

/-- Every section has its type. -/
theorem type_same {i : Nat} (inside : i < header.sectionHeaderCount) :
    (rawSectionAt data' (header.sectionStart i)).sectionType =
      (rawSectionAt image.data (header.sectionStart i)).sectionType :=
  h.field_same inside (by simp [sectionFields])

theorem nameOffset_same {i : Nat} (inside : i < header.sectionHeaderCount) (later : i ≠ 0) :
    (rawSectionAt data' (header.sectionStart i)).nameOffset =
      (rawSectionAt image.data (header.sectionStart i)).nameOffset :=
  h.field_same inside (by simp [sectionFields, later])

/-- A section that is looked up has its place. -/
theorem place_same {i : Nat} (inside : i < header.sectionHeaderCount)
    (located : Located header image i) :
    (rawSectionAt data' (header.sectionStart i)).offset =
        (rawSectionAt image.data (header.sectionStart i)).offset ∧
      (rawSectionAt data' (header.sectionStart i)).size =
        (rawSectionAt image.data (header.sectionStart i)).size :=
  ⟨h.field_same inside (by simp [sectionFields, located]),
    h.field_same inside (by simp [sectionFields, located])⟩

theorem symtab_same {i : Nat} (inside : i < header.sectionHeaderCount)
    (table : (header.sectionAt image.data i).sectionType = shtSymtab) :
    (rawSectionAt data' (header.sectionStart i)).link =
        (rawSectionAt image.data (header.sectionStart i)).link ∧
      (rawSectionAt data' (header.sectionStart i)).entrySize =
        (rawSectionAt image.data (header.sectionStart i)).entrySize :=
  ⟨h.field_same inside (by simp [sectionFields, table]),
    h.field_same inside (by simp [sectionFields, table])⟩

theorem address_same {i : Nat} (inside : i < header.sectionHeaderCount)
    (identity : (header.sectionAt image.data i).name = identitySectionName) :
    (rawSectionAt data' (header.sectionStart i)).address =
      (rawSectionAt image.data (header.sectionStart i)).address :=
  h.field_same inside (by simp [sectionFields, identity])

theorem readHeader_same : readHeader path data' = readHeader path image.data := by
  have ident := h.header_same ⟨0, 6⟩ (by decide)
  have tables := h.header_same ⟨28, 8⟩ (by decide)
  have counts := h.header_same ⟨42, 10⟩ (by decide)
  have byte : ∀ b < 6, (slice data' 0 elf32HeaderSize)[b]? = (slice image.data 0 elf32HeaderSize)[b]? := by
    intro b small
    rw [slice_getElem?, slice_getElem?, Nat.zero_add, getElem?_of_slice ident (Nat.zero_le b) (by simpa)]
  have low : ∀ f size, 28 ≤ f → f + size ≤ 36 →
      field (slice data' 0 elf32HeaderSize) f size = field (slice image.data 0 elf32HeaderSize) f size := by
    intro f size least most
    have inside : f + size ≤ elf32HeaderSize := by simp only [elf32HeaderSize]; omega
    rw [field_slice inside, field_slice inside, field, field, Nat.zero_add, slice_sub tables least most]
  have high : ∀ f size, 42 ≤ f → f + size ≤ 52 →
      field (slice data' 0 elf32HeaderSize) f size = field (slice image.data 0 elf32HeaderSize) f size := by
    intro f size least most
    have inside : f + size ≤ elf32HeaderSize := most
    rw [field_slice inside, field_slice inside, field, field, Nat.zero_add, slice_sub counts least most]
  have magic : slice (slice data' 0 elf32HeaderSize) 0 4 = slice (slice image.data 0 elf32HeaderSize) 0 4 := by
    rw [slice_slice (by decide), slice_slice (by decide), slice_sub ident (by decide) (by decide)]
  simp only [readHeader, h.length, magic, byte 4 (by decide), byte 5 (by decide),
    low 28 4 (by decide) (by decide), low 32 4 (by decide) (by decide),
    high 42 2 (by decide) (by decide), high 44 2 (by decide) (by decide),
    high 46 2 (by decide) (by decide), high 48 2 (by decide) (by decide),
    high 50 2 (by decide) (by decide)]

end Fields

section Symbols

variable (h : Alike header (header.image data path) layout data')
include h

/-- One symbol whose name can be read. -/
theorem symbolAt_same {strings : Section} {start : Nat} {label : String}
    (listed : symbolAt data strings.offset start ∈ (header.image data path).symbols)
    (fits : strings.offset + strings.size ≤ data.length)
    (read : (symbolAt data strings.offset start).nameOffset ≠ 0 →
      cString (slice data strings.offset strings.size) (symbolAt data strings.offset start).nameOffset
        label = .ok (symbolAt data strings.offset start).name) :
    symbolAt data' strings.offset start = symbolAt data strings.offset start ∧
    ((symbolAt data strings.offset start).nameOffset ≠ 0 →
      cString (slice data' strings.offset strings.size) (symbolAt data strings.offset start).nameOffset
        label = .ok (symbolAt data strings.offset start).name) := by
  have nameOffset : field data' start 4 = field data start 4 :=
    congrArg ByteFields.toNat (h.symbol_same listed ⟨start, 4⟩ (by simp [nameFields, symbolAt]))
  have again : (symbolAt data strings.offset start).nameOffset ≠ 0 →
      cString (slice data' strings.offset strings.size) (symbolAt data strings.offset start).nameOffset
        label = .ok (symbolAt data strings.offset start).name := by
    intro named
    refine cString_congr h.length fits ?_ (read named)
    exact h.symbol_same listed ⟨strings.offset + (symbolAt data strings.offset start).nameOffset, _⟩
      (by simp only [nameFields, if_neg named]; exact .tail _ (.head _))
  refine ⟨?_, again⟩
  by_cases unnamed : field data start 4 = 0
  · simp [symbolAt, nameOffset, unnamed]
  · have same := cString_slice (again unnamed)
    simp only [symbolAt, if_neg unnamed] at same
    simp only [symbolAt, nameOffset, if_neg unnamed, same]

/-- A symbol table is read with the same symbols. -/
theorem symtab_read {i : Nat} (inside : i < header.sectionHeaderCount)
    (table : (header.sectionAt data i).sectionType = shtSymtab) {strings : Section}
    (name : (header.sectionAt data' i).name = (header.sectionAt data i).name)
    (read : (header.image data path).Symtab (header.sectionAt data i) strings) :
    (header.image data' path).symbolsOf (header.sectionAt data' i) =
        (header.image data path).symbolsOf (header.sectionAt data i) ∧
      ∃ strings', (header.image data' path).Symtab (header.sectionAt data' i) strings' := by
  have linked := read.linked
  rw [Elf32Header.sections_getElem?] at linked
  obtain ⟨within, found⟩ := Option.ite_none_right_eq_some.mp linked
  obtain rfl := Option.some.inj found
  obtain ⟨link, entrySize⟩ := h.symtab_same inside table
  obtain ⟨offset, size⟩ := h.place_same inside (.inr (.inl table))
  obtain ⟨stringsOffset, stringsSize⟩ := h.place_same within
    (.inr (.inr (.inr ⟨_, List.mem_map_of_mem (List.mem_range.mpr inside), table, rfl⟩)))
  change (header.sectionAt data' i).link = (header.sectionAt data i).link at link
  change (header.sectionAt data' i).entrySize = (header.sectionAt data i).entrySize at entrySize
  change (header.sectionAt data' i).offset = (header.sectionAt data i).offset at offset
  change (header.sectionAt data' i).size = (header.sectionAt data i).size at size
  change (header.sectionAt data' (header.sectionAt data i).link).offset =
    (header.sectionAt data (header.sectionAt data i).link).offset at stringsOffset
  change (header.sectionAt data' (header.sectionAt data i).link).size =
    (header.sectionAt data (header.sectionAt data i).link).size at stringsSize
  have linked' : (header.image data' path).sections[(header.sectionAt data' i).link]? =
      some (header.sectionAt data' (header.sectionAt data i).link) := by
    rw [Elf32Header.sections_getElem?, link, if_pos within]
  generalize header.sectionAt data (header.sectionAt data i).link = strings at *
  generalize header.sectionAt data' (header.sectionAt data i).link = strings' at *
  have entries : (header.image data path).symbolsOf (header.sectionAt data i) =
      (List.range ((header.sectionAt data i).size / elf32SymbolSize)).map fun k =>
        symbolAt data strings.offset ((header.sectionAt data i).offset + k * elf32SymbolSize) := by
    rw [Elf32Image.symbolsOf, read.linked, Option.elim_some]
    rfl
  have symbols : ∀ symbol ∈ (header.image data path).symbolsOf (header.sectionAt data i),
      symbol ∈ (header.image data path).symbols := by
    intro symbol mem
    refine List.mem_flatMap.mpr ⟨_, List.mem_filter.mpr ⟨?_, decide_eq_true table⟩, mem⟩
    exact List.mem_map_of_mem (List.mem_range.mpr inside)
  have each : ∀ k < (header.sectionAt data i).size / elf32SymbolSize, _ := fun k small =>
    have mem : symbolAt data strings.offset ((header.sectionAt data i).offset + k * elf32SymbolSize) ∈
        (header.image data path).symbolsOf (header.sectionAt data i) := by
      rw [entries]
      exact List.mem_map_of_mem (List.mem_range.mpr small)
    h.symbolAt_same (symbols _ mem) read.stringsFit (read.named _ mem)
  have entries' : (header.image data' path).symbolsOf (header.sectionAt data' i) =
      (header.image data path).symbolsOf (header.sectionAt data i) := by
    rw [entries, Elf32Image.symbolsOf, linked', Option.elim_some, size, offset, stringsOffset]
    exact List.map_congr_left fun k mem => (each k (List.mem_range.mp mem)).1
  refine ⟨entries', strings', ?_⟩
  constructor
  case entrySize => rw [entrySize]; exact read.entrySize
  case whole => rw [size, entrySize]; exact read.whole
  case linked => exact linked'
  case stringsFit =>
    rw [stringsOffset, stringsSize]
    exact h.length ▸ read.stringsFit
  case tableFits =>
    rw [offset, size]
    exact h.length ▸ read.tableFits
  case named =>
    rw [entries', entries, stringsOffset, stringsSize, name]
    intro symbol mem
    obtain ⟨k, small, rfl⟩ := List.mem_map.mp mem
    exact (each k (List.mem_range.mp small)).2

end Symbols

section Image

variable (h : Alike header (header.image data path) layout data') (readable : header.Readable data path)
include h readable

theorem names_same : (header.names data').offset = (header.names data).offset ∧
    (header.names data').size = (header.names data).size :=
  h.place_same readable.named (.inl rfl)

/-- Every section has its name. -/
theorem name_read {i : Nat} (inside : i < header.sectionHeaderCount) (later : i ≠ 0) :
    cString (slice data' (header.names data').offset (header.names data').size)
      (rawSectionAt data' (header.sectionStart i)).nameOffset ("section " ++ toString i) =
      .ok (header.sectionAt data i).name := by
  obtain ⟨offset, size⟩ := h.names_same readable
  rw [offset, size, h.nameOffset_same inside later]
  refine cString_congr h.length readable.names ?_ (readable.name i inside later)
  exact h.section_same inside ⟨header.nameStart data i, (header.sectionAt data i).name.length + 1⟩
    (by simp [sectionFields, later, Elf32Header.image])

theorem sectionName_same {i : Nat} (inside : i < header.sectionHeaderCount) :
    (header.sectionAt data' i).name = (header.sectionAt data i).name := by
  by_cases first : i = 0
  · simp [Elf32Header.sectionAt, Elf32Header.sectionNamed, first]
  · rw [cString_slice (h.name_read readable inside first)]
    simp [Elf32Header.sectionAt, Elf32Header.sectionNamed, first, Elf32Header.nameStart]

theorem readable_same : header.Readable data' path where
  headed := h.readHeader_same.trans readable.headed
  sections := h.length ▸ readable.sections
  named := readable.named
  names := by
    obtain ⟨offset, size⟩ := h.names_same readable
    rw [offset, size, h.length]
    exact readable.names
  name i inside later := by
    rw [h.sectionName_same readable inside]
    exact h.name_read readable inside later
  segments := h.length ▸ readable.segments

/-- The symbols, and each table, if the tables can be read. -/
theorem symbols_same (tables : ∀ symtab ∈ (header.image data path).sections,
      symtab.sectionType = shtSymtab → ∃ strings, (header.image data path).Symtab symtab strings) :
    (header.image data' path).symbols = (header.image data path).symbols ∧
      ∀ symtab ∈ (header.image data' path).sections, symtab.sectionType = shtSymtab →
        ∃ strings, (header.image data' path).Symtab symtab strings := by
  have types : ∀ i ∈ List.range header.sectionHeaderCount,
      (header.sectionAt data' i).sectionType = (header.sectionAt data i).sectionType :=
    fun i mem => h.type_same (List.mem_range.mp mem)
  have each : ∀ i ∈ List.range header.sectionHeaderCount,
      (header.sectionAt data i).sectionType = shtSymtab → _ := fun i mem table =>
    have inside := List.mem_range.mp mem
    have ⟨_, read⟩ := tables _ (List.mem_map_of_mem mem) table
    h.symtab_read inside table (h.sectionName_same readable inside) read
  constructor
  · simp only [Elf32Image.symbols, Elf32Header.image, List.filter_map, List.flatMap_map]
    have tabled : (List.range header.sectionHeaderCount).filter
          ((fun sect => decide (sect.sectionType = shtSymtab)) ∘ header.sectionAt data') =
        (List.range header.sectionHeaderCount).filter
          ((fun sect => decide (sect.sectionType = shtSymtab)) ∘ header.sectionAt data) :=
      List.filter_congr fun i mem => by simp only [Function.comp, types i mem]
    rw [tabled]
    apply List.flatMap_congr
    intro i mem
    obtain ⟨listed, table⟩ := List.mem_filter.mp mem
    exact (each i listed (of_decide_eq_true table)).1
  · intro symtab mem table
    obtain ⟨i, listed, rfl⟩ := List.mem_map.mp mem
    exact (each i listed ((types i listed).symm.trans table)).2

/-- `__data_load_end` has its value. -/
theorem symbolValues_read {values : Symbols} (valued : symbolValues (header.image data path) = .ok values) :
    ∃ values', symbolValues (header.image data' path) = .ok values' ∧
      values'.lookup dataLoadEndName = values.lookup dataLoadEndName := by
  obtain ⟨tables, looked⟩ := symbolValues_spec valued
  obtain ⟨symbols, tables'⟩ := h.symbols_same readable tables
  obtain ⟨values', valued'⟩ := symbolValues_ok tables'
  refine ⟨values', valued', ?_⟩
  have named : dataLoadEndName ≠ [] := by decide
  rw [(symbolValues_spec valued').2 _ named, looked _ named, findSome?_valueIf, findSome?_valueIf,
    symbols]
  cases found : (header.image data path).symbols.find? (·.name = dataLoadEndName) with
  | none => rfl
  | some symbol => exact congrArg some (h.value_same found)

/-- The identity section has its address and place. -/
theorem sectionNamed_read {found : Section}
    (named : sectionNamed (header.image data path) identitySectionName = .ok found) :
    ∃ found', sectionNamed (header.image data' path) identitySectionName = .ok found' ∧
      found'.address = found.address ∧ found'.offset = found.offset ∧ found'.size = found.size := by
  have names : (List.range header.sectionHeaderCount).filter
        ((fun sect => decide (sect.name = identitySectionName)) ∘ header.sectionAt data') =
      (List.range header.sectionHeaderCount).filter
        ((fun sect => decide (sect.name = identitySectionName)) ∘ header.sectionAt data) :=
    List.filter_congr fun i mem => by
      simp only [Function.comp, h.sectionName_same readable (List.mem_range.mp mem)]
  simp only [sectionNamed, Elf32Header.image, List.filter_map, names] at named ⊢
  cases only : (List.range header.sectionHeaderCount).filter
      ((fun sect => decide (sect.name = identitySectionName)) ∘ header.sectionAt data) with
  | nil =>
    rw [only] at named
    cases named
  | cons i rest =>
    cases rest with
    | cons => rw [only] at named; cases named
    | nil =>
      rw [only] at named
      obtain rfl := Except.ok.inj named
      obtain ⟨mem, identity⟩ := List.mem_filter.mp (only ▸ List.mem_singleton.mpr rfl :
        i ∈ (List.range header.sectionHeaderCount).filter _)
      have inside := List.mem_range.mp mem
      have identity : (header.sectionAt data i).name = identitySectionName := of_decide_eq_true identity
      have place := h.place_same inside (.inr (.inr (.inl identity)))
      exact ⟨_, rfl, h.address_same inside identity, place.1, place.2⟩

end Image

section Coverage

variable (h : Alike header (header.image data path) layout data')
include h

/-- A segment has its overlap with the coverage, and where there is one its place. -/
theorem overlap_same {k : Nat} (inside : k < header.programHeaderCount) :
    ((header.segmentAt data' k).overlap layout.flashOrigin layout.dataLoadEnd).size =
        ((header.segmentAt data k).overlap layout.flashOrigin layout.dataLoadEnd).size ∧
      (((header.segmentAt data k).overlap layout.flashOrigin layout.dataLoadEnd).size ≠ 0 →
        header.segmentAt data' k = header.segmentAt data k) := by
  have pType : (header.segmentAt data' k).pType = (header.segmentAt data k).pType :=
    h.segmentField_same inside (by simp [segmentFields])
  by_cases load : (header.segmentAt data k).pType = ptLoad
  · have pFilesz : (header.segmentAt data' k).pFilesz = (header.segmentAt data k).pFilesz :=
      h.segmentField_same inside (by simp [segmentFields, load, Elf32Header.image])
    by_cases empty : (header.segmentAt data k).pFilesz = 0
    · have none : ∀ segment : ProgramHeader, segment.pFilesz = 0 →
          (segment.overlap layout.flashOrigin layout.dataLoadEnd).size = 0 := by
        intro segment empty
        simp only [ProgramHeader.overlap, empty]
        split <;> omega
      rw [none _ empty, none _ (pFilesz.trans empty)]
      exact ⟨rfl, fun some => absurd rfl some⟩
    · have pPaddr : (header.segmentAt data' k).pPaddr = (header.segmentAt data k).pPaddr :=
        h.segmentField_same inside (by simp [segmentFields, load, empty, Elf32Header.image])
      refine ⟨by simp only [ProgramHeader.overlap, pType, pFilesz, pPaddr], fun some => ?_⟩
      have pOffset : (header.segmentAt data' k).pOffset = (header.segmentAt data k).pOffset :=
        h.segmentField_same inside (by simp [segmentFields, load, empty, some, Elf32Header.image])
      generalize header.segmentAt data' k = segment' at *
      generalize header.segmentAt data k = segment at *
      cases segment
      cases segment'
      simp only at pType pFilesz pPaddr pOffset
      rw [pType, pFilesz, pPaddr, pOffset]
  · have none : ∀ segment : ProgramHeader, segment.pType ≠ ptLoad →
        (segment.overlap layout.flashOrigin layout.dataLoadEnd).size = 0 :=
      fun segment other => if_neg other
    rw [none _ load, none _ (pType ▸ load)]
    exact ⟨rfl, fun some => absurd rfl some⟩

/-- The loop over the program headers finds the same addresses covered. -/
theorem coverage_read {ks : List Nat} (inside : ∀ k ∈ ks, k < header.programHeaderCount)
    {coverage coverage' covered : Coverage} (same : coverage'.covered = coverage.covered)
    (loop : (ks.map (header.segmentAt data)).foldlM
      (cover (header.image data path) layout.flashOrigin layout.dataLoadEnd) coverage = .ok covered) :
    ∃ covered', (ks.map (header.segmentAt data')).foldlM
        (cover (header.image data' path) layout.flashOrigin layout.dataLoadEnd) coverage' =
          .ok covered' ∧ covered'.covered = covered.covered := by
  induction ks generalizing coverage coverage' with
  | nil =>
    cases loop
    exact ⟨coverage', rfl, same⟩
  | cons k ks ih =>
    rw [List.map_cons, List.foldlM_cons, bind_eq_ok] at loop
    obtain ⟨next, turn, loop⟩ := loop
    obtain ⟨size, segment⟩ := h.overlap_same (inside k List.mem_cons_self)
    have turn' : ∃ next', cover (header.image data' path) layout.flashOrigin layout.dataLoadEnd coverage'
        (header.segmentAt data' k) = .ok next' ∧ next'.covered = next.covered := by
      obtain ⟨empty, rfl⟩ | ⟨some, free, inFile, rfl⟩ := cover_eq_ok.mp turn
      · exact ⟨coverage', cover_eq_ok.mpr (.inl ⟨size.trans empty, rfl⟩), same⟩
      · rw [segment some]
        refine ⟨_, cover_eq_ok.mpr (.inr ⟨some, same ▸ free, ?_, rfl⟩), ?_⟩
        · exact inFile.trans (Nat.le_of_eq h.length.symm)
        · rw [same]
    obtain ⟨next', turn', same'⟩ := turn'
    obtain ⟨covered', loop', agree⟩ := ih (fun j mem => inside j (List.mem_cons_of_mem _ mem)) same' loop
    refine ⟨covered', ?_, agree⟩
    rw [List.map_cons, List.foldlM_cons, turn']
    exact loop'

/-- An address is covered by the same segment. -/
theorem loads_same {k : Nat} (inside : k < header.programHeaderCount) {i : Nat}
    (content : i < (layout.dataLoadEnd - layout.flashOrigin).toNat) :
    (header.segmentAt data' k).Loads (layout.flashOrigin + i) ↔
      (header.segmentAt data k).Loads (layout.flashOrigin + i) := by
  obtain ⟨size, segment⟩ := h.overlap_same inside
  rw [loads_iff _ layout.dataLoadEnd _ i content, loads_iff _ layout.dataLoadEnd _ i content]
  by_cases empty : ((header.segmentAt data k).overlap layout.flashOrigin layout.dataLoadEnd).size = 0
  · omega
  · rw [segment empty]

end Coverage

section Layout

variable (h : Alike header (header.image data path) layout data')
include h

theorem find_loads_same {i : Nat} (content : i < (layout.dataLoadEnd - layout.flashOrigin).toNat) :
    (header.image data' path).programHeaders.find? (·.Loads (layout.flashOrigin + i)) =
      (header.image data path).programHeaders.find? (·.Loads (layout.flashOrigin + i)) := by
  rw [← List.head?_filter, ← List.head?_filter]
  simp only [Elf32Header.image, List.filter_map]
  have loaded : (List.range header.programHeaderCount).filter
        ((fun segment => decide (segment.Loads (layout.flashOrigin + i))) ∘ header.segmentAt data') =
      (List.range header.programHeaderCount).filter
        ((fun segment => decide (segment.Loads (layout.flashOrigin + i))) ∘ header.segmentAt data) :=
    List.filter_congr fun k mem => by
      simp only [Function.comp, h.loads_same (List.mem_range.mp mem) content]
  rw [loaded]
  congr 1
  apply List.map_congr_left
  intro k mem
  obtain ⟨inside, loads⟩ := List.mem_filter.mp mem
  have loads : (header.segmentAt data k).Loads (layout.flashOrigin + i) := of_decide_eq_true loads
  refine (h.overlap_same (List.mem_range.mp inside)).2 fun empty => ?_
  have := (loads_iff _ layout.dataLoadEnd _ i content).mp loads
  omega

/-- The layout is read with the bytes that the file now holds in the places covered. -/
theorem makeLayout_read (readable : header.Readable data path) {flashOrigin flashLength : Int}
    (made : makeLayout (header.image data path) flashOrigin flashLength = .ok layout) :
    makeLayout (header.image data' path) flashOrigin flashLength =
      .ok { layout with coverage := coverageOf (header.image data path) layout data' } := by
  obtain ⟨rfl, rfl, -, of⟩ := makeLayout_layoutOf made
  have remade : ∃ bytes, makeLayout (header.image data' path) layout.flashOrigin layout.flashLength =
      .ok { layout with coverage := bytes } := by
    simp only [makeLayout, bind_eq_ok, failIf_eq_ok] at made ⊢
    obtain ⟨u, long, symbols, valued, made⟩ := made
    obtain ⟨symbols', valued', same⟩ := h.symbolValues_read readable valued
    simp only [valued', Except.ok.injEq, exists_eq_left', same]
    cases found : symbols.lookup dataLoadEndName with
    | none =>
      rw [found] at made
      cases made
    | some dataLoadEnd =>
      simp only [found, bind_eq_ok, failIf_eq_ok, checkedSlice_eq_ok, pure_eq_ok] at made ⊢
      obtain ⟨identity, named, u', placed, u'', content, _, ⟨inFile, rfl⟩, covered, loop, u₃, full,
        laid⟩ := made
      obtain ⟨identity', named', address, offset, size⟩ := h.sectionNamed_read readable named
      rw [laid] at h loop ⊢
      obtain ⟨covered', loop', agree⟩ := h.coverage_read (fun k mem => List.mem_range.mp mem) rfl loop
      refine ⟨covered'.bytes, u, long, identity', named', u', ?_, u'', ?_, _, ⟨?_, rfl⟩, covered', loop',
        u₃, ?_, ?_⟩
      · rw [address, size]
        exact placed
      · rw [address]
        exact content
      · rw [offset, size]
        exact inFile.trans (Nat.le_of_eq h.length.symm)
      · rw [agree]
        exact full
      · rw [address, offset, size]
  obtain ⟨bytes, remade⟩ := remade
  obtain ⟨-, -, -, of'⟩ := makeLayout_layoutOf remade
  have length : bytes.length = layout.coverage.length := of'.length.trans of.length.symm
  have coverage := of'.coverageOf
  rw [remade]
  congr 2
  refine coverage.trans ?_
  simp only [ImageTool.coverageOf, length]
  apply List.map_congr_left
  intro i mem
  have content : i < (layout.dataLoadEnd - layout.flashOrigin).toNat := by
    rw [← of.length]
    exact List.mem_range.mp mem
  simp only [coveredIndex, h.find_loads_same content]
  rfl

end Layout

end Alike

end MspmBaremetal.ImageTool
