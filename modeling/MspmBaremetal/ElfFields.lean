import MspmBaremetal.ImageLayout
import Mathlib.Data.List.TakeWhile

/-!
# The fields of an ELF file

What `Elf32Image` reads, field by field, from the bytes of the file:

* `readElf_iff`: the image of a file is made of these fields, if its tables and
  section names can be read;
* `symbolValues_spec`, `symbolValues_ok`: a name has the value of the first symbol
  that has it, if every symbol table can be read.
-/

namespace MspmBaremetal.ImageTool

open ByteFields

/-! ## Strings -/

/-- The text before the first NUL. -/
def text (bytes : Bytes) : List Char :=
  (bytes.takeWhile (· ≠ 0)).map fun byte => Char.ofNat byte.toNat

theorem cString_eq_ok {table : Bytes} {offset : Nat} {label : String} {name : List Char} :
    cString table offset label = .ok name ↔ offset < table.length ∧ 0 ∈ table.drop offset ∧
      (∀ byte ∈ (table.drop offset).takeWhile (· ≠ 0), byte.toNat < 0x80) ∧
      name = text (table.drop offset) := by
  simp only [cString, failIf_bind_eq_ok, pure_eq_ok, Nat.not_le, not_not, List.any_eq_true,
    decide_eq_true_eq, not_exists, not_and, text]

theorem takeWhile_length_lt {bytes : Bytes} (terminated : 0 ∈ bytes) :
    (bytes.takeWhile (· ≠ 0)).length < bytes.length := by
  apply Nat.lt_of_le_of_ne (List.takeWhile_sublist _).length_le
  intro whole
  rw [← (List.takeWhile_sublist _).eq_of_length whole] at terminated
  simpa using List.mem_takeWhile_imp terminated

/-- The bytes up to the NUL are all that a string depends on. -/
theorem takeWhile_of_take {rest rest' : Bytes} (terminated : 0 ∈ rest)
    (same : rest'.take ((rest.takeWhile (· ≠ 0)).length + 1) =
      rest.take ((rest.takeWhile (· ≠ 0)).length + 1)) :
    0 ∈ rest' ∧ rest'.takeWhile (· ≠ 0) = rest.takeWhile (· ≠ 0) := by
  induction rest generalizing rest' with
  | nil => simp at terminated
  | cons byte rest ih =>
    cases rest' with
    | nil => simp at same
    | cons byte' rest' =>
      obtain ⟨rfl, same⟩ := List.cons.inj (same : byte' :: rest'.take _ = byte :: rest.take _)
      by_cases last : byte' = 0
      · simp [last]
      · have terminated : 0 ∈ rest := (List.mem_cons.mp terminated).resolve_left (Ne.symm last)
        rw [List.takeWhile_cons_of_pos (by simpa using last), List.length_cons] at same
        obtain ⟨found, agree⟩ := ih terminated same
        refine ⟨List.mem_cons_of_mem _ found, ?_⟩
        rw [List.takeWhile_cons_of_pos (by simpa using last),
          List.takeWhile_cons_of_pos (by simpa using last), agree]

theorem slice_slice {data : Bytes} {a n b m : Nat} (inside : b + m ≤ n) :
    slice (slice data a n) b m = slice data (a + b) m := by
  apply List.ext_getElem?
  intro i
  simp only [slice_getElem?]
  split
  · rw [if_pos (by omega), Nat.add_assoc]
  · rfl

theorem drop_slice (data : Bytes) (a n b : Nat) :
    (slice data a n).drop b = slice data (a + b) (n - b) := by
  rw [slice, slice, List.drop_take, List.drop_drop]

theorem takeWhile_slice {data : Bytes} {a n : Nat} (terminated : 0 ∈ slice data a n) :
    (slice data a n).takeWhile (· ≠ 0) = (data.drop a).takeWhile (· ≠ 0) := by
  rw [← slice_append_drop data a n, List.takeWhile_append,
    if_neg (Nat.ne_of_lt (takeWhile_length_lt terminated))]

/-- A string in a table of the file is the text at its place in the file. -/
theorem cString_slice {data : Bytes} {a n offset : Nat} {label : String} {name : List Char}
    (read : cString (slice data a n) offset label = .ok name) : name = text (data.drop (a + offset)) := by
  obtain ⟨-, terminated, -, rfl⟩ := cString_eq_ok.mp read
  rw [drop_slice] at terminated ⊢
  rw [text, text, takeWhile_slice terminated]

/-- A string is read the same from a file with the same bytes in its place. -/
theorem cString_congr {data data' : Bytes} (length : data'.length = data.length) {a n offset : Nat}
    {label : String} {name : List Char} (fits : a + n ≤ data.length)
    (same : slice data' (a + offset) (name.length + 1) = slice data (a + offset) (name.length + 1))
    (read : cString (slice data a n) offset label = .ok name) :
    cString (slice data' a n) offset label = .ok name := by
  obtain ⟨inside, terminated, ascii, rfl⟩ := cString_eq_ok.mp read
  have whole : (slice data' a n).length = (slice data a n).length := by
    rw [slice_length fits, slice_length (length ▸ fits)]
  have short : (((slice data a n).drop offset).takeWhile (· ≠ 0)).length + 1 ≤ n - offset := by
    have proper := takeWhile_length_lt terminated
    rwa [List.length_drop, slice_length fits] at proper
  have agree : ((slice data' a n).drop offset).take
      ((((slice data a n).drop offset).takeWhile (· ≠ 0)).length + 1) =
      ((slice data a n).drop offset).take
        ((((slice data a n).drop offset).takeWhile (· ≠ 0)).length + 1) := by
    rw [text, List.length_map] at same
    generalize (((slice data a n).drop offset).takeWhile (· ≠ 0)).length + 1 = k at same short ⊢
    rw [drop_slice, drop_slice, slice, slice, List.take_take, List.take_take, Nat.min_eq_left short]
    exact same
  obtain ⟨terminated', text'⟩ := takeWhile_of_take terminated agree
  rw [cString_eq_ok, whole, text', text, text, text']
  exact ⟨inside, terminated', ascii, rfl⟩

/-! ## Tables -/

theorem field_slice {data : Bytes} {a n f size : Nat} (inside : f + size ≤ n) :
    field (slice data a n) f size = field data (a + f) size := by
  rw [field, field, slice_slice inside]

/-- The section header at a place of the file. -/
def rawSectionAt (data : Bytes) (start : Nat) : RawSection where
  nameOffset := field data start 4
  sectionType := field data (start + 4) 4
  address := field data (start + 12) 4
  offset := field data (start + 16) 4
  size := field data (start + 20) 4
  link := field data (start + 24) 4
  alignment := field data (start + 32) 4
  entrySize := field data (start + 36) 4

theorem rawSection_slice {data : Bytes} {a n i : Nat} (inside : i < n) :
    rawSection (slice data a (n * elf32SectionHeaderSize)) i =
      rawSectionAt data (a + i * elf32SectionHeaderSize) := by
  have fits : i * elf32SectionHeaderSize + elf32SectionHeaderSize ≤ n * elf32SectionHeaderSize := by
    rw [← Nat.succ_mul]
    exact Nat.mul_le_mul_right _ inside
  simp only [rawSection, rawSectionAt, slice_slice fits]
  congr 1 <;> exact field_slice (by decide)

/-- The program header at a place of the file. -/
def programHeaderAt (data : Bytes) (start : Nat) : ProgramHeader where
  pType := field data start 4
  pOffset := field data (start + 4) 4
  pPaddr := field data (start + 12) 4
  pFilesz := field data (start + 16) 4

theorem programHeader_slice {data : Bytes} {a n i : Nat} (inside : i < n) :
    programHeader (slice data a (n * elf32ProgramHeaderSize)) i =
      programHeaderAt data (a + i * elf32ProgramHeaderSize) := by
  have fits : i * elf32ProgramHeaderSize + elf32ProgramHeaderSize ≤ n * elf32ProgramHeaderSize := by
    rw [← Nat.succ_mul]
    exact Nat.mul_le_mul_right _ inside
  simp only [programHeader, programHeaderAt, slice_slice fits]
  congr 1 <;> exact field_slice (by decide)

namespace Elf32Header

variable (header : Elf32Header) (data : Bytes)

/-- Where the header of a section lies. -/
def sectionStart (i : Nat) : Nat := header.sectionHeaderOffset + i * elf32SectionHeaderSize

def segmentStart (k : Nat) : Nat := header.programHeaderOffset + k * elf32ProgramHeaderSize

/-- The header of the section that holds the names of sections. -/
def names : RawSection := rawSectionAt data (header.sectionStart header.sectionNameIndex)

/-- Where the name of a section lies. -/
def nameStart (i : Nat) : Nat :=
  (header.names data).offset + (rawSectionAt data (header.sectionStart i)).nameOffset

def sectionNamed (i : Nat) (name : List Char) : Section :=
  let raw := rawSectionAt data (header.sectionStart i)
  ⟨name, raw.sectionType, raw.address, raw.offset, raw.size, raw.link, raw.entrySize⟩

/-- A section; the first has no name. -/
def sectionAt (i : Nat) : Section :=
  header.sectionNamed data i (if i = 0 then [] else text (data.drop (header.nameStart data i)))

def segmentAt (k : Nat) : ProgramHeader := programHeaderAt data (header.segmentStart k)

/-- The image of a file with this header. -/
def image (path : String) : Elf32Image where
  path := path
  data := data
  sections := (List.range header.sectionHeaderCount).map (header.sectionAt data)
  programHeaders := (List.range header.programHeaderCount).map (header.segmentAt data)

theorem sections_getElem? (path : String) (i : Nat) : (header.image data path).sections[i]? =
    if i < header.sectionHeaderCount then some (header.sectionAt data i) else none := by
  rw [image, List.getElem?_map]
  split
  next inside => rw [List.getElem?_range inside, Option.map_some]
  next beyond => rw [List.getElem?_eq_none (by simpa using beyond), Option.map_none]

/-- The tables lie in the file, and the sections have names. -/
structure Readable (path : String) : Prop where
  headed : readHeader path data = .ok header
  sections : header.sectionHeaderOffset + header.sectionHeaderCount * elf32SectionHeaderSize ≤
    data.length
  named : header.sectionNameIndex < header.sectionHeaderCount
  names : (header.names data).offset + (header.names data).size ≤ data.length
  name : ∀ i < header.sectionHeaderCount, i ≠ 0 →
    cString (slice data (header.names data).offset (header.names data).size)
      (rawSectionAt data (header.sectionStart i)).nameOffset ("section " ++ toString i) =
      .ok (header.sectionAt data i).name
  segments : header.programHeaderOffset + header.programHeaderCount * elf32ProgramHeaderSize ≤
    data.length

end Elf32Header

theorem readSections_eq_ok {data : Bytes} {header : Elf32Header} {rawSections : List RawSection} :
    readSections data header = .ok rawSections ↔
      header.sectionHeaderOffset + header.sectionHeaderCount * elf32SectionHeaderSize ≤ data.length ∧
      rawSections = (List.range header.sectionHeaderCount).map fun i =>
        rawSectionAt data (header.sectionStart i) := by
  simp only [readSections, bind_eq_ok, checkedSlice_eq_ok, pure_eq_ok]
  have listed : (List.range header.sectionHeaderCount).map (rawSection (slice data
      header.sectionHeaderOffset (header.sectionHeaderCount * elf32SectionHeaderSize))) =
      (List.range header.sectionHeaderCount).map fun i => rawSectionAt data (header.sectionStart i) :=
    List.map_congr_left fun i mem => rawSection_slice (List.mem_range.mp mem)
  constructor
  · rintro ⟨_, ⟨fits, rfl⟩, rfl⟩
    exact ⟨fits, listed⟩
  · rintro ⟨fits, rfl⟩
    exact ⟨_, ⟨fits, rfl⟩, listed.symm⟩

theorem readProgramHeaders_eq_ok {data : Bytes} {header : Elf32Header}
    {programHeaders : List ProgramHeader} : readProgramHeaders data header = .ok programHeaders ↔
      header.programHeaderOffset + header.programHeaderCount * elf32ProgramHeaderSize ≤ data.length ∧
      programHeaders = (List.range header.programHeaderCount).map (header.segmentAt data) := by
  simp only [readProgramHeaders, bind_eq_ok, checkedSlice_eq_ok, pure_eq_ok]
  have listed : (List.range header.programHeaderCount).map (programHeader (slice data
      header.programHeaderOffset (header.programHeaderCount * elf32ProgramHeaderSize))) =
      (List.range header.programHeaderCount).map (header.segmentAt data) :=
    List.map_congr_left fun i mem => programHeader_slice (List.mem_range.mp mem)
  constructor
  · rintro ⟨_, ⟨fits, rfl⟩, rfl⟩
    exact ⟨fits, listed⟩
  · rintro ⟨fits, rfl⟩
    exact ⟨_, ⟨fits, rfl⟩, listed.symm⟩

theorem zipIdx_map_range {α : Type*} (f : Nat → α) (n : Nat) :
    ((List.range n).map f).zipIdx = (List.range n).map fun i => (f i, i) := by
  apply List.ext_getElem?
  intro i
  rw [List.getElem?_zipIdx, List.getElem?_map, List.getElem?_map]
  by_cases inside : i < n <;> simp [inside]

section Header

variable {path : String} {data : Bytes} {header : Elf32Header}

theorem nameSections_eq_ok {sections : List Section}
    (within : header.sectionNameIndex < header.sectionHeaderCount) :
    nameSections path data header ((List.range header.sectionHeaderCount).map fun i =>
        rawSectionAt data (header.sectionStart i)) = .ok sections ↔
      (header.names data).offset + (header.names data).size ≤ data.length ∧
      (∀ i < header.sectionHeaderCount, i ≠ 0 →
        cString (slice data (header.names data).offset (header.names data).size)
          (rawSectionAt data (header.sectionStart i)).nameOffset ("section " ++ toString i) =
          .ok (header.sectionAt data i).name) ∧
      sections = (List.range header.sectionHeaderCount).map (header.sectionAt data) := by
  have found : ((List.range header.sectionHeaderCount).map fun i =>
      rawSectionAt data (header.sectionStart i))[header.sectionNameIndex]? =
      some (header.names data) := by
    simp [List.getElem?_range within, Elf32Header.names]
  rw [nameSections, found]
  dsimp only
  rw [zipIdx_map_range]
  -- the name of a section that can be read is the text in its place
  have turn : ∀ i sect, ((if i = 0 then do
        let name ← pure []
        pure (header.sectionNamed data i name)
      else do
        let name ← cString (slice data (header.names data).offset (header.names data).size)
          (rawSectionAt data (header.sectionStart i)).nameOffset ("section " ++ toString i)
        pure (header.sectionNamed data i name)) = Except.ok sect) ↔
      (i ≠ 0 → cString (slice data (header.names data).offset (header.names data).size)
        (rawSectionAt data (header.sectionStart i)).nameOffset ("section " ++ toString i) =
        .ok (header.sectionAt data i).name) ∧ sect = header.sectionAt data i := by
    intro i sect
    by_cases first : i = 0
    · simp [first, Elf32Header.sectionAt, pure_eq_ok]
    · rw [if_neg first, bind_eq_ok, Elf32Header.sectionAt, if_neg first]
      simp only [pure_eq_ok, ne_eq, first, not_false_eq_true, forall_const]
      constructor
      · rintro ⟨name, read, rfl⟩
        obtain rfl := cString_slice read
        exact ⟨read, rfl⟩
      · rintro ⟨read, rfl⟩
        exact ⟨_, read, rfl⟩
  simp only [bind_eq_ok, checkedSlice_eq_ok, and_assoc, exists_and_left, exists_eq_left]
  refine and_congr_right fun fits => ?_
  rw [mapM_eq_ok (g := fun x => header.sectionAt data x.2)]
  · rw [List.map_map]
    refine and_congr_left fun _ => ?_
    simp only [List.forall_mem_map, List.mem_range]
    exact forall₂_congr fun i inside => (turn i _).trans (and_iff_left rfl)
  · intro x mem sect made
    obtain ⟨i, -, rfl⟩ := List.mem_map.mp mem
    exact ((turn i sect).mp made).2

/-- An image that can be read is made of the fields of its file. -/
theorem readElf_iff {image : Elf32Image} : readElf path data = .ok image ↔
    ∃ header : Elf32Header, header.Readable data path ∧ image = header.image data path := by
  simp only [readElf, bind_eq_ok, pure_eq_ok, readSections_eq_ok, readProgramHeaders_eq_ok]
  constructor
  · rintro ⟨header, headed, _, ⟨inFile, rfl⟩, sections, listed, _, ⟨segments, rfl⟩, rfl⟩
    have within : header.sectionNameIndex < header.sectionHeaderCount := by
      by_contra beyond
      rw [nameSections, List.getElem?_eq_none (by simpa using beyond)] at listed
      cases listed
    obtain ⟨names, name, rfl⟩ := (nameSections_eq_ok within).mp listed
    exact ⟨header, ⟨headed, inFile, within, names, name, segments⟩, rfl⟩
  · rintro ⟨header, ⟨headed, inFile, within, names, name, segments⟩, rfl⟩
    exact ⟨header, headed, _, ⟨inFile, rfl⟩, _, (nameSections_eq_ok within).mpr ⟨names, name, rfl⟩, _,
      ⟨segments, rfl⟩, rfl⟩

end Header

/-! ## Symbols -/

/-- A symbol: where it and its name lie, and the name. -/
structure Symbol where
  start : Nat
  nameOffset : Nat
  nameStart : Nat
  name : List Char
  deriving DecidableEq, Repr

/-- The symbol at a place of the file, with its strings from `strings` on. -/
def symbolAt (data : Bytes) (strings start : Nat) : Symbol :=
  let nameOffset := field data start 4
  { start, nameOffset
    nameStart := strings + nameOffset
    name := if nameOffset = 0 then [] else text (data.drop (strings + nameOffset)) }

namespace Elf32Image

/-- The symbols of one table. -/
def symbolsOf (image : Elf32Image) (symtab : Section) : List Symbol :=
  (List.range (symtab.size / elf32SymbolSize)).map fun k =>
    symbolAt image.data ((image.sections[symtab.link]?).elim 0 (·.offset))
      (symtab.offset + k * elf32SymbolSize)

def symbols (image : Elf32Image) : List Symbol :=
  (image.sections.filter (·.sectionType = shtSymtab)).flatMap image.symbolsOf

/-- The value of a symbol. -/
def valueOf (image : Elf32Image) (symbol : Symbol) : Nat := field image.data (symbol.start + 4) 4

/-- A symbol table with its strings, and the symbols have names. -/
structure Symtab (image : Elf32Image) (symtab strings : Section) : Prop where
  entrySize : symtab.entrySize = elf32SymbolSize
  whole : symtab.size % symtab.entrySize = 0
  linked : image.sections[symtab.link]? = some strings
  stringsFit : strings.offset + strings.size ≤ image.data.length
  tableFits : symtab.offset + symtab.size ≤ image.data.length
  named : ∀ symbol ∈ image.symbolsOf symtab, symbol.nameOffset ≠ 0 →
    cString (slice image.data strings.offset strings.size) symbol.nameOffset
      ("symbol in " ++ String.ofList symtab.name) = .ok symbol.name

end Elf32Image

theorem lookup_setdefault (values : Symbols) (name wanted : List Char) (value : Nat) :
    (values.setdefault name value).lookup wanted =
      (values.lookup wanted).or (if name = wanted then some value else none) := by
  unfold Symbols.setdefault
  split
  next known =>
    by_cases same : name = wanted
    · obtain ⟨old, found⟩ := Option.isSome_iff_exists.mp known
      rw [← same, found, Option.some_or]
    · rw [if_neg same, Option.or_none]
  next =>
    rw [List.lookup_append]
    congr 1
    by_cases same : name = wanted
    · simp [same]
    · rw [if_neg same, List.lookup_cons, beq_false_of_ne (Ne.symm same)]
      rfl

section Symbols

variable {image : Elf32Image} {symtab strings : Section} {values values' : Symbols}

theorem addSymbol_eq_ok {data : Bytes} {sectionName : List Char} {start n k : Nat} (inside : k < n) :
    addSymbol sectionName (slice data strings.offset strings.size)
        (slice data start (n * elf32SymbolSize)) values k = .ok values' ↔
      let symbol := symbolAt data strings.offset (start + k * elf32SymbolSize)
      (symbol.nameOffset ≠ 0 → cString (slice data strings.offset strings.size) symbol.nameOffset
        ("symbol in " ++ String.ofList sectionName) = .ok symbol.name) ∧
      values' = if symbol.name = [] then values
        else values.setdefault symbol.name (field data (symbol.start + 4) 4) := by
  have fits : k * elf32SymbolSize + elf32SymbolSize ≤ n * elf32SymbolSize := by
    rw [← Nat.succ_mul]
    exact Nat.mul_le_mul_right _ inside
  simp only [addSymbol, slice_slice fits]
  rw [field_slice (f := 0) (by decide), field_slice (f := 4) (by decide), Nat.add_zero]
  by_cases unnamed : field data (start + k * elf32SymbolSize) 4 = 0
  · simp [symbolAt, unnamed, pure_eq_ok]
  · simp only [if_neg unnamed, symbolAt, bind_eq_ok, pure_eq_ok]
    simp only [ne_eq, unnamed, not_false_eq_true, forall_const]
    constructor
    · rintro ⟨name, read, rfl⟩
      obtain rfl := cString_slice read
      exact ⟨read, rfl⟩
    · rintro ⟨read, rfl⟩
      exact ⟨_, read, rfl⟩

/-- The value of a symbol that has the name. -/
def Elf32Image.valueIf (image : Elf32Image) (name : List Char) (symbol : Symbol) : Option Nat :=
  if symbol.name = name then some (image.valueOf symbol) else none

theorem findSome?_valueIf (image : Elf32Image) (name : List Char) (symbols : List Symbol) :
    symbols.findSome? (image.valueIf name) =
      (symbols.find? (·.name = name)).map image.valueOf := by
  induction symbols with
  | nil => rfl
  | cons symbol symbols ih =>
    rw [List.findSome?_cons, List.find?_cons, ih, Elf32Image.valueIf]
    by_cases same : symbol.name = name
    · rw [if_pos same, decide_eq_true same]
      rfl
    · rw [if_neg same, decide_eq_false same]

/-- The turns for the symbols of one table. -/
theorem Elf32Image.Symtab.turn (h : image.Symtab symtab strings) {k : Nat}
    (inside : k < symtab.size / elf32SymbolSize) :
    ∃ symbol ∈ image.symbolsOf symtab,
      symbol = symbolAt image.data strings.offset (symtab.offset + k * elf32SymbolSize) := by
  refine ⟨_, List.mem_map_of_mem (List.mem_range.mpr inside), ?_⟩
  rw [h.linked, Option.elim_some]

theorem table_slice (h : symtab.entrySize = elf32SymbolSize) (whole : symtab.size % symtab.entrySize = 0)
    (data : Bytes) : slice data symtab.offset symtab.size =
      slice data symtab.offset (symtab.size / elf32SymbolSize * elf32SymbolSize) := by
  rw [h] at whole
  rw [Nat.div_mul_cancel (Nat.dvd_of_mod_eq_zero whole)]

/-- What one symbol table adds: for each name, the first value. -/
theorem addSymbols_spec (table : symtab.sectionType = shtSymtab)
    (added : addSymbols image values symtab = .ok values') :
    (∃ strings, image.Symtab symtab strings) ∧ ∀ name ≠ [], values'.lookup name =
      (values.lookup name).or ((image.symbolsOf symtab).findSome? (image.valueIf name)) := by
  rw [addSymbols, if_neg (not_not.mpr table), failIf_bind_eq_ok] at added
  obtain ⟨sound, added⟩ := added
  obtain ⟨entrySize, whole⟩ := not_or.mp sound
  rw [not_not] at entrySize whole
  cases linked : image.sections[symtab.link]? with
  | none =>
    rw [linked] at added
    cases added
  | some strings =>
    simp only [linked, bind_eq_ok, checkedSlice_eq_ok] at added
    obtain ⟨_, ⟨stringsFit, rfl⟩, _, ⟨tableFits, rfl⟩, loop⟩ := added
    rw [slice_length tableFits, table_slice entrySize whole] at loop
    have entries : image.symbolsOf symtab = (List.range (symtab.size / elf32SymbolSize)).map fun k =>
        symbolAt image.data strings.offset (symtab.offset + k * elf32SymbolSize) := by
      rw [Elf32Image.symbolsOf, linked, Option.elim_some]
    refine ⟨⟨strings, entrySize, whole, linked, stringsFit, tableFits, ?_⟩, ?_⟩
    · rw [entries]
      intro symbol mem
      obtain ⟨k, inside, rfl⟩ := List.mem_map.mp mem
      obtain ⟨_, _, turn⟩ := turn_of_foldlM loop inside
      exact ((addSymbol_eq_ok (List.mem_range.mp inside)).mp turn).1
    · intro name named
      rw [entries, List.findSome?_map]
      apply foldlM_first (·.lookup name) _ loop
      intro k mem before after turn
      obtain ⟨-, rfl⟩ := (addSymbol_eq_ok (List.mem_range.mp mem)).mp turn
      simp only [Function.comp, Elf32Image.valueIf, Elf32Image.valueOf]
      split
      next unnamed => rw [unnamed, if_neg (Ne.symm named), Option.or_none]
      next => exact lookup_setdefault ..

theorem addSymbols_ok (table : symtab.sectionType = shtSymtab) (h : image.Symtab symtab strings)
    (values : Symbols) : ∃ values', addSymbols image values symtab = .ok values' := by
  have turns : ∀ k ∈ List.range (symtab.size / elf32SymbolSize), ∀ before, ∃ after,
      addSymbol symtab.name (slice image.data strings.offset strings.size)
        (slice image.data symtab.offset (symtab.size / elf32SymbolSize * elf32SymbolSize)) before k =
          .ok after := by
    intro k mem before
    have inside := List.mem_range.mp mem
    obtain ⟨_, listed, rfl⟩ := h.turn inside
    exact ⟨_, (addSymbol_eq_ok inside).mpr ⟨h.named _ listed, rfl⟩⟩
  obtain ⟨values', loop⟩ := foldlM_ok turns values
  refine ⟨values', ?_⟩
  rw [addSymbols, if_neg (not_not.mpr table), failIf_bind_eq_ok]
  refine ⟨not_or.mpr ⟨not_not.mpr h.entrySize, not_not.mpr h.whole⟩, ?_⟩
  simp only [h.linked, bind_eq_ok, checkedSlice_eq_ok]
  refine ⟨_, ⟨h.stringsFit, rfl⟩, _, ⟨h.tableFits, rfl⟩, ?_⟩
  rw [slice_length h.tableFits, table_slice h.entrySize h.whole]
  exact loop

theorem findSome?_flatMap_filter {α β γ : Type*} (p : α → Bool) (f : α → List β) (g : β → Option γ)
    (xs : List α) : ((xs.filter p).flatMap f).findSome? g =
      xs.findSome? fun x => if p x then (f x).findSome? g else none := by
  induction xs with
  | nil => rfl
  | cons x xs ih =>
    rw [List.findSome?_cons]
    by_cases kept : p x = true
    · rw [List.filter_cons_of_pos kept, List.flatMap_cons, List.findSome?_append, ih, if_pos kept]
      cases (f x).findSome? g <;> rfl
    · rw [List.filter_cons_of_neg kept, ih, if_neg kept]

/-- Every table can be read, and a name has the value of the first symbol that has it. -/
theorem symbolValues_spec (valued : symbolValues image = .ok values) :
    (∀ symtab ∈ image.sections, symtab.sectionType = shtSymtab →
      ∃ strings, image.Symtab symtab strings) ∧
    ∀ name ≠ [], values.lookup name = image.symbols.findSome? (image.valueIf name) := by
  constructor
  · intro symtab mem table
    obtain ⟨_, _, added⟩ := turn_of_foldlM valued mem
    exact (addSymbols_spec table added).1
  · intro name named
    rw [Elf32Image.symbols, findSome?_flatMap_filter]
    apply foldlM_first (·.lookup name) _ valued
    intro symtab _ before after added
    by_cases table : symtab.sectionType = shtSymtab
    · rw [if_pos (decide_eq_true table)]
      exact (addSymbols_spec table added).2 name named
    · rw [addSymbols, if_pos table, pure_eq_ok] at added
      rw [if_neg (by simpa using table), added, Option.or_none]

theorem symbolValues_ok (readable : ∀ symtab ∈ image.sections, symtab.sectionType = shtSymtab →
    ∃ strings, image.Symtab symtab strings) : ∃ values, symbolValues image = .ok values := by
  apply foldlM_ok
  intro symtab mem before
  by_cases table : symtab.sectionType = shtSymtab
  · obtain ⟨strings, h⟩ := readable symtab mem table
    exact addSymbols_ok table h before
  · exact ⟨before, by rw [addSymbols, if_pos table]; rfl⟩

end Symbols

end MspmBaremetal.ImageTool
