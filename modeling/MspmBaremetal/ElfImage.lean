import MspmBaremetal.ByteFields

/-!
# ELF32 images

`Elf32Image` of `stamp_image_identity.py`: the headers, section names and
symbols it reads from the bytes of a file.
-/

namespace MspmBaremetal.ImageTool

open ByteFields

/-- `ProgramHeader`. -/
structure ProgramHeader where
  pType : Nat
  pOffset : Nat
  pPaddr : Nat
  pFilesz : Nat
  deriving DecidableEq, Repr

/-- A section header before it has a name. -/
structure RawSection where
  nameOffset : Nat
  sectionType : Nat
  address : Nat
  offset : Nat
  size : Nat
  link : Nat
  alignment : Nat
  entrySize : Nat
  deriving DecidableEq, Repr

/-- `Section`. -/
structure Section where
  name : List Char
  sectionType : Nat
  address : Nat
  offset : Nat
  size : Nat
  link : Nat
  entrySize : Nat
  deriving DecidableEq, Repr

/-- What `Elf32Image` keeps of a file. -/
structure Elf32Image where
  path : String
  data : Bytes
  sections : List Section
  programHeaders : List ProgramHeader
  deriving DecidableEq, Repr

def elfMagic : Bytes := [0x7F, 0x45, 0x4C, 0x46]
def elfclass32 : BitVec 8 := 1
def elfdata2lsb : BitVec 8 := 1
def ptLoad : Nat := 1
def shtSymtab : Nat := 2

def elf32HeaderSize : Nat := 52
def elf32ProgramHeaderSize : Nat := 32
def elf32SectionHeaderSize : Nat := 40
def elf32SymbolSize : Nat := 16

/-- A little-endian field of `size` bytes. -/
def field (data : Bytes) (offset size : Nat) : Nat := toNat (slice data offset size)

/-- `checked_slice`. -/
def checkedSlice (data : Bytes) (offset size : Nat) (label : String) : Except String Bytes := do
  failIf (data.length < offset + size) (label ++ " is outside the ELF file")
  return slice data offset size

/-- `c_string`. -/
def cString (table : Bytes) (offset : Nat) (label : String) : Except String (List Char) := do
  failIf (table.length ≤ offset) (label ++ " has an invalid string-table offset")
  let rest := table.drop offset
  failIf (0 ∉ rest) (label ++ " is not NUL-terminated")
  let text := rest.takeWhile (· ≠ 0)
  failIf (text.any fun byte => 0x80 ≤ byte.toNat) (label ++ " is not ASCII")
  return text.map fun byte => Char.ofNat byte.toNat

/-- The fields of the ELF header that the tool uses. -/
structure Elf32Header where
  programHeaderOffset : Nat
  sectionHeaderOffset : Nat
  programHeaderCount : Nat
  sectionHeaderCount : Nat
  sectionNameIndex : Nat
  deriving DecidableEq, Repr

/-- The header checks of `Elf32Image.__init__`. -/
def readHeader (path : String) (data : Bytes) : Except String Elf32Header := do
  failIf (data.length < elf32HeaderSize) (path ++ ": file is too small to be ELF32")
  let header := slice data 0 elf32HeaderSize
  failIf (slice header 0 4 ≠ elfMagic ∨ header[4]? ≠ some elfclass32 ∨ header[5]? ≠ some elfdata2lsb)
    (path ++ ": expected a little-endian ELF32 image")
  failIf (field header 42 2 ≠ elf32ProgramHeaderSize)
    (path ++ ": unexpected ELF32 program-header size")
  failIf (field header 46 2 ≠ elf32SectionHeaderSize)
    (path ++ ": unexpected ELF32 section-header size")
  return { programHeaderOffset := field header 28 4
           sectionHeaderOffset := field header 32 4
           programHeaderCount := field header 44 2
           sectionHeaderCount := field header 48 2
           sectionNameIndex := field header 50 2 }

/-- One entry of the section-header table. -/
def rawSection (table : Bytes) (index : Nat) : RawSection :=
  let entry := slice table (index * elf32SectionHeaderSize) elf32SectionHeaderSize
  { nameOffset := field entry 0 4
    sectionType := field entry 4 4
    address := field entry 12 4
    offset := field entry 16 4
    size := field entry 20 4
    link := field entry 24 4
    alignment := field entry 32 4
    entrySize := field entry 36 4 }

/-- `_read_sections`. -/
def readSections (data : Bytes) (header : Elf32Header) : Except String (List RawSection) := do
  let table ← checkedSlice data header.sectionHeaderOffset
    (header.sectionHeaderCount * elf32SectionHeaderSize) "section-header table"
  return (List.range header.sectionHeaderCount).map (rawSection table)

/-- `_name_sections`. -/
def nameSections (path : String) (data : Bytes) (header : Elf32Header)
    (rawSections : List RawSection) : Except String (List Section) :=
  match rawSections[header.sectionNameIndex]? with
  | none => .error (path ++ ": invalid section-name string-table index")
  | some nameSection => do
    let nameTable ← checkedSlice data nameSection.offset nameSection.size
      "section-name string table"
    rawSections.zipIdx.mapM fun (raw, index) => do
      let name ← if index = 0 then pure [] else
        cString nameTable raw.nameOffset ("section " ++ toString index)
      return ⟨name, raw.sectionType, raw.address, raw.offset, raw.size, raw.link, raw.entrySize⟩

/-- One entry of the program-header table. -/
def programHeader (table : Bytes) (index : Nat) : ProgramHeader :=
  let entry := slice table (index * elf32ProgramHeaderSize) elf32ProgramHeaderSize
  { pType := field entry 0 4
    pOffset := field entry 4 4
    pPaddr := field entry 12 4
    pFilesz := field entry 16 4 }

/-- `_read_program_headers`. -/
def readProgramHeaders (data : Bytes) (header : Elf32Header) : Except String (List ProgramHeader) := do
  let table ← checkedSlice data header.programHeaderOffset
    (header.programHeaderCount * elf32ProgramHeaderSize) "program-header table"
  return (List.range header.programHeaderCount).map (programHeader table)

/-- `Elf32Image.__init__`. -/
def readElf (path : String) (data : Bytes) : Except String Elf32Image := do
  let header ← readHeader path data
  let rawSections ← readSections data header
  let sections ← nameSections path data header rawSections
  let programHeaders ← readProgramHeaders data header
  return ⟨path, data, sections, programHeaders⟩

/-- A `Dict[str, int]`, in insertion order. -/
abbrev Symbols := List (List Char × Nat)

/-- `values.setdefault`. -/
def Symbols.setdefault (values : Symbols) (name : List Char) (value : Nat) : Symbols :=
  if (values.lookup name).isSome then values else values ++ [(name, value)]

/-- One turn of the inner loop of `symbol_values`. -/
def addSymbol (sectionName : List Char) (strings table : Bytes) (values : Symbols) (index : Nat) :
    Except String Symbols := do
  let entry := slice table (index * elf32SymbolSize) elf32SymbolSize
  if field entry 0 4 = 0 then return values
  let name ← cString strings (field entry 0 4) ("symbol in " ++ String.ofList sectionName)
  return if name = [] then values else values.setdefault name (field entry 4 4)

/-- One turn of the outer loop of `symbol_values`. -/
def addSymbols (image : Elf32Image) (values : Symbols) (symtab : Section) : Except String Symbols := do
  if symtab.sectionType ≠ shtSymtab then return values
  let name := String.ofList symtab.name
  failIf (symtab.entrySize ≠ elf32SymbolSize ∨ symtab.size % symtab.entrySize ≠ 0)
    (image.path ++ ": malformed symbol table " ++ name)
  match image.sections[symtab.link]? with
  | none => .error (image.path ++ ": symbol table " ++ name ++ " has invalid string table")
  | some stringSection => do
    let strings ← checkedSlice image.data stringSection.offset stringSection.size
      ("symbol strings for " ++ name)
    let table ← checkedSlice image.data symtab.offset symtab.size ("symbol table " ++ name)
    (List.range (table.length / elf32SymbolSize)).foldlM (addSymbol symtab.name strings table) values

/-- `symbol_values`. -/
def symbolValues (image : Elf32Image) : Except String Symbols :=
  image.sections.foldlM (addSymbols image) []

/-- `section_named`. -/
def sectionNamed (image : Elf32Image) (name : List Char) : Except String Section :=
  match image.sections.filter (·.name = name) with
  | [found] => .ok found
  | _ => .error (image.path ++ ": expected exactly one " ++ String.ofList name ++ " section")

theorem checkedSlice_eq_ok {data : Bytes} {offset size : Nat} {label : String} {b : Bytes} :
    checkedSlice data offset size label = .ok b ↔
      offset + size ≤ data.length ∧ b = slice data offset size := by
  simp only [checkedSlice, failIf_bind_eq_ok, pure_eq_ok, Nat.not_lt]

end MspmBaremetal.ImageTool
