import MspmBaremetal.ImageLayout

/-!
# BIN and HEX artifacts

The checkers of `stamp_image_identity.py` for the files derived from an ELF,
and the commands `stamp` and `verify`.
-/

namespace MspmBaremetal.ImageTool

open ByteFields

/-- `verify_binary`. -/
def verifyBinary (path : String) (data : Bytes) (layout : ImageLayout) (identity : Bytes) :
    Except String Unit := do
  failIf ((data.length : Int) ≠ layout.identityEnd - layout.flashOrigin)
    (path ++ ": expected a " ++ toString (layout.identityEnd - layout.flashOrigin) ++
      "-byte flash image")
  failIf (data.take layout.coverage.length ≠ layout.coverage)
    (path ++ ": defined content before __data_load_end differs from the ELF")
  let gapStart := (layout.dataLoadEnd - layout.flashOrigin).toNat
  let gapEnd := (layout.identityAddress - layout.flashOrigin).toNat
  failIf (slice data gapStart (gapEnd - gapStart) ≠ List.replicate (gapEnd - gapStart) 0xFF)
    (path ++ ": erased gap is not serialized as 0xff")
  let identityStart := (layout.identityAddress - layout.flashOrigin).toNat
  failIf (data.drop identityStart ≠ identity) (path ++ ": image identity differs from the ELF")

/-! ## Intel HEX -/

/-- A `Dict[int, int]` from addresses to bytes, in insertion order. -/
abbrev ByteMap := List (Int × BitVec 8)

/-- Python's equality of two of them. -/
def ByteMap.Same (a b : ByteMap) : Prop :=
  ∀ key ∈ a.map Prod.fst ++ b.map Prod.fst, a.lookup key = b.lookup key

instance (a b : ByteMap) : Decidable (a.Same b) := inferInstanceAs (Decidable (∀ _ ∈ _, _))

/-- The line ends of a text file as `read_text` translates them. -/
def universalNewlines : List Char → List Char
  | '\r' :: '\n' :: rest => '\n' :: universalNewlines rest
  | '\r' :: rest => '\n' :: universalNewlines rest
  | c :: rest => c :: universalNewlines rest
  | [] => []

/-- The ASCII characters at which `splitlines` breaks a line. -/
def lineBreak (c : Char) : Bool := c.toNat ∈ [0x0A, 0x0B, 0x0C, 0x0D, 0x1C, 0x1D, 0x1E]

/-- `splitlines`; `line` is what the current line holds so far. -/
def splitLinesFrom (line : List Char) : List Char → List (List Char)
  | [] => if line = [] then [] else [line]
  | c :: rest => if lineBreak c then line :: splitLinesFrom [] rest else splitLinesFrom (line ++ [c]) rest

/-- The text of a `UnicodeDecodeError`. -/
def asciiError (file : Bytes) : String :=
  let position := file.findIdx fun byte => 0x80 ≤ byte.toNat
  "'ascii' codec can't decode byte " ++ hex 2 (file.getD position 0).toNat ++ " in position " ++
    toString position ++ ": ordinal not in range(128)"

/-- The lines of an ASCII file. -/
def readLines (file : Bytes) : Except String (List (List Char)) := do
  failIf (file.any fun byte => 0x80 ≤ byte.toNat) (asciiError file)
  return splitLinesFrom [] (universalNewlines (file.map fun byte => Char.ofNat byte.toNat))

/-- The value of a hexadecimal digit. -/
def hexDigit (c : Char) : Option Nat :=
  if 0x30 ≤ c.toNat ∧ c.toNat ≤ 0x39 then some (c.toNat - 0x30)
  else if 0x41 ≤ c.toNat ∧ c.toNat ≤ 0x46 then some (c.toNat - 0x41 + 10)
  else if 0x61 ≤ c.toNat ∧ c.toNat ≤ 0x66 then some (c.toNat - 0x61 + 10)
  else none

def asciiSpace (c : Char) : Bool := c.toNat ∈ [0x09, 0x0A, 0x0B, 0x0C, 0x0D, 0x20]

/-- `bytes.fromhex`: pairs of digits, with blanks between the pairs. -/
def fromHex : List Char → Option Bytes
  | [] => some []
  | c :: rest =>
    if asciiSpace c then fromHex rest
    else match rest with
      | [] => none
      | d :: rest => do
        let high ← hexDigit c
        let low ← hexDigit d
        let bytes ← fromHex rest
        return BitVec.ofNat 8 (high * 16 + low) :: bytes

/-- Where `bytes.fromhex` stops at something else; `position` is where the text begins. -/
def fromHexStop (position : Nat) : List Char → Nat
  | [] => position
  | c :: rest =>
    if asciiSpace c then fromHexStop (position + 1) rest
    else match rest with
      | [] => if (hexDigit c).isNone then position else position + 1
      | d :: rest =>
        if (hexDigit c).isNone then position
        else if (hexDigit d).isNone then position + 1
        else fromHexStop (position + 2) rest

/-- The record checks of `parse_intel_hex`. -/
def hexRecord (here : String) (line : List Char) : Except String Bytes := do
  failIf (line.head? ≠ some ':') (here ++ ": record does not start with ':'")
  match fromHex line.tail with
  | none => .error (here ++ ": invalid hexadecimal record: non-hexadecimal number found in " ++
      "fromhex() arg at position " ++ toString (fromHexStop 0 line.tail))
  | some record => do
    failIf (record.length < 5 ∨ record.length ≠ (record.getD 0 0).toNat + 5)
      (here ++ ": record length is invalid")
    failIf ((record.map BitVec.toNat).sum % 0x100 ≠ 0) (here ++ ": record checksum is invalid")
    return record

/-- The variables of `parse_intel_hex`. -/
structure HexState where
  values : ByteMap
  base : Nat
  sawEof : Bool
  deriving DecidableEq, Repr

/-- One byte of a data record. -/
def defineByte (here : String) (absoluteAddress : Nat) (values : ByteMap) (entry : BitVec 8 × Nat) :
    Except String ByteMap := do
  let byteAddress := absoluteAddress + entry.2
  failIf ((values.lookup (byteAddress : Int)).isSome) (here ++ ": duplicate byte at " ++ hex 8 byteAddress)
  return values ++ [((byteAddress : Int), entry.1)]

/-- One turn of the loop of `parse_intel_hex`. -/
def hexLine (path : String) (state : HexState) (numbered : List Char × Nat) :
    Except String HexState := do
  let here := path ++ ":" ++ toString (numbered.2 + 1)
  let record ← hexRecord here numbered.1
  let count := (record.getD 0 0).toNat
  let address := (record.getD 1 0).toNat * 0x100 + (record.getD 2 0).toNat
  let payload := slice record 4 count
  failIf (state.sawEof = true) (here ++ ": data follows the EOF record")
  match (record.getD 3 0).toNat with
  | 0 => do
    let values ← payload.zipIdx.foldlM (defineByte here (state.base + address)) state.values
    return { state with values }
  | 1 => do
    failIf (count ≠ 0 ∨ address ≠ 0) (here ++ ": malformed EOF record")
    return { state with sawEof := true }
  | 2 => do
    failIf (count ≠ 2 ∨ address ≠ 0) (here ++ ": malformed extended-segment record")
    return { state with base := ((payload.getD 0 0).toNat * 0x100 + (payload.getD 1 0).toNat) * 0x10 }
  | 4 => do
    failIf (count ≠ 2 ∨ address ≠ 0) (here ++ ": malformed extended-linear record")
    return { state with
      base := ((payload.getD 0 0).toNat * 0x100 + (payload.getD 1 0).toNat) * 0x10000 }
  | 3 | 5 => do
    failIf (count ≠ 4 ∨ address ≠ 0) (here ++ ": malformed start-address record")
    return state
  | recordType => .error (here ++ ": unsupported record type " ++ toString recordType)

/-- `parse_intel_hex`. -/
def parseIntelHex (path : String) (file : Bytes) : Except String ByteMap := do
  let lines ← readLines file
  let state ← lines.zipIdx.foldlM (hexLine path) ⟨[], 0, false⟩
  failIf (state.sawEof = false) (path ++ ": no EOF record")
  return state.values

/-- Bytes at consecutive addresses. -/
def bytesAt (address : Int) (bytes : Bytes) : ByteMap :=
  bytes.zipIdx.map fun (value, offset) => (address + offset, value)

/-- The first address, in order, that one map defines and the other does not. -/
def firstMissing (wanted got : ByteMap) : Option Int :=
  ((wanted.map Prod.fst).filter fun key => (got.lookup key).isNone).min?

/-- The first of some addresses at which the maps differ. -/
def firstDiffering (addresses : List Int) (expected actual : ByteMap) : Option Int :=
  addresses.find? fun address => expected.lookup address ≠ actual.lookup address

/-- `verify_hex`. In `expected` the identity comes first, as `update` overrides; a
`Dict` lists the coverage first. -/
def verifyHex (path : String) (file : Bytes) (layout : ImageLayout) (identity : Bytes) :
    Except String Unit := do
  let expected : ByteMap :=
    bytesAt layout.identityAddress identity ++ bytesAt layout.flashOrigin layout.coverage
  let actual ← parseIntelHex path file
  if actual.Same expected then return ()
  match firstMissing expected actual, firstMissing actual expected with
  | some address, _ => .error (path ++ ": missing byte at " ++ hex 8 address.toNat)
  | none, some address => .error (path ++ ": contains unexpected byte at " ++ hex 8 address.toNat)
  | none, none =>
    let addresses := (bytesAt layout.flashOrigin layout.coverage ++ expected).map Prod.fst
    .error (path ++ ": differs from the ELF at " ++
      hex 8 ((firstDiffering addresses expected actual).getD 0).toNat)

/-! ## The commands -/

/-- The arguments that name a file and its flash. -/
structure ElfArgs where
  path : String
  flashOrigin : Int
  flashLength : Int
  deriving DecidableEq, Repr

/-- `verify_elf`, with what it prints. -/
def verifyElf (image : Elf32Image) (layout : ImageLayout) : Except String (Bytes × Identity) := do
  let identity := slice image.data layout.identityOffset layout.identitySize
  let found ← decodeIdentity identity layout
  return (identity, found)

/-- `write_identity`. -/
def writeIdentity (image : Elf32Image) (layout : ImageLayout) (identity : Bytes) :
    Except String Elf32Image := do
  failIf (identity.length ≠ layout.identitySize)
    "internal error: identity size does not match the linker reservation"
  return { image with data := patch image.data layout.identityOffset identity }

/-- What `stamp` has computed when it saves the file. -/
def stampImage (elf : ElfArgs) (args : StampArgs) (file : Bytes) :
    Except String (Elf32Image × ImageLayout) := do
  let image ← readElf elf.path file
  let layout ← makeLayout image elf.flashOrigin elf.flashLength
  let identity ← stampedIdentity layout args
  let image ← writeIdentity image layout identity
  return (image, layout)

/-- `stamp`: its outcome and the file it leaves. -/
def stamp (elf : ElfArgs) (args : StampArgs) (file : Bytes) : Except String Unit × Bytes :=
  match stampImage elf args file with
  | .error message => (.error message, file)
  | .ok (image, layout) => ((verifyElf image layout).map fun _ => (), image.data)

/-- `verify`, with the optional artifacts and what it prints of the identity. -/
def verify (elf : ElfArgs) (file : Bytes) (bin hexFile : Option (String × Bytes)) :
    Except String Identity := do
  let image ← readElf elf.path file
  let layout ← makeLayout image elf.flashOrigin elf.flashLength
  let (identity, found) ← verifyElf image layout
  match bin with
  | none => pure ()
  | some (path, data) => verifyBinary path data layout identity
  match hexFile with
  | none => pure ()
  | some (path, data) => verifyHex path data layout identity
  return found

theorem verifyElf_eq_ok {image : Elf32Image} {layout : ImageLayout} {identity : Bytes}
    {found : Identity} : verifyElf image layout = .ok (identity, found) ↔
      identity = slice image.data layout.identityOffset layout.identitySize ∧
        decodeIdentity identity layout = .ok found := by
  simp only [verifyElf, bind_eq_ok, pure_eq_ok, Prod.mk.injEq]
  constructor
  · rintro ⟨_, decoded, rfl, rfl⟩
    exact ⟨rfl, decoded⟩
  · rintro ⟨rfl, decoded⟩
    exact ⟨found, decoded, rfl, rfl⟩

/-- `verify` returns what it found in the ELF file if that and every artifact
it was given pass their checks. -/
theorem verify_eq_ok {elf : ElfArgs} {file : Bytes} {bin hexFile : Option (String × Bytes)}
    {report : Identity} : verify elf file bin hexFile = .ok report ↔
      ∃ image layout identity, readElf elf.path file = .ok image ∧
        makeLayout image elf.flashOrigin elf.flashLength = .ok layout ∧
        verifyElf image layout = .ok (identity, report) ∧
        (∀ artifact ∈ bin, verifyBinary artifact.1 artifact.2 layout identity = .ok ()) ∧
        ∀ artifact ∈ hexFile, verifyHex artifact.1 artifact.2 layout identity = .ok () := by
  simp only [verify, bind_eq_ok]
  constructor
  · rintro ⟨image, read, layout, made, ⟨identity, found⟩, verified, checked⟩
    refine ⟨image, layout, identity, read, made, ?_⟩
    cases bin <;> cases hexFile <;> simp_all [check_bind_eq_ok, pure_eq_ok, -bind_pure_comp]
  · rintro ⟨image, layout, identity, read, made, verified, binChecked, hexChecked⟩
    refine ⟨image, read, layout, made, (identity, report), verified, ?_⟩
    cases bin <;> cases hexFile <;> simp_all [check_bind_eq_ok, pure_eq_ok, -bind_pure_comp]

/-! ## Small files -/

/-- Consecutive little-endian fields, each with its size. -/
def packFields (fields : List (Nat × Nat)) : Bytes :=
  fields.flatMap fun (size, value) => ByteFields.ofNat size value

/-- An ELF file for 128 bytes of flash at 0, with `__data_load_end` at 1: after
its header come the 64 identity bytes and at 116 a byte of code. Its segments
give file offset, address and size. -/
def smallElf (identity : Bytes) (segments : List (Nat × Nat × Nat)) : Bytes :=
  elfMagic ++ [1, 1, 1] ++ List.replicate 9 0 ++
    packFields [(2, 2), (2, 40), (4, 1), (4, 0), (4, 326), (4, 166), (4, 0), (2, 52), (2, 32),
      (2, segments.length), (2, 40), (2, 4), (2, 3)] ++
    identity ++ [0x5A] ++
    [0] ++ asciiBytes identitySectionName ++ [0] ++ asciiBytes dataLoadEndName ++ [0] ++
    packFields [(4, 17), (4, 1), (4, 0), (2, 0), (2, 0)] ++
    List.replicate 40 0 ++
    packFields [(4, 1), (4, 1), (4, 2), (4, 64), (4, 52), (4, 64), (4, 0), (4, 0), (4, 4), (4, 0)] ++
    packFields [(4, 0), (4, 2), (4, 0), (4, 0), (4, 150), (4, 16), (4, 3), (4, 0), (4, 4), (4, 16)] ++
    packFields [(4, 0), (4, 3), (4, 0), (4, 0), (4, 117), (4, 33), (4, 0), (4, 0), (4, 1), (4, 0)] ++
    segments.flatMap fun (offset, address, size) =>
      packFields [(4, 1), (4, offset), (4, address), (4, address), (4, size), (4, size), (4, 5), (4, 4)]

/-- The arguments for it. -/
def smallElfArgs : ElfArgs := ⟨"small.elf", 0, 128⟩

/-- What the tool reads of it. -/
def smallImage (identity : Bytes) (segments : List (Nat × Nat × Nat)) : Elf32Image where
  path := "small.elf"
  data := smallElf identity segments
  sections := [⟨[], 0, 0, 0, 0, 0, 0⟩, ⟨identitySectionName, 1, 64, 52, 64, 0, 0⟩,
    ⟨[], 2, 0, 150, 16, 3, 16⟩, ⟨[], 3, 0, 117, 33, 0, 0⟩]
  programHeaders := segments.map fun (offset, address, size) => ⟨1, offset, address, size⟩

/-- The segments that load its code and its identity. -/
def smallSegments : List (Nat × Nat × Nat) := [(116, 0, 1), (52, 64, 64)]

def smallLayout : ImageLayout := { sampleLayout with identityOffset := 52 }

/-- The identity block of version 01.02, source identifier `a` and a debug build. -/
def smallBlock : Bytes :=
  identityMagic ++ [1, 0, 64, 0, 0x01, 0x02, 2, 0, 128, 0, 0, 0, 219, 71, 39, 137, 0x61] ++
    List.replicate 15 0 ++ [1, 0, 0, 0] ++ List.replicate 24 0xFF

def smallReport : Identity := ⟨0x01, 0x02, 2, 2301052891, [0x61], 128, 1⟩

def smallBin : Bytes := [0x5A] ++ List.replicate 63 0xFF ++ smallBlock

/-- A line of a HEX file. -/
def spellRecord (recordType address : Nat) (payload : Bytes) : Bytes :=
  let record := [BitVec.ofNat 8 payload.length, BitVec.ofNat 8 (address / 256), BitVec.ofNat 8 address,
    BitVec.ofNat 8 recordType] ++ payload
  let digit := fun n => if n < 10 then BitVec.ofNat 8 (0x30 + n) else BitVec.ofNat 8 (0x37 + n)
  let spell := fun byte : BitVec 8 => [digit (byte.toNat / 16), digit (byte.toNat % 16)]
  0x3A :: (record ++ [-record.sum]).flatMap spell ++ [0x0A]

/-- The identity in two records and then the code, with an address record between. -/
def smallHex : Bytes :=
  spellRecord 0 64 (smallBlock.take 32) ++ spellRecord 0 96 (smallBlock.drop 32) ++
    spellRecord 4 0 [0, 0] ++ spellRecord 0 0 [0x5A] ++ spellRecord 1 0 []

end MspmBaremetal.ImageTool
