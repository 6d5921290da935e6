import MspmBaremetal.ImageArtifacts
import MspmBaremetal.SparseMemory

/-!
# Agreement of the BIN and HEX artifacts

Both checkers accept one image of a layout: the coverage and the identity block
on flash that is otherwise erased. A BIN file that is accepted is this flash,
and a HEX file that is accepted writes it.
-/

namespace MspmBaremetal.ImageTool

open ByteFields SparseMemory

/-- The bytes that an image defines: its coverage and its identity block. -/
def content (layout : ImageLayout) (identity : Bytes) : Memory (BitVec 8) :=
  storeAll empty [⟨layout.flashOrigin, layout.coverage⟩, ⟨layout.identityAddress, identity⟩]

section Content

variable {image : Elf32Image} {layout : ImageLayout} {identity : Bytes}

theorem content_apply (a : Int) : content layout identity a =
    (Chunk.byteAt ⟨layout.identityAddress, identity⟩ a).or
      (Chunk.byteAt ⟨layout.flashOrigin, layout.coverage⟩ a) := by
  simp only [content, storeAll, List.foldl_cons, List.foldl_nil, store_apply, empty, Option.or_none]

theorem LayoutOf.end_eq (h : LayoutOf image layout) :
    layout.identityEnd = layout.identityAddress + identitySize := by
  rw [ImageLayout.identityEnd, h.size]

theorem content_isSome (h : LayoutOf image layout) (len : identity.length = identitySize) (a : Int) :
    (content layout identity a).isSome ↔
      layout.flashOrigin ≤ a ∧ a < layout.dataLoadEnd ∨
        layout.identityAddress ≤ a ∧ a < layout.identityEnd := by
  have := h.content
  have := h.length
  rw [content_apply, Option.isSome_or, Bool.or_eq_true, Chunk.byteAt_isSome, Chunk.byteAt_isSome, len,
    h.end_eq]
  dsimp only
  omega

theorem content_identity {k : Nat} (small : k < identity.length) :
    content layout identity (layout.identityAddress + k) = identity[k]? := by
  rw [content_apply, Chunk.byteAt_add, List.getElem?_eq_getElem small, Option.some_or]

theorem content_coverage (h : LayoutOf image layout) {k : Nat} (small : k < layout.coverage.length) :
    content layout identity (layout.flashOrigin + k) = layout.coverage[k]? := by
  have := h.content
  have := h.length
  have above : Chunk.byteAt ⟨layout.identityAddress, identity⟩ (layout.flashOrigin + k) = none :=
    Chunk.byteAt_of_lt (by dsimp only; omega)
  rw [content_apply, above, Option.none_or, Chunk.byteAt_add]

theorem content_gap (h : LayoutOf image layout) {a : Int} (lo : layout.dataLoadEnd ≤ a)
    (hi : a < layout.identityAddress) : content layout identity a = none := by
  have := h.content
  have := h.length
  have coverage : Chunk.byteAt ⟨layout.flashOrigin, layout.coverage⟩ a = none := by
    rw [← Option.not_isSome_iff_eq_none, Chunk.byteAt_isSome]
    dsimp only
    omega
  rw [content_apply, coverage, Chunk.byteAt_of_lt hi, Option.none_or]

end Content

/-! ## BIN -/

/-- A BIN file is accepted if it is the coverage, the erased gap and the identity. -/
theorem verifyBinary_iff {path : String} {data : Bytes} {layout : ImageLayout} {identity : Bytes} :
    verifyBinary path data layout identity = .ok () ↔
      (data.length : Int) = layout.span ∧ data.take layout.coverage.length = layout.coverage ∧
        slice data (layout.dataLoadEnd - layout.flashOrigin).toNat
            ((layout.identityAddress - layout.flashOrigin).toNat -
              (layout.dataLoadEnd - layout.flashOrigin).toNat) =
          List.replicate ((layout.identityAddress - layout.flashOrigin).toNat -
            (layout.dataLoadEnd - layout.flashOrigin).toNat) 0xFF ∧
        data.drop (layout.identityAddress - layout.flashOrigin).toNat = identity := by
  simp only [verifyBinary, failIf_bind_eq_ok, failIf_eq_ok, ne_eq, Classical.not_not,
    ImageLayout.span]

/-- An accepted BIN file is the image on erased flash. -/
theorem verifyBinary_content {image : Elf32Image} {path : String} {data : Bytes}
    {layout : ImageLayout} {identity : Bytes} (h : LayoutOf image layout)
    (len : identity.length = identitySize) (accepted : verifyBinary path data layout identity = .ok ())
    {i : Nat} (hi : i < data.length) :
    data[i]? = some (erasedTo 0xFF (content layout identity) (layout.flashOrigin + i)) := by
  obtain ⟨span, covered, gap, last⟩ := verifyBinary_iff.mp accepted
  have := h.content
  have coverage := h.length
  rw [ImageLayout.span, h.end_eq] at span
  rcases Nat.lt_or_ge i layout.coverage.length with inside | beyond
  · rw [erasedTo, content_coverage h inside, ← List.getElem?_take_of_lt inside, covered,
      List.getElem?_eq_getElem inside]
    rfl
  · rcases lt_or_ge (layout.flashOrigin + i) (layout.identityAddress : Int) with below | above
    · have byte : data[i]? = some 0xFF := by
        have erased := congrArg (·[i - (layout.dataLoadEnd - layout.flashOrigin).toNat]?) gap
        rw [slice_getElem?, if_pos (by omega), List.getElem?_replicate_of_lt (by omega)] at erased
        rwa [Nat.add_sub_cancel' (by omega)] at erased
      rw [byte, erasedTo, content_gap h (by omega) below]
      rfl
    · have byte : data[i]? = identity[i - (layout.identityAddress - layout.flashOrigin).toNat]? := by
        rw [← last, List.getElem?_drop, Nat.add_sub_cancel' (by omega)]
      have small : i - (layout.identityAddress - layout.flashOrigin).toNat < identity.length := by
        omega
      have address : layout.flashOrigin + i =
          layout.identityAddress + (i - (layout.identityAddress - layout.flashOrigin).toNat : Nat) := by
        omega
      rw [byte, address, erasedTo, content_identity small, List.getElem?_eq_getElem small]
      rfl

/-! ## HEX -/

theorem lookup_cons (x a : Int) (b : BitVec 8) (map : ByteMap) :
    List.lookup x ((a, b) :: map) = if x = a then some b else List.lookup x map := by
  by_cases here : x = a
  · rw [if_pos here, here, List.lookup_cons_self]
  · rw [if_neg here, List.lookup_cons, beq_false_of_ne here]

theorem lookup_bytesAt (a : Int) (bytes : Bytes) (x : Int) :
    (bytesAt a bytes).lookup x = Chunk.byteAt ⟨a, bytes⟩ x := by
  have shifted : ∀ k : Nat,
      List.lookup x ((bytes.zipIdx k).map fun entry => (a + (entry.2 : Int), entry.1)) =
        Chunk.byteAt ⟨a + k, bytes⟩ x := by
    induction bytes with
    | nil => simp [Chunk.byteAt]
    | cons b bs ih =>
      intro k
      rw [List.zipIdx_cons, List.map_cons, lookup_cons, ih, Chunk.byteAt_cons]
      push_cast
      rw [add_assoc]
  have start := shifted 0
  rw [Nat.cast_zero, add_zero] at start
  exact start

/-- A programmer of HEX files: the address base of its records and what it has
written. -/
structure Programmer where
  base : Nat
  written : Memory (BitVec 8)

/-- The programmer at one record. Data goes to consecutive addresses; an address
record moves the base; other records write nothing. -/
def Programmer.record (programmer : Programmer) (record : Bytes) : Programmer :=
  let payload := slice record 4 (record.getD 0 0).toNat
  let address := (record.getD 1 0).toNat * 0x100 + (record.getD 2 0).toNat
  let paragraph := (payload.getD 0 0).toNat * 0x100 + (payload.getD 1 0).toNat
  match (record.getD 3 0).toNat with
  | 0 => { programmer with
      written := store programmer.written (programmer.base + address : Nat) payload }
  | 2 => { programmer with base := paragraph * 0x10 }
  | 4 => { programmer with base := paragraph * 0x10000 }
  | _ => programmer

/-- The records that the lines of a HEX file spell. -/
def hexRecords (file : Bytes) : List Bytes :=
  (splitLinesFrom [] (universalNewlines (file.map fun byte => Char.ofNat byte.toNat))).filterMap
    fun line => fromHex line.tail

/-- What a HEX file writes. -/
def programHex (file : Bytes) : Memory (BitVec 8) :=
  ((hexRecords file).foldl Programmer.record ⟨0, empty⟩).written

/-- The programmer that has read the same records as the parser. -/
def HexState.programmer (state : HexState) : Programmer := ⟨state.base, fun a => state.values.lookup a⟩

theorem defineByte_eq_ok {here : String} {absolute : Nat} {values values' : ByteMap}
    {entry : BitVec 8 × Nat} (h : defineByte here absolute values entry = .ok values') :
    (fun a => values'.lookup a) =
      Function.update (fun a => values.lookup a) ((absolute : Int) + entry.2) (some entry.1) := by
  simp only [defineByte, failIf_bind_eq_ok, pure_eq_ok, Bool.not_eq_true, Option.isSome_eq_false_iff,
    Option.isNone_iff_eq_none] at h
  obtain ⟨fresh, rfl⟩ := h
  funext a
  rw [List.lookup_append, lookup_cons, Function.update_apply]
  push_cast at fresh ⊢
  by_cases here : a = (absolute : Int) + entry.2
  · rw [if_pos here, if_pos here, here, fresh, Option.none_or]
  · rw [if_neg here, if_neg here, List.lookup_nil, Option.or_none]

theorem defineBytes_eq_ok {here : String} {absolute : Nat} {payload : Bytes} {k : Nat}
    {values values' : ByteMap}
    (h : (payload.zipIdx k).foldlM (defineByte here absolute) values = .ok values') :
    (fun a => values'.lookup a) = store (fun a => values.lookup a) ((absolute : Int) + k) payload := by
  induction payload generalizing values k with
  | nil =>
    cases h
    rfl
  | cons b bs ih =>
    rw [List.zipIdx_cons, List.foldlM_cons, bind_eq_ok] at h
    obtain ⟨next, step, rest⟩ := h
    rw [ih rest, defineByte_eq_ok step, store]
    push_cast
    rw [add_assoc]

/-- At a line that the parser accepts, the programmer does the same. -/
theorem hexLine_programmer {path : String} {state state' : HexState} {numbered : List Char × Nat}
    (h : hexLine path state numbered = .ok state') :
    ∃ record, fromHex numbered.1.tail = some record ∧
      state'.programmer = state.programmer.record record := by
  simp only [hexLine, bind_eq_ok, failIf_eq_ok] at h
  obtain ⟨record, accepted, -, -, h⟩ := h
  have spelled : fromHex numbered.1.tail = some record := by
    simp only [hexRecord, failIf_bind_eq_ok] at accepted
    obtain ⟨-, accepted⟩ := accepted
    split at accepted
    · cases accepted
    next record' spelled =>
      simp only [failIf_bind_eq_ok, pure_eq_ok] at accepted
      rw [spelled, accepted.2.2]
  refine ⟨record, spelled, ?_⟩
  unfold Programmer.record
  split at h
  next data =>
    simp only [bind_eq_ok, pure_eq_ok] at h
    obtain ⟨values, defined, rfl⟩ := h
    have stored := defineBytes_eq_ok defined
    simp only [data, HexState.programmer, stored, Nat.cast_zero, add_zero]
  next eof =>
    simp only [failIf_bind_eq_ok, pure_eq_ok] at h
    rw [h.2]
    simp only [eof, HexState.programmer]
  next segment =>
    simp only [failIf_bind_eq_ok, pure_eq_ok] at h
    rw [h.2]
    simp only [segment, HexState.programmer]
  next linear =>
    simp only [failIf_bind_eq_ok, pure_eq_ok] at h
    rw [h.2]
    simp only [linear, HexState.programmer]
  next start =>
    simp only [failIf_bind_eq_ok, pure_eq_ok] at h
    rw [h.2]
    simp only [start]
  next start =>
    simp only [failIf_bind_eq_ok, pure_eq_ok] at h
    rw [h.2]
    simp only [start]
  · cases h

theorem hexLines_programmer {path : String} {lines : List (List Char)} {k : Nat}
    {state state' : HexState}
    (h : (lines.zipIdx k).foldlM (hexLine path) state = .ok state') :
    state'.programmer =
      (lines.filterMap fun line => fromHex line.tail).foldl Programmer.record state.programmer := by
  induction lines generalizing state k with
  | nil =>
    cases h
    rfl
  | cons line lines ih =>
    rw [List.zipIdx_cons, List.foldlM_cons, bind_eq_ok] at h
    obtain ⟨next, step, rest⟩ := h
    obtain ⟨record, spelled, same⟩ := hexLine_programmer step
    have listed : (line :: lines).filterMap (fun line => fromHex line.tail) =
        record :: lines.filterMap (fun line => fromHex line.tail) :=
      List.filterMap_cons_some spelled
    rw [listed, List.foldl_cons, ← same]
    exact ih rest

/-- The map that the parser builds is what the records write. -/
theorem parseIntelHex_programHex {path : String} {file : Bytes} {values : ByteMap}
    (h : parseIntelHex path file = .ok values) (a : Int) : values.lookup a = programHex file a := by
  simp only [parseIntelHex, readLines, bind_eq_ok, failIf_eq_ok, pure_eq_ok] at h
  obtain ⟨_, ⟨-, -, rfl⟩, state, run, -, -, rfl⟩ := h
  have same := hexLines_programmer run
  exact congrFun (congrArg Programmer.written same) a

theorem ByteMap.Same.lookup {a b : ByteMap} (same : a.Same b) (key : Int) :
    List.lookup key a = List.lookup key b := by
  by_cases listed : key ∈ a.map Prod.fst ++ b.map Prod.fst
  · exact same key listed
  · simp only [List.mem_append, List.mem_map, not_or, not_exists, not_and] at listed
    rw [List.lookup_eq_none_iff.mpr, List.lookup_eq_none_iff.mpr]
    · intro entry mem
      exact bne_iff_ne.mpr fun eq => listed.2 entry mem eq.symm
    · intro entry mem
      exact bne_iff_ne.mpr fun eq => listed.1 entry mem eq.symm

theorem verifyHex_of_parsed {path : String} {file : Bytes} {layout : ImageLayout} {identity : Bytes}
    (parsed : parseIntelHex path file = .ok (bytesAt layout.identityAddress identity ++
      bytesAt layout.flashOrigin layout.coverage)) : verifyHex path file layout identity = .ok () := by
  simp only [verifyHex, parsed, bind_eq_ok, Except.ok.injEq, exists_eq_left']
  exact if_pos fun _ _ => rfl

/-- An accepted HEX file writes the image and nothing else. -/
theorem verifyHex_content {path : String} {file : Bytes} {layout : ImageLayout} {identity : Bytes}
    (accepted : verifyHex path file layout identity = .ok ()) :
    programHex file = content layout identity := by
  simp only [verifyHex, bind_eq_ok] at accepted
  obtain ⟨values, parsed, accepted⟩ := accepted
  funext a
  split at accepted
  next same =>
    rw [← parseIntelHex_programHex parsed, same.lookup a, List.lookup_append, lookup_bytesAt,
      lookup_bytesAt, content_apply]
  · split at accepted <;> cases accepted

/-! ## Both -/

theorem decodeIdentity_length {identity : Bytes} {layout : ImageLayout} {found : Identity}
    (decoded : decodeIdentity identity layout = .ok found) : identity.length = identitySize := by
  rw [(decodeIdentity_fits decoded).2]
  exact fieldBytes_length ..

/-- A BIN and a HEX file that are accepted for a verified ELF are one image: the
HEX file writes the BIN file onto erased flash, it writes the coverage and the
identity block and nothing else, and both end with the identity of the ELF. -/
theorem artifacts_agree {image : Elf32Image} {flashOrigin flashLength : Int} {layout : ImageLayout}
    {identity : Bytes} {found : Identity} {binPath hexPath : String} {bin hexFile : Bytes}
    (made : makeLayout image flashOrigin flashLength = .ok layout)
    (verified : verifyElf image layout = .ok (identity, found))
    (binAccepted : verifyBinary binPath bin layout identity = .ok ())
    (hexAccepted : verifyHex hexPath hexFile layout identity = .ok ()) :
    (bin.length : Int) = layout.span ∧
      (∀ i < bin.length, bin[i]? = some (erasedTo 0xFF (programHex hexFile) (layout.flashOrigin + i))) ∧
      (∀ a, (programHex hexFile a).isSome ↔ layout.flashOrigin ≤ a ∧ a < layout.dataLoadEnd ∨
        layout.identityAddress ≤ a ∧ a < layout.identityEnd) ∧
      identity.length = 64 ∧ bin.drop (bin.length - 64) = identity ∧
      ∀ k : Nat, k < 64 → programHex hexFile (layout.identityEnd - 64 + k) = identity[k]? := by
  obtain ⟨-, -, -, h⟩ := makeLayout_layoutOf made
  have len := decodeIdentity_length (verifyElf_eq_ok.mp verified).2
  obtain ⟨span, -, -, last⟩ := verifyBinary_iff.mp binAccepted
  rw [verifyHex_content hexAccepted]
  refine ⟨span, fun i hi => verifyBinary_content h len binAccepted hi, content_isSome h len, len, ?_,
    fun k small => ?_⟩
  · have start : bin.length - 64 = (layout.identityAddress - layout.flashOrigin).toNat := by
      have := h.content
      rw [ImageLayout.span, h.end_eq, identitySize] at span
      omega
    rw [start, last]
  · rw [h.end_eq, identitySize, Nat.cast_ofNat, add_sub_cancel_right]
    exact content_identity (lt_of_lt_of_eq small len.symm)

theorem smallBin_verified : verifyBinary "small.bin" smallBin smallLayout smallBlock = .ok () := by
  decide +kernel

theorem smallHex_verified : verifyHex "small.hex" smallHex smallLayout smallBlock = .ok () := by
  have parsed : parseIntelHex "small.hex" smallHex = .ok (bytesAt smallLayout.identityAddress smallBlock ++
      bytesAt smallLayout.flashOrigin smallLayout.coverage) := by decide +kernel
  exact verifyHex_of_parsed parsed

theorem artifacts_agree_small : smallBin.length = 128 ∧ ∀ i < smallBin.length,
    smallBin[i]? = some (erasedTo 0xFF (programHex smallHex) (0 + i)) := by
  have made : makeLayout (smallImage smallBlock smallSegments) 0 128 = .ok smallLayout := by
    decide +kernel
  have verified : verifyElf (smallImage smallBlock smallSegments) smallLayout =
      .ok (smallBlock, smallReport) := by decide +kernel
  exact ⟨by decide +kernel, (artifacts_agree made verified smallBin_verified smallHex_verified).2.1⟩

end MspmBaremetal.ImageTool
