import MspmBaremetal.HexText
import MspmBaremetal.ArtifactAgreement

/-!
# The records of a HEX file

What `parse_intel_hex` returns for a file of well-formed records: the bytes of
the data records at their addresses.
-/

namespace MspmBaremetal.ImageTool

open ByteFields

/-- The bytes of a record: count, address, type, payload and checksum. -/
def recordBytes (recordType : BitVec 8) (address : BitVec 16) (payload : Bytes) : Bytes :=
  let body := [BitVec.ofNat 8 payload.length, BitVec.ofNat 8 (address.toNat / 0x100),
    BitVec.ofNat 8 address.toNat, recordType] ++ payload
  body ++ [-BitVec.ofNat 8 (body.map BitVec.toNat).sum]

/-- A data record, which ends in the 64 KiB window of its address. -/
structure DataRecord where
  address : BitVec 16
  payload : Bytes
  short : payload.length ≤ 255
  fits : address.toNat + payload.length ≤ 0x10000

/-- The records that may come before the EOF record. -/
inductive HexRecord
  | data (record : DataRecord)
  | extendedSegment (paragraph : BitVec 16)
  | startSegment (entry : BitVec 32)
  | extendedLinear (upper : BitVec 16)
  | startLinear (entry : BitVec 32)

namespace HexRecord

def bytes : HexRecord → Bytes
  | data record => recordBytes 0 record.address record.payload
  | extendedSegment paragraph => recordBytes 2 0 (ofNat 2 paragraph.toNat).reverse
  | startSegment entry => recordBytes 3 0 (ofNat 4 entry.toNat).reverse
  | extendedLinear upper => recordBytes 4 0 (ofNat 2 upper.toNat).reverse
  | startLinear entry => recordBytes 5 0 (ofNat 4 entry.toNat).reverse

/-- The base of the records after this one. -/
def base (base : Nat) : HexRecord → Nat
  | extendedSegment paragraph => paragraph.toNat * 0x10
  | extendedLinear upper => upper.toNat * 0x10000
  | data _ | startSegment _ | startLinear _ => base

/-- The bytes of a record, each with its place in the window. -/
def offsets : HexRecord → List (Nat × BitVec 8)
  | data record => record.payload.zipIdx.map fun (value, i) => (record.address.toNat + i, value)
  | extendedSegment _ | startSegment _ | extendedLinear _ | startLinear _ => []

/-- The bytes of a record at their absolute addresses. -/
def placed (base : Nat) (record : HexRecord) : ByteMap :=
  record.offsets.map fun (offset, value) => ((base + offset : Nat), value)

end HexRecord

def eofRecord : Bytes := recordBytes 1 0 []

/-- The base after some records. -/
def baseAfter (base : Nat) (records : List HexRecord) : Nat := records.foldl HexRecord.base base

/-- Every data byte of some records at its absolute address, in the order of the file. -/
def placed : Nat → List HexRecord → ByteMap
  | _, [] => []
  | base, record :: records => record.placed base ++ placed (record.base base) records

/-- The addresses that a map lists. -/
def ByteMap.addresses (map : ByteMap) : List Int := map.map Prod.fst

/-- A file whose first lines spell some records. -/
def HexFile (file : Bytes) (records : List Bytes) (more : List (List Char)) : Prop :=
  ∃ lines, readLines file = .ok (lines ++ more) ∧ List.Forall₂ SpelledLine records lines

/-- The records of a complete file. -/
def complete (records : List HexRecord) : List Bytes := records.map HexRecord.bytes ++ [eofRecord]

/-- The same records in another order within a base, or with their bytes in other chunks. -/
inductive Rearranged : List HexRecord → List HexRecord → Prop
  | refl (records : List HexRecord) : Rearranged records records
  | order {run run' : List HexRecord} (before after : List HexRecord) (perm : run.Perm run')
      (keeps : ∀ record ∈ run, ∀ base, record.base base = base) :
      Rearranged (before ++ run ++ after) (before ++ run' ++ after)
  | chunk {whole first second : DataRecord} (before after : List HexRecord)
      (bytes : (HexRecord.data whole).offsets =
        (HexRecord.data first).offsets ++ (HexRecord.data second).offsets) :
      Rearranged (before ++ .data whole :: after) (before ++ .data first :: .data second :: after)
  | symm {records records' : List HexRecord} :
      Rearranged records records' → Rearranged records' records
  | trans {first second third : List HexRecord} :
      Rearranged first second → Rearranged second third → Rearranged first third

/-! ## The fields of a record -/

section Fields

variable {recordType : BitVec 8} {address : BitVec 16} {payload : Bytes}

theorem recordBytes_checked (short : payload.length ≤ 255) :
    Checked (recordBytes recordType address payload) := by
  constructor
  · simp only [recordBytes, List.cons_append, List.nil_append, List.length_cons, List.length_append,
      List.length_nil, List.getD_cons_zero, BitVec.toNat_ofNat]
    omega
  · simp only [recordBytes, List.map_append, List.sum_append, List.map_cons, List.map_nil,
      List.sum_cons, List.sum_nil, BitVec.toNat_neg, BitVec.toNat_ofNat]
    omega

theorem recordBytes_count (short : payload.length ≤ 255) :
    ((recordBytes recordType address payload).getD 0 0).toNat = payload.length := by
  simp only [recordBytes, List.cons_append, List.nil_append, List.getD_cons_zero, BitVec.toNat_ofNat]
  omega

theorem recordBytes_address : ((recordBytes recordType address payload).getD 1 0).toNat * 0x100 +
    ((recordBytes recordType address payload).getD 2 0).toNat = address.toNat := by
  have := address.isLt
  simp only [recordBytes, List.cons_append, List.nil_append, List.getD_cons_succ,
    List.getD_cons_zero, BitVec.toNat_ofNat]
  omega

theorem recordBytes_type : (recordBytes recordType address payload).getD 3 0 = recordType := rfl

theorem recordBytes_payload :
    slice (recordBytes recordType address payload) 4 payload.length = payload := by
  simp [slice, recordBytes]

/-- A word in a payload is read back. -/
theorem word_getD (w : BitVec 16) : (((ofNat 2 w.toNat).reverse).getD 0 0).toNat * 0x100 +
    (((ofNat 2 w.toNat).reverse).getD 1 0).toNat = w.toNat := by
  have := w.isLt
  simp only [ofNat, List.reverse_cons, List.reverse_nil, List.nil_append, List.cons_append,
    List.getD_cons_succ, List.getD_cons_zero, BitVec.toNat_ofNat]
  omega

end Fields

theorem HexRecord.bytes_checked (record : HexRecord) : Checked record.bytes := by
  cases record with
  | data record => exact recordBytes_checked record.short
  | extendedSegment paragraph => exact recordBytes_checked (by simp)
  | startSegment entry => exact recordBytes_checked (by simp)
  | extendedLinear upper => exact recordBytes_checked (by simp)
  | startLinear entry => exact recordBytes_checked (by simp)

theorem eofRecord_checked : Checked eofRecord := recordBytes_checked (by simp)

theorem complete_checked {records : List HexRecord} : ∀ record ∈ complete records, Checked record := by
  intro record mem
  simp only [complete, List.mem_append, List.mem_map, List.mem_singleton] at mem
  obtain ⟨record, -, rfl⟩ | rfl := mem
  · exact record.bytes_checked
  · exact eofRecord_checked

/-! ## One record -/

theorem lookup_eq_none {map : ByteMap} {a : Int} : map.lookup a = none ↔ a ∉ map.addresses := by
  simp only [List.lookup_eq_none_iff, bne_iff_ne, ByteMap.addresses, List.mem_map, not_exists, not_and]
  exact forall₂_congr fun _ _ => ne_comm

theorem addresses_append (a b : ByteMap) :
    ByteMap.addresses (a ++ b) = a.addresses ++ b.addresses := List.map_append

/-- A data record is accepted if it defines no address again. -/
theorem defineBytes_iff {here : String} {absolute : Nat} {payload : Bytes} {values values' : ByteMap}
    (k : Nat) (once : values.addresses.Nodup) :
    (payload.zipIdx k).foldlM (defineByte here absolute) values = .ok values' ↔
      let new : ByteMap := (payload.zipIdx k).map fun entry => ((absolute + entry.2 : Nat), entry.1)
      (ByteMap.addresses (values ++ new)).Nodup ∧ values' = values ++ new := by
  induction payload generalizing values k with
  | nil =>
    simp only [List.zipIdx_nil, List.foldlM_nil, pure_eq_ok, List.map_nil, List.append_nil]
    exact ⟨fun same => ⟨once, same⟩, fun h => h.2⟩
  | cons b payload ih =>
    simp only [List.zipIdx_cons, List.foldlM_cons, bind_eq_ok, List.map_cons]
    have grown : ByteMap.addresses (values ++ [(((absolute + k : Nat) : Int), b)]) =
        values.addresses ++ [((absolute + k : Nat) : Int)] := addresses_append ..
    have step : ∀ next, defineByte here absolute values (b, k) = .ok next ↔
        ((absolute + k : Nat) : Int) ∉ values.addresses ∧
          next = values ++ [(((absolute + k : Nat) : Int), b)] := by
      intro next
      simp only [defineByte, failIf_bind_eq_ok, pure_eq_ok, Bool.not_eq_true,
        Option.isSome_eq_false_iff, Option.isNone_iff_eq_none, lookup_eq_none]
    simp only [step]
    constructor
    · rintro ⟨next, ⟨fresh, rfl⟩, rest⟩
      have once' : (ByteMap.addresses (values ++ [(((absolute + k : Nat) : Int), b)])).Nodup := by
        rw [grown]
        exact List.concat_eq_append ▸ once.concat fresh
      simpa using (ih (k + 1) once').mp rest
    · rintro ⟨all, rfl⟩
      rw [List.append_cons] at all
      have once' : (ByteMap.addresses (values ++ [(((absolute + k : Nat) : Int), b)])).Nodup := by
        rw [addresses_append] at all
        exact all.of_append_left
      refine ⟨_, ⟨?_, rfl⟩, (ih (k + 1) once').mpr ⟨all, List.append_cons ..⟩⟩
      rw [grown, List.nodup_append] at once'
      exact fun mem => once'.2.2 _ mem _ (List.mem_singleton.mpr rfl) rfl

section Line

variable {path : String} {state state' : HexState} {line : List Char} {n : Nat}

/-- After the EOF record no line is accepted. -/
theorem hexLine_closed (closed : state.sawEof = true) : hexLine path state (line, n) ≠ .ok state' := by
  intro h
  simp only [hexLine, bind_eq_ok, failIf_eq_ok] at h
  obtain ⟨-, -, -, opened, -⟩ := h
  exact opened closed

theorem hexLine_eof (spelled : SpelledLine eofRecord line) (opened : state.sawEof = false) :
    hexLine path state (line, n) = .ok { state with sawEof := true } := by
  simp only [hexLine, spelled.hexRecord_eq eofRecord_checked, bind_eq_ok, failIf_eq_ok, opened]
  refine ⟨_, rfl, (), Bool.false_ne_true, ?_⟩
  rfl

theorem placed_data (base : Nat) (record : DataRecord) : (HexRecord.data record).placed base =
    record.payload.zipIdx.map
      fun entry => (((base + record.address.toNat + entry.2 : Nat) : Int), entry.1) := by
  simp [HexRecord.placed, HexRecord.offsets, Nat.add_assoc]

/-- A record before the EOF record is accepted if it defines no address again. -/
theorem hexLine_record {record : HexRecord} (spelled : SpelledLine record.bytes line)
    (opened : state.sawEof = false) (once : state.values.addresses.Nodup) :
    hexLine path state (line, n) = .ok state' ↔
      (ByteMap.addresses (state.values ++ record.placed state.base)).Nodup ∧
        state' = ⟨state.values ++ record.placed state.base, record.base state.base, false⟩ := by
  have read := spelled.hexRecord_eq record.bytes_checked (path ++ ":" ++ toString (n + 1))
  obtain ⟨values, base, sawEof⟩ := state
  obtain rfl : sawEof = false := opened
  have word : ∀ w : BitVec 16, ((ofNat 2 w.toNat).reverse).length ≤ 255 := by simp
  have entry : ∀ w : BitVec 32, ((ofNat 4 w.toNat).reverse).length ≤ 255 := by simp
  unfold hexLine
  simp only [read]
  -- the guards of every record kind but data hold, and it places no byte
  cases record with
  | data record =>
    rw [placed_data]
    simp only [bind_eq_ok, failIf_eq_ok, Except.ok.injEq, exists_eq_left', HexRecord.bytes,
      recordBytes_count record.short, recordBytes_address, recordBytes_type, recordBytes_payload]
    simp only [BitVec.ofNat_eq_ofNat, BitVec.toNat_ofNat, Nat.zero_mod, bind_eq_ok,
      defineBytes_iff 0 once, pure_eq_ok, HexRecord.base]
    constructor
    · rintro ⟨-, -, _, ⟨all, rfl⟩, rfl⟩
      exact ⟨all, rfl⟩
    · rintro ⟨all, rfl⟩
      exact ⟨(), Bool.false_ne_true, _, ⟨all, rfl⟩, rfl⟩
  | extendedSegment _ | startSegment _ | extendedLinear _ | startLinear _ =>
    simp only [bind_eq_ok, failIf_eq_ok, Except.ok.injEq, exists_eq_left', HexRecord.bytes,
      recordBytes_count (word _), recordBytes_count (entry _), recordBytes_address,
      recordBytes_type, recordBytes_payload, word_getD]
    simp [bind_eq_ok, failIf_eq_ok, pure_eq_ok, HexRecord.placed, HexRecord.offsets, HexRecord.base,
      once, -bind_pure_comp]

end Line

/-! ## Many records -/

theorem placed_append (base : Nat) (before after : List HexRecord) :
    placed base (before ++ after) = placed base before ++ placed (baseAfter base before) after := by
  induction before generalizing base with
  | nil => rfl
  | cons record before ih =>
    rw [List.cons_append, placed, ih, placed, List.append_assoc]
    rfl

theorem baseAfter_append (base : Nat) (before after : List HexRecord) :
    baseAfter base (before ++ after) = baseAfter (baseAfter base before) after :=
  List.foldl_append

section Lines

variable {path : String} {state state' : HexState} {lines : List (List Char)}
  {records : List HexRecord}

/-- The records before the EOF record are accepted if they define no address twice. -/
theorem hexLines_records (k : Nat)
    (spelled : List.Forall₂ SpelledLine (records.map HexRecord.bytes) lines)
    (opened : state.sawEof = false) (once : state.values.addresses.Nodup) :
    (lines.zipIdx k).foldlM (hexLine path) state = .ok state' ↔
      (ByteMap.addresses (state.values ++ placed state.base records)).Nodup ∧
        state' = ⟨state.values ++ placed state.base records, baseAfter state.base records, false⟩ := by
  induction records generalizing lines state k with
  | nil =>
    cases spelled
    obtain ⟨values, base, sawEof⟩ := state
    obtain rfl : sawEof = false := opened
    simp only [List.zipIdx_nil, List.foldlM_nil, pure_eq_ok, placed, List.append_nil]
    exact ⟨fun same => ⟨once, same⟩, fun h => h.2⟩
  | cons record records ih =>
    obtain ⟨first, rest, rfl⟩ : ∃ line rest, lines = line :: rest := by
      cases spelled
      exact ⟨_, _, rfl⟩
    obtain ⟨here, further⟩ := List.forall₂_cons.mp spelled
    rw [List.zipIdx_cons, List.foldlM_cons, bind_eq_ok]
    simp only [hexLine_record here opened once, placed, ← List.append_assoc]
    constructor
    · rintro ⟨_, ⟨once', rfl⟩, run⟩
      exact (ih (k + 1) further rfl once').mp run
    · rintro ⟨all, rfl⟩
      have once' : (ByteMap.addresses (state.values ++ record.placed state.base)).Nodup := by
        rw [addresses_append] at all
        exact all.of_append_left
      exact ⟨_, ⟨once', rfl⟩, (ih (k + 1) further rfl once').mpr ⟨all, rfl⟩⟩

theorem hexLines_start (spelled : List.Forall₂ SpelledLine (records.map HexRecord.bytes) lines) :
    lines.zipIdx.foldlM (hexLine path) ⟨[], 0, false⟩ = .ok state' ↔
      (placed 0 records).addresses.Nodup ∧ state' = ⟨placed 0 records, baseAfter 0 records, false⟩ :=
  hexLines_records 0 spelled rfl List.nodup_nil

/-- Every line of an accepted file is an acceptable record. -/
theorem hexLines_accepted (k : Nat) (run : (lines.zipIdx k).foldlM (hexLine path) state = .ok state') :
    ∀ line ∈ lines, ∃ here record, hexRecord here line = .ok record := by
  induction lines generalizing state k with
  | nil => exact fun line mem => absurd mem List.not_mem_nil
  | cons first lines ih =>
    rw [List.zipIdx_cons, List.foldlM_cons, bind_eq_ok] at run
    obtain ⟨next, step, run⟩ := run
    intro line mem
    rcases List.mem_cons.mp mem with rfl | mem
    · simp only [hexLine, bind_eq_ok] at step
      obtain ⟨record, accepted, -⟩ := step
      exact ⟨_, record, accepted⟩
    · exact ih (k + 1) run line mem

end Lines

theorem not_ok_iff {α : Type} {x : Except String α} :
    (∃ message, x = .error message) ↔ ∀ value, x ≠ .ok value := by
  cases x with
  | error message => simp
  | ok value => simp

theorem complete_spelled {records : List HexRecord} {lines : List (List Char)}
    (spelled : List.Forall₂ SpelledLine (complete records) lines) : ∃ front last,
      lines = front ++ [last] ∧ List.Forall₂ SpelledLine (records.map HexRecord.bytes) front ∧
        SpelledLine eofRecord last := by
  have front : List.Forall₂ SpelledLine (records.map HexRecord.bytes) _ :=
    (List.forall₂_take_append _ _ _ spelled.flip).flip
  have last : List.Forall₂ SpelledLine [eofRecord] _ :=
    (List.forall₂_drop_append _ _ _ spelled.flip).flip
  obtain ⟨line, rest, eof, none, dropped⟩ := List.forall₂_cons_left_iff.mp last
  rw [List.forall₂_nil_left_iff.mp none] at dropped
  exact ⟨_, line, by rw [← dropped, List.take_append_drop], front, eof⟩

section Files

variable {path : String} {file : Bytes} {records : List HexRecord}

theorem parseIntelHex_of_lines {lines : List (List Char)} (read : readLines file = .ok lines)
    (values : ByteMap) : parseIntelHex path file = .ok values ↔
      ∃ state, lines.zipIdx.foldlM (hexLine path) ⟨[], 0, false⟩ = .ok state ∧
        state.sawEof = true ∧ values = state.values := by
  simp only [parseIntelHex, read, bind_eq_ok, failIf_eq_ok, pure_eq_ok, Except.ok.injEq,
    exists_eq_left', Bool.not_eq_false, exists_const]

/-- A complete file with nothing after it is accepted if no address is defined
twice, and returns its bytes as they are placed. -/
theorem parseIntelHex_complete (written : HexFile file (complete records) []) (values : ByteMap) :
    parseIntelHex path file = .ok values ↔
      (placed 0 records).addresses.Nodup ∧ values = placed 0 records := by
  obtain ⟨lines, read, spelled⟩ := written
  obtain ⟨front, last, rfl, fronts, eof⟩ := complete_spelled spelled
  rw [List.append_nil] at read
  rw [parseIntelHex_of_lines read]
  simp only [List.zipIdx_append, List.foldlM_append, bind_eq_ok, List.zipIdx_cons, List.zipIdx_nil,
    List.foldlM_cons, List.foldlM_nil, pure_eq_ok]
  simp only [hexLines_start fronts]
  constructor
  · rintro ⟨state, ⟨_, ⟨once, rfl⟩, _, step, rfl⟩, -, rfl⟩
    rw [hexLine_eof eof rfl] at step
    cases step
    exact ⟨once, rfl⟩
  · rintro ⟨once, rfl⟩
    exact ⟨_, ⟨_, ⟨once, rfl⟩, _, hexLine_eof eof rfl, rfl⟩, rfl, rfl⟩

theorem parseIntelHex_incomplete
    (written : HexFile file (records.map HexRecord.bytes) []) (values : ByteMap) :
    parseIntelHex path file ≠ .ok values := by
  obtain ⟨lines, read, spelled⟩ := written
  rw [List.append_nil] at read
  rw [Ne, parseIntelHex_of_lines read]
  rintro ⟨state, run, closed, -⟩
  obtain ⟨-, rfl⟩ := (hexLines_start spelled).mp run
  cases closed

theorem parseIntelHex_more {more : List (List Char)} (some : more ≠ [])
    (written : HexFile file (complete records) more) (values : ByteMap) :
    parseIntelHex path file ≠ .ok values := by
  obtain ⟨lines, read, spelled⟩ := written
  obtain ⟨front, last, rfl, fronts, eof⟩ := complete_spelled spelled
  obtain ⟨next, more, rfl⟩ := List.exists_cons_of_ne_nil some
  rw [Ne, parseIntelHex_of_lines read, List.append_assoc]
  simp only [List.zipIdx_append, List.foldlM_append, bind_eq_ok, List.zipIdx_cons, List.zipIdx_nil,
    List.foldlM_cons, List.foldlM_nil, pure_eq_ok]
  rintro ⟨state, ⟨opened, run, _, ⟨closed, step, rfl⟩, after, further, -⟩, -, -⟩
  obtain ⟨-, rfl⟩ := (hexLines_start fronts).mp run
  rw [hexLine_eof eof rfl] at step
  cases step
  exact hexLine_closed rfl further

/-- A changed digit anywhere in a complete file makes it unacceptable. -/
theorem parseIntelHex_replaced {before after : Bytes} {b b' : BitVec 8} {n n' : Nat}
    (written : HexFile (before ++ b :: after) (complete records) [])
    (old : hexDigit (byteChar b) = some n) (new : hexDigit (byteChar b') = some n') (differ : n ≠ n')
    (values : ByteMap) : parseIntelHex path (before ++ b' :: after) ≠ .ok values := by
  intro parsed
  obtain ⟨lines, read, spelled⟩ := written
  rw [List.append_nil] at read
  obtain ⟨earlier, start, stop, later, rfl, replaced⟩ := readLines_replace old new read
  have parsed' := parsed
  simp only [parseIntelHex, bind_eq_ok] at parsed'
  obtain ⟨lines', read', -⟩ := parsed'
  obtain ⟨state, run, -, -⟩ := (parseIntelHex_of_lines read' values).mp parsed
  rw [replaced lines' read'] at run
  obtain ⟨here, record', accepted⟩ := hexLines_accepted 0 run (start ++ byteChar b' :: stop) (by simp)
  obtain ⟨record, mem, line⟩ : ∃ record ∈ complete records,
      SpelledLine record (start ++ byteChar b :: stop) := by
    have rest : List.Forall₂ SpelledLine _ ((start ++ byteChar b :: stop) :: later) :=
      List.forall₂_drop_append _ _ _ spelled
    obtain ⟨record, others, line, -, dropped⟩ := List.forall₂_cons_right_iff.mp rest
    exact ⟨record, List.mem_of_mem_drop (dropped ▸ List.mem_cons_self), line⟩
  exact line.hexRecord_replaced (complete_checked record mem) old new differ here record' accepted

end Files

/-! ## Rearranged records -/

theorem placed_keeps {run : List HexRecord}
    (keeps : ∀ record ∈ run, ∀ base, record.base base = base) (base : Nat) :
    placed base run = run.flatMap (HexRecord.placed base) ∧ baseAfter base run = base := by
  induction run with
  | nil => exact ⟨rfl, rfl⟩
  | cons record run ih =>
    obtain ⟨bytes, same⟩ := ih fun other mem => keeps other (List.mem_cons_of_mem record mem)
    have here := keeps record List.mem_cons_self base
    rw [placed, here, bytes, List.flatMap_cons]
    exact ⟨rfl, by rw [baseAfter, List.foldl_cons, here]; exact same⟩

/-- Records in another order or other chunks place the same bytes. -/
theorem Rearranged.placed_perm {records records' : List HexRecord} (h : Rearranged records records')
    (base : Nat) : (placed base records).Perm (placed base records') := by
  induction h generalizing base with
  | refl records => exact List.Perm.refl _
  | @order run run' before after perm keeps =>
    have keeps' : ∀ record ∈ run', ∀ base, record.base base = base :=
      fun record mem => keeps record (perm.mem_iff.mpr mem)
    rw [placed_append, placed_append, placed_append, placed_append, baseAfter_append,
      baseAfter_append]
    obtain ⟨bytes, same⟩ := placed_keeps keeps (baseAfter base before)
    obtain ⟨bytes', same'⟩ := placed_keeps keeps' (baseAfter base before)
    rw [same, same', bytes, bytes']
    exact ((perm.flatMap_right _).append_left _).append_right _
  | @chunk whole first second before after bytes =>
    have split : ∀ base, (HexRecord.data whole).placed base =
        (HexRecord.data first).placed base ++ (HexRecord.data second).placed base := by
      intro base
      rw [HexRecord.placed, bytes, List.map_append]
      rfl
    rw [placed_append, placed_append, placed, placed, placed, split, List.append_assoc]
    exact List.Perm.refl _
  | symm _ ih => exact (ih base).symm
  | trans _ _ ih ih' => exact (ih base).trans (ih' base)

theorem lookup_eq_some {map : ByteMap} (once : map.addresses.Nodup) {a : Int} {value : BitVec 8} :
    map.lookup a = some value ↔ (a, value) ∈ map := by
  induction map with
  | nil => simp
  | cons entry map ih =>
    obtain ⟨key, byte⟩ := entry
    obtain ⟨fresh, once'⟩ := List.nodup_cons.mp once
    rw [lookup_cons, List.mem_cons, Prod.mk.injEq]
    by_cases here : a = key
    · have unlisted : (key, value) ∉ map := by
        intro listed
        have key_mem := List.mem_map_of_mem (f := Prod.fst) listed
        exact fresh key_mem
      simp [here, unlisted, eq_comm]
    · rw [if_neg here, ih once']
      simp [here]

/-- A file of well-formed records. It is accepted if it defines no address
twice, ends its records with an EOF record and holds nothing after that; what
it then says does not depend on the order and the chunks of the bytes under a
base, and no single digit can change unnoticed. -/
theorem hexFile_parsed (path : String) (file : Bytes) (records : List HexRecord) :
    (HexFile file (complete records) [] →
      ((placed 0 records).addresses.Nodup →
        parseIntelHex path file = .ok (placed 0 records) ∧
          ∀ a value, (placed 0 records).lookup a = some value ↔ (a, value) ∈ placed 0 records) ∧
      (¬(placed 0 records).addresses.Nodup → ∃ message, parseIntelHex path file = .error message) ∧
      (∀ file' records', Rearranged records records' → HexFile file' (complete records') [] →
        (∃ message message', parseIntelHex path file = .error message ∧
          parseIntelHex path file' = .error message') ∨
        ∃ values values', parseIntelHex path file = .ok values ∧
          parseIntelHex path file' = .ok values' ∧ values.Same values') ∧
      ∀ before b b' after n n', file = before ++ b :: after → hexDigit (byteChar b) = some n →
        hexDigit (byteChar b') = some n' → n ≠ n' →
          ∃ message, parseIntelHex path (before ++ b' :: after) = .error message) ∧
    (HexFile file (records.map HexRecord.bytes) [] →
      ∃ message, parseIntelHex path file = .error message) ∧
    ∀ more, more ≠ [] → HexFile file (complete records) more →
      ∃ message, parseIntelHex path file = .error message := by
  refine ⟨fun written => ⟨fun once => ⟨(parseIntelHex_complete written _).mpr ⟨once, rfl⟩,
    fun a value => lookup_eq_some once⟩, ?_, ?_, ?_⟩, ?_, ?_⟩
  · intro twice
    exact not_ok_iff.mpr fun values parsed =>
      twice ((parseIntelHex_complete written values).mp parsed).1
  · intro file' records' rearranged written'
    have perm := rearranged.placed_perm 0
    have nodup : (placed 0 records).addresses.Nodup ↔ (placed 0 records').addresses.Nodup :=
      (perm.map _).nodup_iff
    by_cases once : (placed 0 records).addresses.Nodup
    · refine .inr ⟨_, _, (parseIntelHex_complete written _).mpr ⟨once, rfl⟩,
        (parseIntelHex_complete written' _).mpr ⟨nodup.mp once, rfl⟩, ?_⟩
      intro key _
      apply Option.ext
      intro value
      rw [lookup_eq_some once, lookup_eq_some (nodup.mp once), perm.mem_iff]
    · obtain ⟨message, failed⟩ := not_ok_iff.mpr fun values parsed =>
        once ((parseIntelHex_complete written values).mp parsed).1
      obtain ⟨message', failed'⟩ := not_ok_iff.mpr fun values parsed =>
        once (nodup.mpr ((parseIntelHex_complete written' values).mp parsed).1)
      exact .inl ⟨message, message', failed, failed'⟩
  · rintro before b b' after n n' rfl old new differ
    exact not_ok_iff.mpr (parseIntelHex_replaced written old new differ)
  · exact fun written => not_ok_iff.mpr (parseIntelHex_incomplete written)
  · exact fun more some written => not_ok_iff.mpr (parseIntelHex_more some written)

/-- Two data records above 0x10000. -/
def lettersHex : Bytes :=
  asciiBytes [':', '0', '2', '0', '0', '0', '0', '0', '4', '0', '0', '0', '1', 'F', '9', '\n',
    ':', '0', '2', '0', '0', '0', '0', '0', '0', '4', '1', '4', '2', '7', 'B', '\n',
    ':', '0', '1', '0', '0', '1', '0', '0', '0', '4', '3', 'A', 'C', '\n',
    ':', '0', '0', '0', '0', '0', '0', '0', '1', 'F', 'F', '\n']

/-- The second record first, and the other one in two. -/
def movedHex : Bytes :=
  asciiBytes [':', '0', '2', '0', '0', '0', '0', '0', '4', '0', '0', '0', '1', 'F', '9', '\n',
    ':', '0', '1', '0', '0', '1', '0', '0', '0', '4', '3', 'a', 'c', '\n',
    ':', '0', '1', '0', '0', '0', '0', '0', '0', '4', '1', 'B', 'E', '\r', '\n',
    ':', '0', '1', '0', '0', '0', '1', '0', '0', '4', '2', 'B', 'C', '\n',
    ':', '0', '0', '0', '0', '0', '0', '0', '1', 'F', 'F', '\n']

def letterPair : DataRecord := ⟨0x0000, [0x41, 0x42], by decide, by decide⟩
def firstLetter : DataRecord := ⟨0x0000, [0x41], by decide, by decide⟩
def secondLetter : DataRecord := ⟨0x0001, [0x42], by decide, by decide⟩
def thirdLetter : DataRecord := ⟨0x0010, [0x43], by decide, by decide⟩

def letters : List HexRecord := [.extendedLinear 1, .data letterPair, .data thirdLetter]

def movedLetters : List HexRecord :=
  [.extendedLinear 1, .data thirdLetter, .data firstLetter, .data secondLetter]

theorem letters_moved : Rearranged letters movedLetters := by
  have swapped : Rearranged letters [.extendedLinear 1, .data thirdLetter, .data letterPair] :=
    @Rearranged.order [.data letterPair, .data thirdLetter] [.data thirdLetter, .data letterPair]
      [.extendedLinear 1] [] (.swap ..) (by simp [HexRecord.base])
  exact swapped.trans (.chunk [.extendedLinear 1, .data thirdLetter] [] (by decide))

theorem hexFile_parsed_letters :
    parseIntelHex "letters.hex" lettersHex = .ok [(0x10000, 0x41), (0x10001, 0x42), (0x10010, 0x43)] ∧
    (∃ values, parseIntelHex "letters.hex" movedHex = .ok values ∧
      ByteMap.Same [(0x10000, 0x41), (0x10001, 0x42), (0x10010, 0x43)] values) ∧
    (∃ message, parseIntelHex "letters.hex" (lettersHex.set 25 0x32) = .error message) ∧
    (∃ message, parseIntelHex "letters.hex" (lettersHex.take 46) = .error message) ∧
    ∃ message, parseIntelHex "letters.hex" (lettersHex ++ [0x0A]) = .error message := by
  have written : HexFile lettersHex (complete letters) [] := by
    refine ⟨_, rfl, .cons ⟨_, rfl, ?_⟩ (.cons ⟨_, rfl, ?_⟩ (.cons ⟨_, rfl, ?_⟩ (.cons ⟨_, rfl, ?_⟩ .nil)))⟩
    all_goals exact spelled_of_fromHex (by decide) (by decide +kernel)
  have moved : HexFile movedHex (complete movedLetters) [] := by
    refine ⟨_, rfl, .cons ⟨_, rfl, ?_⟩ (.cons ⟨_, rfl, ?_⟩ (.cons ⟨_, rfl, ?_⟩ (.cons ⟨_, rfl, ?_⟩
      (.cons ⟨_, rfl, ?_⟩ .nil))))⟩
    all_goals exact spelled_of_fromHex (by decide) (by decide +kernel)
  have cut : HexFile (lettersHex.take 46) (letters.map HexRecord.bytes) [] := by
    refine ⟨_, rfl, .cons ⟨_, rfl, ?_⟩ (.cons ⟨_, rfl, ?_⟩ (.cons ⟨_, rfl, ?_⟩ .nil))⟩
    all_goals exact spelled_of_fromHex (by decide) (by decide +kernel)
  have longer : HexFile (lettersHex ++ [0x0A]) (complete letters) [[]] := by
    refine ⟨[_, _, _, _], rfl, .cons ⟨_, rfl, ?_⟩ (.cons ⟨_, rfl, ?_⟩ (.cons ⟨_, rfl, ?_⟩
      (.cons ⟨_, rfl, ?_⟩ .nil)))⟩
    all_goals exact spelled_of_fromHex (by decide) (by decide +kernel)
  obtain ⟨⟨once, -, rearranged, digit⟩, -⟩ := And.imp_left (· written)
    (hexFile_parsed "letters.hex" lettersHex letters)
  obtain ⟨parsed, -⟩ := once (by decide)
  refine ⟨parsed, ?_, ?_, ?_, ?_⟩
  · rcases rearranged movedHex movedLetters letters_moved moved with ⟨message, -, failed, -⟩ | h
    · cases parsed.symm.trans failed
    · obtain ⟨values, values', parsed', moved, same⟩ := h
      obtain rfl := Except.ok.inj (parsed.symm.trans parsed')
      exact ⟨values', moved, same⟩
  · exact digit (lettersHex.take 25) 0x34 0x32 (lettersHex.drop 26) 4 2 rfl rfl rfl (by decide)
  · exact (hexFile_parsed "letters.hex" _ letters).2.1 cut
  · exact (hexFile_parsed "letters.hex" _ letters).2.2 [[]] (by decide) longer

end MspmBaremetal.ImageTool
