import MspmBaremetal.ImageIdentity

/-!
# Build identity and boot banner

`lib_buildinfo`, and `lib_boot` over `lib_debug`.
-/

namespace MspmBaremetal

/-- `lib_buildinfo_t`. -/
structure BuildInfo where
  versionMajor : BitVec 8
  versionMinor : BitVec 8
  yearHigh : BitVec 8
  yearLow : BitVec 8
  month : BitVec 8
  day : BitVec 8
  hour : BitVec 8
  minute : BitVec 8
  deriving DecidableEq, Repr

namespace BuildInfo

abbrev Byte := BitVec 8

def isBcd (value : Byte) : Bool := value &&& 0x0f ≤ 9 && value >>> 4 ≤ 9

/-- `lib_buildinfo_has_timestamp`; a null pointer is `none`. -/
def hasTimestamp : Option BuildInfo → Bool
  | none => false
  | some b => b.yearHigh != 0 || b.yearLow != 0 || b.month != 0 || b.day != 0 || b.hour != 0 ||
    b.minute != 0

def isValid (buildinfo : Option BuildInfo) : Bool :=
  match buildinfo with
  | none => false
  | some b =>
    if !isBcd b.versionMajor || !isBcd b.versionMinor then false
    else if !hasTimestamp buildinfo then true
    else
      isBcd b.yearHigh && isBcd b.yearLow && isBcd b.month && isBcd b.day && isBcd b.hour &&
      isBcd b.minute && 0x01 ≤ b.month && b.month ≤ 0x12 && 0x01 ≤ b.day && b.day ≤ 0x31 &&
      b.hour ≤ 0x23 && b.minute ≤ 0x59

/-- `LIB_BUILDINFO_DEVICE_INFO_SIZE`. -/
def deviceInfoSize : BitVec 32 := 8

def toBytes (b : BuildInfo) : List Byte :=
  [b.versionMajor, b.versionMinor, b.yearHigh, b.yearLow, b.month, b.day, b.hour, b.minute]

/-- `bytes[index] = value` for the values in order. -/
def storeAll (bytes : Nat → Byte) (index : Nat) : List Byte → Nat → Byte
  | [] => bytes
  | value :: values => storeAll (Function.update bytes index value) (index + 1) values

/-- `lib_buildinfo_write_device_info`. -/
def writeDeviceInfo (buildinfo : Option BuildInfo) (bytes : Option (Nat → Byte))
    (length : BitVec 32) : Bool × Option (Nat → Byte) :=
  match buildinfo, bytes with
  | some b, some old =>
    if !isValid (some b) || length < deviceInfoSize then (false, bytes)
    else (true, some (storeAll old 0 b.toBytes))
  | _, _ => (false, bytes)

/-! ## The debug channel -/

/-- `g_writer`: what it does with the bytes and how many it takes; `none` is a
null pointer. -/
abbrev Writer (W : Type*) := Option (W → List Byte → W × BitVec 32)

variable {W : Type*}

/-- `lib_debug_write`; `none` is a null `data`. -/
def debugWrite (writer : Writer W) (w : W) (data : Option (List Byte)) (length : BitVec 32) :
    W × BitVec 32 :=
  match writer, data with
  | none, _ => (w, 0)
  | some f, some data => f w (data.take length.toNat)
  | some f, none => if length ≠ 0 then (w, 0) else f w []

def writeByte (writer : Writer W) (w : W) (value : Byte) : W :=
  (debugWrite writer w (some [value]) 1).1

/-- `lib_boot_write_text`; the text ends before its first zero byte. -/
def writeText (writer : Writer W) (w : W) : List Byte → W
  | [] => w
  | value :: text => if value = 0 then w else writeText writer (writeByte writer w value) text

def writeBcd (writer : Writer W) (w : W) (value : Byte) : W :=
  writeByte writer (writeByte writer w (0x30 + value >>> 4)) (0x30 + (value &&& 0x0f))

/-- A string literal's bytes. -/
def text (s : String) : List Byte := s.toList.map fun c => BitVec.ofNat 8 c.toNat

/-- `lib_boot_write_banner`. -/
def writeBanner (writer : Writer W) (w : W) (applicationName : Option (List Byte))
    (buildinfo : Option BuildInfo) : W :=
  let w := writeText writer w (text "mspm-baremetal: ")
  let w := writeText writer w (applicationName.getD (text "unnamed"))
  match buildinfo with
  | none => writeText writer w (text " build=invalid\r\n")
  | some b =>
    if !isValid (some b) then writeText writer w (text " build=invalid\r\n")
    else
      let w := writeText writer w (text " v")
      let w := writeBcd writer w b.versionMajor
      let w := writeByte writer w 0x2e
      let w := writeBcd writer w b.versionMinor
      let w := writeText writer w (text " build=")
      if !hasTimestamp (some b) then writeText writer w (text "unspecified\r\n")
      else
        let w := writeBcd writer w b.yearHigh
        let w := writeBcd writer w b.yearLow
        let w := writeByte writer w 0x2d
        let w := writeBcd writer w b.month
        let w := writeByte writer w 0x2d
        let w := writeBcd writer w b.day
        let w := writeByte writer w 0x54
        let w := writeBcd writer w b.hour
        let w := writeByte writer w 0x3a
        let w := writeBcd writer w b.minute
        writeText writer w (text "Z\r\n")

/-! ## The device information -/

theorem storeAll_apply (bytes : Nat → Byte) (index : Nat) (values : List Byte) (i : Nat) :
    storeAll bytes index values i =
      if index ≤ i then values[i - index]?.getD (bytes i) else bytes i := by
  induction values generalizing bytes index with
  | nil => simp [storeAll]
  | cons value values ih =>
    rw [storeAll, ih]
    by_cases here : i = index
    · subst here
      simp
    · rw [Function.update_of_ne here]
      by_cases later : index + 1 ≤ i
      · rw [if_pos later, if_pos (by omega), show i - index = i - (index + 1) + 1 by omega,
          List.getElem?_cons_succ]
      · rw [if_neg later, if_neg (by omega)]

/-- The call either changes nothing, or stores the eight bytes of a valid build
and nothing else. -/
theorem writeDeviceInfo_spec (buildinfo : Option BuildInfo) (bytes : Option (Nat → Byte))
    (length : BitVec 32) : writeDeviceInfo buildinfo bytes length = (false, bytes) ∨
      ∃ b old new, buildinfo = some b ∧ bytes = some old ∧ isValid (some b) = true ∧
        8 ≤ length.toNat ∧ writeDeviceInfo buildinfo bytes length = (true, some new) ∧
        ∀ i, new i = b.toBytes[i]?.getD (old i) := by
  match buildinfo, bytes with
  | none, _ => exact .inl rfl
  | some b, none => exact .inl rfl
  | some b, some old =>
    by_cases refused : (!isValid (some b) || decide (length < deviceInfoSize)) = true
    · exact .inl (if_pos refused)
    · simp only [Bool.or_eq_true, Bool.not_eq_true', decide_eq_true_eq, not_or,
        Bool.not_eq_false, BitVec.not_lt] at refused
      refine .inr ⟨b, old, _, rfl, rfl, refused.1, refused.2, if_neg ?_, fun i => ?_⟩
      · simp [refused.1, BitVec.not_lt.mpr refused.2]
      · rw [storeAll_apply, if_pos (Nat.zero_le i), Nat.sub_zero]

theorem isBcd_iff (value : Byte) : isBcd value = true ↔ ImageTool.Bcd value.toNat := by
  revert value
  decide

/-- `g_buildinfo`: the version of the build and no timestamp. -/
def ofVersion (major minor : Nat) : BuildInfo where
  versionMajor := BitVec.ofNat 8 major
  versionMinor := BitVec.ofNat 8 minor
  yearHigh := 0
  yearLow := 0
  month := 0
  day := 0
  hour := 0
  minute := 0

/-- A version that the stamping tool accepts makes a valid build. -/
theorem ofVersion_valid {value : List Char} {major minor : Nat}
    (accepted : ImageTool.parseBcdVersion value = .ok (major, minor)) :
    isValid (some (ofVersion major minor)) = true := by
  obtain ⟨high, low⟩ := ImageTool.parseBcdVersion_bcd accepted
  have bcd {byte : Nat} (h : ImageTool.Bcd byte) : isBcd (BitVec.ofNat 8 byte) = true := by
    have fits : byte < 2 ^ 8 := by
      unfold ImageTool.Bcd at h
      omega
    rwa [isBcd_iff, BitVec.toNat_ofNat, Nat.mod_eq_of_lt fits]
  simp [isValid, ofVersion, hasTimestamp, bcd high, bcd low]

/-! ## The banner as one text -/

def bcdText (value : Byte) : List Byte := [0x30 + value >>> 4, 0x30 + (value &&& 0x0f)]

/-- The bytes of a C string before its end. -/
def cString (bytes : List Byte) : List Byte := bytes.takeWhile (· ≠ 0)

/-- The build the banner may show. -/
def shown (buildinfo : Option BuildInfo) : Option BuildInfo := buildinfo.filter fun b => isValid (some b)

def stampText (b : BuildInfo) : List Byte :=
  bcdText b.yearHigh ++ bcdText b.yearLow ++ [0x2d] ++ bcdText b.month ++ [0x2d] ++ bcdText b.day ++
    [0x54] ++ bcdText b.hour ++ [0x3a] ++ bcdText b.minute ++ text "Z\r\n"

/-- What follows the name. -/
def tailText : Option BuildInfo → List Byte
  | none => text " build=invalid\r\n"
  | some b => text " v" ++ bcdText b.versionMajor ++ [0x2e] ++ bcdText b.versionMinor ++
    text " build=" ++ if hasTimestamp (some b) then stampText b else text "unspecified\r\n"

def banner (applicationName : Option (List Byte)) (buildinfo : Option BuildInfo) : List Byte :=
  text "mspm-baremetal: " ++ cString (applicationName.getD (text "unnamed")) ++
    tailText (shown buildinfo)

theorem writeText_eq (writer : Writer W) (w : W) (bytes : List Byte) :
    writeText writer w bytes = (cString bytes).foldl (writeByte writer) w := by
  induction bytes generalizing w with
  | nil => rfl
  | cons value bytes ih =>
    by_cases last : value = 0
    · simp [writeText, cString, last]
    · have more : cString (value :: bytes) = value :: cString bytes :=
        List.takeWhile_cons_of_pos (by simpa using last)
      rw [writeText, if_neg last, ih, more, List.foldl_cons]

theorem writeBcd_eq (writer : Writer W) (w : W) (value : Byte) :
    writeBcd writer w value = (bcdText value).foldl (writeByte writer) w := rfl

/-- The banner is written a byte at a time. -/
theorem writeBanner_eq (writer : Writer W) (w : W) (applicationName : Option (List Byte))
    (buildinfo : Option BuildInfo) : writeBanner writer w applicationName buildinfo =
      (banner applicationName buildinfo).foldl (writeByte writer) w := by
  have literal : ∀ s ∈ ["mspm-baremetal: ", " build=invalid\r\n", " v", " build=",
      "unspecified\r\n", "Z\r\n"], cString (text s) = text s := by decide
  simp only [List.mem_cons, List.not_mem_nil, or_false, forall_eq_or_imp, forall_eq] at literal
  obtain ⟨opening, invalid, version, build, unspecified, ending⟩ := literal
  cases buildinfo with
  | none =>
    simp only [writeBanner, banner, shown, Option.filter_none, tailText, writeText_eq,
      List.foldl_append, opening, invalid]
  | some b =>
    by_cases valid : isValid (some b) = true
    · by_cases stamped : hasTimestamp (some b) = true
      · simp only [writeBanner, banner, shown, Option.filter_some, valid, stamped, tailText, stampText,
          writeText_eq, writeBcd_eq, List.foldl_append, opening, version, build, ending, if_true,
          Bool.not_true, Bool.false_eq_true, if_false, List.foldl_cons, List.foldl_nil]
      · simp only [writeBanner, banner, shown, Option.filter_some, valid, stamped, tailText,
          writeText_eq, writeBcd_eq, List.foldl_append, opening, version, build, unspecified, if_true,
          Bool.not_true, Bool.false_eq_true, if_false, List.foldl_cons, List.foldl_nil,
          Bool.not_false]
    · simp only [writeBanner, banner, shown, Option.filter_some, valid, tailText, writeText_eq,
        List.foldl_append, opening, invalid, Bool.not_false, if_true, Bool.false_eq_true, if_false]

/-! ## Telling builds apart -/

theorem nibbles (value : Byte) : (value >>> 4) <<< 4 ||| (value &&& 0x0f) = value := by
  revert value
  decide

theorem bcdText_inj {v w : Byte} (h : bcdText v = bcdText w) : v = w := by
  simp only [bcdText, List.cons.injEq, BitVec.add_right_inj, and_true] at h
  rw [← nibbles v, ← nibbles w, h.1, h.2]

/-- The last four bytes tell the three kinds of build apart. -/
inductive Ending : Option BuildInfo → List Byte → Prop
  | invalid : Ending none [0x0a, 0x0d, 0x64, 0x69]
  | unspecified (b : BuildInfo) (absent : hasTimestamp (some b) = false) :
      Ending (some b) [0x0a, 0x0d, 0x64, 0x65]
  | stamped (b : BuildInfo) (present : hasTimestamp (some b) = true) :
      Ending (some b) [0x0a, 0x0d, 0x5a, 0x30 + (b.minute &&& 0x0f)]

def unspecifiedText (b : BuildInfo) : List Byte :=
  text " v" ++ bcdText b.versionMajor ++ [0x2e] ++ bcdText b.versionMinor ++ text " build=" ++
    text "unspecified\r\n"

def stampedText (b : BuildInfo) : List Byte :=
  text " v" ++ bcdText b.versionMajor ++ [0x2e] ++ bcdText b.versionMinor ++ text " build=" ++
    stampText b

theorem tailText_unspecified {b : BuildInfo} (absent : hasTimestamp (some b) = false) :
    tailText (some b) = unspecifiedText b := by
  simp [tailText, unspecifiedText, absent]

theorem tailText_stamped {b : BuildInfo} (present : hasTimestamp (some b) = true) :
    tailText (some b) = stampedText b := by
  simp [tailText, stampedText, present]

theorem tailText_ending (info : Option BuildInfo) :
    Ending info ((tailText info).reverse.take 4) ∧ 4 ≤ (tailText info).length := by
  cases info with
  | none => exact ⟨.invalid, by decide⟩
  | some b =>
    cases stamped : hasTimestamp (some b) with
    | false =>
      rw [tailText_unspecified stamped]
      exact ⟨.unspecified b stamped, (by decide : 4 ≤ 27)⟩
    | true =>
      rw [tailText_stamped stamped]
      exact ⟨.stamped b stamped, (by decide : 4 ≤ 33)⟩

theorem unspecified_inj {b b' : BuildInfo} (absent : hasTimestamp (some b) = false)
    (absent' : hasTimestamp (some b') = false) (same : unspecifiedText b = unspecifiedText b') :
    b = b' := by
  have major := bcdText_inj (congrArg (fun l => (l.drop 2).take 2) same)
  have minor := bcdText_inj (congrArg (fun l => (l.drop 5).take 2) same)
  simp only [hasTimestamp, Bool.or_eq_false_iff, bne_eq_false_iff_eq] at absent absent'
  cases b
  cases b'
  simp_all

theorem stamped_inj {b b' : BuildInfo} (same : stampedText b = stampedText b') : b = b' := by
  have field (n : Nat) := congrArg (fun l => (l.drop n).take 2) same
  have major := bcdText_inj (field 2)
  have minor := bcdText_inj (field 5)
  have yearHigh := bcdText_inj (field 14)
  have yearLow := bcdText_inj (field 16)
  have month := bcdText_inj (field 19)
  have day := bcdText_inj (field 22)
  have hour := bcdText_inj (field 25)
  have minute := bcdText_inj (field 28)
  cases b
  cases b'
  simp_all

/-- Texts that end alike are of one kind, and end in one tail. -/
theorem tail_inj {name name' : List Byte} {info info' : Option BuildInfo}
    (h : name ++ tailText info = name' ++ tailText info') : name = name' ∧ info = info' := by
  obtain ⟨ending, long⟩ := tailText_ending info
  obtain ⟨ending', long'⟩ := tailText_ending info'
  have alike : (tailText info).reverse.take 4 = (tailText info').reverse.take 4 := by
    have last := congrArg (fun l => l.reverse.take 4) h
    simpa [List.take_append_of_le_length, long, long'] using last
  generalize (tailText info).reverse.take 4 = l at ending alike
  generalize (tailText info').reverse.take 4 = l' at ending' alike
  cases ending with
  | invalid =>
    cases ending' with
    | invalid => exact ⟨List.append_cancel_right h, rfl⟩
    | unspecified b' absent' => simp at alike
    | stamped b' present' => simp at alike
  | unspecified b absent =>
    cases ending' with
    | invalid => simp at alike
    | unspecified b' absent' =>
      rw [tailText_unspecified absent, tailText_unspecified absent'] at h
      obtain ⟨names, tails⟩ := List.append_inj' h rfl
      rw [unspecified_inj absent absent' tails]
      exact ⟨names, rfl⟩
    | stamped b' present' => simp at alike
  | stamped b present =>
    cases ending' with
    | invalid => simp at alike
    | unspecified b' absent' => simp at alike
    | stamped b' present' =>
      rw [tailText_stamped present, tailText_stamped present'] at h
      obtain ⟨names, tails⟩ := List.append_inj' h rfl
      rw [stamped_inj tails]
      exact ⟨names, rfl⟩

/-- The banner reaches the debug channel a byte at a time, and two builds write
the same one only if they have the same name and are both invalid or equal. -/
theorem banner_identifies :
    (∀ {W : Type*} (writer : Writer W) (w : W) (name : Option (List Byte)) (info : Option BuildInfo),
      writeBanner writer w name info = (banner name info).foldl (writeByte writer) w) ∧
    ∀ name name' info info', banner name info = banner name' info' ↔
      cString (name.getD (text "unnamed")) = cString (name'.getD (text "unnamed")) ∧
        shown info = shown info' := by
  constructor
  · exact writeBanner_eq
  · intro name name' info info'
    constructor
    · intro same
      rw [banner, banner, List.append_assoc, List.append_assoc] at same
      exact tail_inj (List.append_cancel_left same)
    · rintro ⟨names, builds⟩
      rw [banner, banner, names, builds]

end BuildInfo

end MspmBaremetal
