import MspmBaremetal.BuildInfo
import MspmBaremetal.CrashRetention
import MspmBaremetal.PageReads
import MspmBaremetal.StatusPage

/-!
# The demo's diagnostics as a controller reads them

`i2c_regmap_demo_init` writes two pages once and for all: what a controller
reads there is the build's identity and the history of the device's faults.
-/

namespace MspmBaremetal.RegmapDemo

open TargetEngine Startup Crash

/-- What `lib_crash_write_register_image` leaves in `crash_image`. -/
def crashImage (record : Record) (stack : Nat → BitVec 8) : Nat → BitVec 8 :=
  (writeRegisterImage ⟨some record, some stack⟩ 24).2.bytes.getD fun _ => 0

/-- A snapshot that `lib_regmap_snapshot_init` has set up. -/
def initial (zero one : Nat → BitVec 8) (length : BitVec 16) (data : Nat → BitVec 8) : Snapshot :=
  ⟨fun b => ⟨true, Snapshot.copy (if b then one else zero) data length.toNat⟩, length, 0, 0⟩

/-- The snapshots after `i2c_regmap_demo_init`. -/
def initialHeap (info image : Nat → BitVec 8) : PageName → Snapshot
  | .deviceInfo => initial info (fun _ => 0) 8 info
  | .status => initial (fun _ => 0) (fun _ => 0) statusSize fun _ => 0
  | .crash => initial (fun _ => 0) (fun _ => 0) 24 image

variable {ι : Type*}

/-- The engine that `hal_i2c_target_init` leaves over register map `i`. -/
def targetEngine (sys : System ι) (i : ι) : TargetEngine PageName Empty :=
  ⟨⟨sys.world.heap, sys.world.regmap i⟩, 0, 0, .idle⟩

theorem initSnapshots_eq (info : Nat → BitVec 8) (record : Record) (stack : Nat → BitVec 8) :
    initSnapshots (some info) record stack = some (initialHeap info (crashImage record stack)) := by
  apply congrArg some
  funext name
  cases name with
  | deviceInfo => rfl
  | status => rfl
  | crash => rfl

theorem acceptsPages_initialHeap (info image : Nat → BitVec 8) :
    Regmap.acceptsPages (initialHeap info image) 0 pages = true := by
  simp [Regmap.acceptsPages, Regmap.acceptsPage, pages, Snapshot.isValid, initialHeap, initial,
    statusSize]

theorem init_eq {info : Nat → BitVec 8} {record : Record} {stack : Nat → BitVec 8}
    {sys : System ι} (h : init (some info) record stack = some sys) :
    sys.world.heap = initialHeap info (crashImage record stack) ∧
      ∀ i, sys.world.regmap i = ⟨pages, 0, none, false⟩ := by
  simp only [init, initSnapshots_eq, Option.bind_some, Regmap.init, acceptsPages_initialHeap] at h
  cases h
  exact ⟨rfl, fun _ => rfl⟩

/-- With a valid build, only `board_i2c1_target_init` can fail. -/
theorem init_some (info : Nat → BitVec 8) (record : Record) (stack : Nat → BitVec 8) :
    ∃ sys : System ι, init (some info) record stack = some sys := by
  simp only [init, initSnapshots_eq, Option.bind_some, Regmap.init, acceptsPages_initialHeap]
  exact ⟨_, rfl⟩

section Pages

variable {info : Nat → BitVec 8} {record : Record} {stack : Nat → BitVec 8} {sys : System ι}

theorem initialHeap_state (info image : Nat → BitVec 8) (name : PageName) :
    (initialHeap info image name).state = 0 := by
  cases name <;> rfl

theorem heap_unsaturated (started : init (some info) record stack = some sys) :
    Unsaturated sys.world.heap pages := by
  intro page _ s _ b
  rw [(init_eq started).1, initialHeap_state]
  revert b
  decide

theorem targetEngine_initial (started : init (some info) record stack = some sys) (i : ι) :
    Initial sys.world.heap pages (targetEngine sys i) := by
  obtain ⟨heap, regmap⟩ := init_eq started
  refine ⟨⟨pages, 0, none, false⟩, some ⟨[], 0, none, false⟩, some (targetEngine sys i), ?_, ?_⟩
  · rw [heap]
    simp only [Regmap.init, acceptsPages_initialHeap]
    rfl
  · rw [targetEngine, regmap]
    rfl

theorem targetEngine_inv (started : init (some info) record stack = some sys) (i : ι) :
    TargetEngine.Inv (initialReaders sys.world.heap) (targetEngine sys i) :=
  (targetEngine_initial started i).inv (heap_unsaturated started)

theorem shows_crash (started : init (some info) record stack = some sys) (i : ι) :
    ShowsPage (initialReaders sys.world.heap) pages 2 ⟨0x0400, 24, .readOnly, some .crash, none⟩ .crash
      (crashImage record stack) (targetEngine sys i) := by
  refine ⟨targetEngine_inv started i, ?_, rfl, rfl, ?_⟩
  · exact congrArg Regmap.pages ((init_eq started).2 i)
  · intro b j inside
    change ((sys.world.heap .crash).buffers b).bytes j = _
    rw [(init_eq started).1]
    exact (Snapshot.copy_apply ..).trans (if_pos inside)

theorem shows_deviceInfo (started : init (some info) record stack = some sys) (i : ι) :
    ShowsPage (initialReaders sys.world.heap) pages 0 ⟨0x0000, 8, .readOnly, some .deviceInfo, none⟩
      .deviceInfo info (targetEngine sys i) := by
  refine ⟨targetEngine_inv started i, ?_, rfl, rfl, ?_⟩
  · exact congrArg Regmap.pages ((init_eq started).2 i)
  · intro b j inside
    change ((sys.world.heap .deviceInfo).buffers b).bytes j = _
    rw [(init_eq started).1]
    exact (Snapshot.copy_apply ..).trans (if_pos inside)

end Pages

/-- The demo publishes nothing but its status. -/
def OnlyStatus (choices : List (TargetEngine.Choice PageName)) : Prop :=
  ∀ s data length, .publish s data length ∈ choices → s = .status

/-- The bytes a controller reads, by their offset. -/
def offsets (bytes : List (BitVec 8)) : Nat → BitVec 8 := fun i => bytes[i]?.getD 0

theorem OnlyStatus.leaves {choices : List (TargetEngine.Choice PageName)}
    (h : OnlyStatus choices) {s : PageName} (other : s ≠ .status) : Leaves s choices := by
  rintro s' data length mem rfl
  exact other (h _ _ _ mem)

theorem onlyStatus_calls (script : List TargetEngine.Call) : OnlyStatus (script.map .call) := by
  intro s data length mem
  obtain ⟨_, -, same⟩ := List.mem_map.mp mem
  cases same

section Reads

variable {choices : List (TargetEngine.Choice PageName)} {answer : Bool}
  {engine engine' : TargetEngine PageName Empty} {es : List (TargetEngine.Event PageName Empty)}
  {others : PageName → Bool → Nat} {image : Nat → BitVec 8}

/-- Bytes of a page read from its first. -/
theorem transmitted_offsets {first : BitVec 16} {n : Nat}
    (read : transmitted es =
      (List.range n).map fun k => image ((first + BitVec.ofNat 16 k).toNat - first.toNat))
    (fits : ∀ k < n, (first + BitVec.ofNat 16 k).toNat - first.toNat = k) :
    (transmitted es).length = n ∧ ∀ k < n, offsets (transmitted es) k = image k := by
  constructor
  · rw [read, List.length_map, List.length_range]
  · intro k inside
    simp only [offsets, read, List.getElem?_map, List.getElem?_range inside, Option.map_some,
      Option.getD_some, fits k inside]

theorem reads_crash (shows : ShowsPage others pages 2 ⟨0x0400, 24, .readOnly, some .crash, none⟩ .crash
      image engine) (status : OnlyStatus choices)
    (script : calls choices = readTransaction 0x0400 answer 24)
    (run : (TargetEngine.machine PageName Empty).exec engine choices = some (engine', es)) :
    (transmitted es).length = 24 ∧ ∀ k < 24, offsets (transmitted es) k = image k := by
  have lands : ∀ k < 24, pages.findIdx? (·.contains (0x0400 + BitVec.ofNat 16 k)) = some 2 := by
    decide
  have read := shows.transaction (fun k inside r table => by
    rw [Regmap.findPage, table, lands k inside]) (status.leaves nofun) script run
  exact transmitted_offsets read (by decide)

theorem reads_deviceInfo (shows : ShowsPage others pages 0
      ⟨0x0000, 8, .readOnly, some .deviceInfo, none⟩ .deviceInfo image engine)
    (status : OnlyStatus choices) (script : calls choices = readTransaction 0x0000 answer 8)
    (run : (TargetEngine.machine PageName Empty).exec engine choices = some (engine', es)) :
    (transmitted es).length = 8 ∧ ∀ k < 8, offsets (transmitted es) k = image k := by
  have lands : ∀ k < 8, pages.findIdx? (·.contains (0x0000 + BitVec.ofNat 16 k)) = some 0 := by
    decide
  have read := shows.transaction (fun k inside r table => by
    rw [Regmap.findPage, table, lands k inside]) (status.leaves nofun) script run
  exact transmitted_offsets read (by decide)

end Reads

/-- However the device was reset and faulted, once the demo is up, and after any
earlier transactions, a controller that reads the 24 bytes at `0x0400` reads the
history of resets and faults. -/
theorem fault_history_read {inputs : Linker.Inputs} {l : Linker.Layout} {entry : BitVec 32}
    (linked : Linker.link inputs = some l) {m₀ m : ArchMemory.Memory} {os : List Occurrence}
    (happened : (device l entry).Run m₀ os m) (some : os ≠ [])
    {info stack : Nat → BitVec 8} {sys : System ι}
    (started : init (.some info) (recordAt m (address l.crashRecord)) stack = .some sys) (i : ι)
    {earlier now : List (TargetEngine.Choice PageName)} (quiet : OnlyStatus earlier)
    (status : OnlyStatus now) {answer : Bool}
    (script : calls now = readTransaction 0x0400 answer 24)
    {engine engine' : TargetEngine PageName Empty} {es₀ es : List (TargetEngine.Event PageName Empty)}
    (before : (TargetEngine.machine PageName Empty).exec (targetEngine sys i) earlier =
      .some (engine, es₀))
    (reads : (TargetEngine.machine PageName Empty).exec engine now = .some (engine', es)) :
    (transmitted es).length = 24 ∧ (parseImage (offsets (transmitted es))).valid = 1 ∧
      (parseImage (offsets (transmitted es))).snapshot =
        history (decoded (recordAt m₀ (address l.crashRecord))) (os.map Occurrence.recorded) := by
  obtain ⟨valid, decodes⟩ := retained linked happened some
  have shows := (shows_crash started i).exec (quiet.leaves nofun) before
  obtain ⟨length, bytes⟩ := reads_crash shows status script reads
  obtain ⟨image, written, encodes⟩ := @writeRegisterImage_encodes stack
    (.some (recordAt m (address l.crashRecord))) 24 (by decide)
  obtain ⟨first, snapshot, -⟩ := encodes.valid valid
  have parsed : parseImage (offsets (transmitted es)) = parseImage image := by
    apply parseImage_congr
    intro k inside
    rw [bytes k inside, crashImage, written]
    rfl
  rw [parsed, first, snapshot]
  exact ⟨length, rfl, decodes⟩

theorem fault_history_read_sample : ∃ (m : ArchMemory.Memory) (sys : System Unit)
    (engine : TargetEngine PageName Empty) (es : List (TargetEngine.Event PageName Empty)),
    (device (Linker.sections Linker.sample) 0x101).Run (fun _ => 0) sampleFault m ∧
    init (some fun _ => 0) (recordAt m (address (Linker.sections Linker.sample).crashRecord))
      (fun _ => 0) = some sys ∧
    (TargetEngine.machine PageName Empty).exec (targetEngine sys ())
      ((readTransaction 0x0400 true 24).map .call) = some (engine, es) ∧
    (parseImage (offsets (transmitted es))).snapshot =
      { reason := 2, sequence := 1, resetCause := 0x1c, exceptionNumber := 3, stackedPc := 0,
        stackedXpsr := 0 } := by
  obtain ⟨sys, started⟩ := init_some (ι := Unit) (fun _ => 0)
    (recordAt sampleMemory (address (Linker.sections Linker.sample).crashRecord)) fun _ => 0
  obtain ⟨engine, es, reads⟩ :=
    exec_some (targetEngine sys ()) ((readTransaction 0x0400 true 24).map .call)
  obtain ⟨-, -, snapshot⟩ :=
    fault_history_read Linker.sample_linked sampleFault_run (by decide) started ()
    (nofun : OnlyStatus []) (onlyStatus_calls _) (calls_map_call _) rfl reads
  rw [sampleFault_history] at snapshot
  exact ⟨_, sys, engine, es, sampleFault_run, started, reads, snapshot⟩

/-- What `lib_buildinfo_write_device_info` leaves in `g_device_info_zero`, if it
returns `true`. -/
def deviceInfo (buildinfo : BuildInfo) (old : Nat → BitVec 8) : Option (Nat → BitVec 8) :=
  match BuildInfo.writeDeviceInfo (some buildinfo) (some old) 8 with
  | (true, info) => info
  | (false, _) => none

theorem deviceInfo_valid {b : BuildInfo} (valid : BuildInfo.isValid (some b) = true)
    (old : Nat → BitVec 8) :
    ∃ info, deviceInfo b old = some info ∧ ∀ k, info k = b.toBytes[k]?.getD (old k) := by
  rcases BuildInfo.writeDeviceInfo_spec (some b) (some old) 8 with refused | written
  · have accepted : BuildInfo.writeDeviceInfo (some b) (some old) 8 = (true, _) :=
      if_neg (by simp [valid, BuildInfo.deviceInfoSize])
    rw [accepted] at refused
    cases refused
  · obtain ⟨_, _, new, same, same', -, -, out, bytes⟩ := written
    cases same
    cases same'
    exact ⟨new, by rw [deviceInfo, out], bytes⟩

/-- A demo built with a version that the stamping tool accepts comes up, and a
controller reads that version at `0x0000`, whatever it read before. -/
theorem build_version_read {value : List Char} {major minor : Nat}
    (accepted : ImageTool.parseBcdVersion value = .ok (major, minor)) (old : Nat → BitVec 8)
    (record : Record) (stack : Nat → BitVec 8) :
    ∃ sys : System ι, init (deviceInfo (.ofVersion major minor) old) record stack = some sys ∧
      ∀ i earlier now answer engine engine' es₀ es, OnlyStatus earlier → OnlyStatus now →
        calls now = readTransaction 0x0000 answer 8 →
        (TargetEngine.machine PageName Empty).exec (targetEngine sys i) earlier =
          some (engine, es₀) →
        (TargetEngine.machine PageName Empty).exec engine now = some (engine', es) →
        transmitted es = [BitVec.ofNat 8 major, BitVec.ofNat 8 minor, 0, 0, 0, 0, 0, 0] := by
  obtain ⟨info, written, bytes⟩ := deviceInfo_valid (BuildInfo.ofVersion_valid accepted) old
  obtain ⟨sys, started⟩ := init_some (ι := ι) info record stack
  rw [written]
  refine ⟨sys, started, ?_⟩
  intro i earlier now answer engine engine' es₀ es quiet status script before reads
  have shows := (shows_deviceInfo started i).exec (quiet.leaves nofun) before
  obtain ⟨length, read⟩ := reads_deviceInfo shows status script reads
  apply List.ext_getElem length
  intro k inside inside'
  have here := (read k (by omega)).trans (bytes k)
  simp only [offsets, List.getElem?_eq_getElem inside, Option.getD_some] at here
  rw [here]
  exact congrArg (·.getD (old k)) (List.getElem?_eq_getElem inside')

theorem build_version_read_sample : ∃ (sys : System Unit) (engine : TargetEngine PageName Empty)
    (es : List (TargetEngine.Event PageName Empty)),
    init (deviceInfo (.ofVersion 0x01 0x29) fun _ => 0xff) ⟨0, 0, 0, 0, 0, 0, 0, 0, 0⟩
      (fun _ => 0) = some sys ∧
    (TargetEngine.machine PageName Empty).exec (targetEngine sys ())
      ((readTransaction 0x0000 true 8).map .call) = some (engine, es) ∧
    transmitted es = [0x01, 0x29, 0, 0, 0, 0, 0, 0] := by
  obtain ⟨sys, started, read⟩ := @build_version_read Unit ['0', '1', '.', '2', '9'] 0x01 0x29
    (by decide) (fun _ => 0xff) ⟨0, 0, 0, 0, 0, 0, 0, 0, 0⟩ fun _ => 0
  obtain ⟨engine, es, reads⟩ :=
    exec_some (targetEngine sys ()) ((readTransaction 0x0000 true 8).map .call)
  exact ⟨sys, engine, es, started, reads,
    read () [] _ true _ _ _ _ nofun (onlyStatus_calls _) (calls_map_call _) rfl reads⟩

end MspmBaremetal.RegmapDemo
