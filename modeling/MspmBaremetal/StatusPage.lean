import MspmBaremetal.PublishRuns
import MspmBaremetal.RegisterImage

/-!
# The status page of `i2c_regmap_demo`

The demo's page table and `i2c_regmap_demo_publish_status`, one access to
shared memory at a time. The interrupt handler may count errors and unexpected
events and get on with its register map between any two of them. The program
has one register map; the model has any number of them over the same pages.
-/

namespace MspmBaremetal.RegmapDemo

open Regmap (World)

/-- The snapshots that `g_pages` refers to. -/
inductive PageName where
  | deviceInfo
  | status
  | crash
  deriving DecidableEq, Repr

/-- `I2C_REGMAP_DEMO_STATUS_SIZE`. -/
def statusSize : BitVec 16 := 12

/-- `g_pages`. -/
def pages : List (Page PageName Empty) :=
  [⟨0x0000, 8, .readOnly, some .deviceInfo, none⟩,
   ⟨0x0300, statusSize, .readOnly, some .status, none⟩,
   ⟨0x0400, 24, .readOnly, some .crash, none⟩]

/-! ## The documented layout -/

/-- The counters that the status page shows. -/
structure Counts where
  errorCount : BitVec 32
  publishRejectedCount : BitVec 32
  unexpectedEventCount : BitVec 32
  deriving DecidableEq, Repr

/-- The status page as a controller reads it: three big-endian words. -/
def parseStatus (bytes : Nat → BitVec 8) : Counts where
  errorCount := Crash.readU32Be bytes 0
  publishRejectedCount := Crash.readU32Be bytes 4
  unexpectedEventCount := Crash.readU32Be bytes 8

/-! ## The program -/

/-- `i2c_regmap_demo_write_u32_be`, which stores what `lib_crash_write_u32_be` does. -/
def writeU32Be (bytes : Nat → BitVec 8) (offset : Nat) (value : BitVec 32) : Nat → BitVec 8 :=
  Crash.writeU32Be bytes offset value

/-- `status` as `i2c_regmap_demo_publish_status` fills it. -/
def statusBytes (status : Counts) : Nat → BitVec 8 :=
  let bytes := writeU32Be (fun _ => 0) 0 status.errorCount
  let bytes := writeU32Be bytes 4 status.publishRejectedCount
  writeU32Be bytes 8 status.unexpectedEventCount

/-- Where a pass of `i2c_regmap_demo_publish_status` stands before its next
access, with what it has sampled. -/
inductive Pass where
  | idle
  | publishRejectedCount (errorCount : BitVec 32)
  | unexpectedEventCount (errorCount publishRejectedCount : BitVec 32)
  | publish (status : Counts)
  | publishing (status : Counts)
  | store (status : Counts)
  deriving DecidableEq, Repr

def Pass.busy : Pass → Bool
  | .idle => false
  | _ => true

/-- How a pass ends: nothing to publish, a publish refused, or one that succeeded. -/
inductive Outcome where
  | unchanged
  | refused
  | published
  deriving DecidableEq, Repr

inductive Event (ι : Type*) where
  | regmap (e : Regmap.Event ι PageName Empty)
  | returned (outcome : Outcome) (sampled : Counts)

/-- The snapshots with the register maps, the counters of `hal_i2c_target` with
its `g_initialized`, and `g_status_last_*`, `g_status_published` and the pass of
the main loop. -/
structure System (ι : Type*) where
  world : World ι PageName Empty
  initialized : Bool
  errorCount : BitVec 32
  unexpectedEventCount : BitVec 32
  statusLast : Counts
  statusPublished : Bool
  pass : Pass

variable {ι : Type*}

namespace System

/-- `hal_i2c_target_error_count`. -/
def targetErrorCount (s : System ι) : BitVec 32 := if s.initialized then s.errorCount else 0

/-- `hal_i2c_target_unexpected_event_count`. -/
def targetUnexpectedEventCount (s : System ι) : BitVec 32 :=
  if s.initialized then s.unexpectedEventCount else 0

/-- `lib_regmap_snapshot_publish_rejected_count` of `g_status_snapshot`. -/
def publishRejectedCount (s : System ι) : BitVec 32 := (s.world.heap .status).publishRejectedCount

/-- What the active buffer of `g_status_snapshot` shows. -/
def statusPage (s : System ι) : Counts :=
  parseStatus ((s.world.heap .status).buffers
    (Snapshot.activeIndex (s.world.heap .status).state)).bytes

variable [DecidableEq ι]

/-- A register map's access. -/
def access (s : System ι) (choice : Regmap.Choice ι PageName) :
    Option (System ι × List (Event ι)) :=
  ((Regmap.machine ι PageName Empty).step s.world choice).map fun next =>
    ({ s with world := next.1 }, next.2.map .regmap)

/-- An access of `lib_regmap_snapshot_publish`, and what the pass does when it
has returned. -/
def publish (s : System ι) (status : Counts) (choice : Regmap.Choice ι PageName) :
    Option (System ι × List (Event ι)) :=
  ((Regmap.machine ι PageName Empty).step s.world choice).map fun next =>
    if (next.1.publisher .status).busy then
      ({ s with world := next.1, pass := .publishing status }, next.2.map .regmap)
    else if Regmap.results .status next.2 = [true] then
      ({ s with world := next.1, pass := .store status }, next.2.map .regmap)
    else
      ({ s with world := next.1, pass := .idle },
        next.2.map .regmap ++ [.returned .refused status])

/-- The next access of `i2c_regmap_demo_publish_status`. -/
def publishStatus (s : System ι) (spurious : Bool) : Option (System ι × List (Event ι)) :=
  match s.pass with
  | .idle => some ({ s with pass := .publishRejectedCount s.targetErrorCount }, [])
  | .publishRejectedCount errorCount =>
    some ({ s with pass := .unexpectedEventCount errorCount s.publishRejectedCount }, [])
  | .unexpectedEventCount errorCount publishRejectedCount =>
    let status := ⟨errorCount, publishRejectedCount, s.targetUnexpectedEventCount⟩
    if s.statusPublished = true ∧ status = s.statusLast then
      some ({ s with pass := .idle }, [.returned .unchanged status])
    else some ({ s with pass := .publish status }, [])
  | .publish status => s.publish status (.publish .status (some (statusBytes status)) statusSize)
  | .publishing status => s.publish status (.publisher .status spurious)
  | .store status =>
    some ({ s with statusLast := status, statusPublished := true, pass := .idle },
      [.returned .published status])

end System

/-- The main loop's next access, or one of the interrupt handler's. -/
inductive Choice (ι : Type*) where
  | pass (spurious : Bool)
  | call (i : ι) (call : Regmap.Call)
  | reader (i : ι) (spurious : Bool)
  | error
  | unexpectedEvent

def machine (ι : Type*) [DecidableEq ι] : Machine (System ι) (Choice ι) (Event ι) where
  step s
    | .pass spurious => s.publishStatus spurious
    | .call i call => s.access (.call i call)
    | .reader i spurious => s.access (.reader i spurious)
    | .error => some ({ s with errorCount := s.errorCount + 1 }, [])
    | .unexpectedEvent => some ({ s with unexpectedEventCount := s.unexpectedEventCount + 1 }, [])

/-- A snapshot that nobody has set up. -/
def unset : Snapshot where
  buffers _ := ⟨false, fun _ => 0⟩
  length := 0
  state := 0
  publishRejectedCount := 0

/-- The snapshots as `i2c_regmap_demo_init` sets them up. -/
def initSnapshots (deviceInfo : Option (Nat → BitVec 8)) (record : Crash.Record)
    (stack : Nat → BitVec 8) : Option (PageName → Snapshot) := do
  let info ← deviceInfo
  let deviceInfo ← Snapshot.init (some unset) (some info) (some fun _ => 0) 8 (some info)
  let crashImage := (Crash.writeRegisterImage ⟨some record, some stack⟩ 24).2.bytes
  let crash ← Snapshot.init (some unset) (some fun _ => 0) (some fun _ => 0) 24 crashImage
  let status ← Snapshot.init (some unset) (some fun _ => 0) (some fun _ => 0) statusSize
    (some fun _ => 0)
  return fun | .deviceInfo => deviceInfo | .status => status | .crash => crash

/-- `i2c_regmap_demo_init` where `board_i2c1_target_init` succeeds; `none` is
the result `false`. `deviceInfo` is what `lib_buildinfo_write_device_info`
leaves in `g_device_info_zero`, and `stack` what `crash_image` holds before it
is written. -/
def init (deviceInfo : Option (Nat → BitVec 8)) (record : Crash.Record) (stack : Nat → BitVec 8) :
    Option (System ι) :=
  (initSnapshots deviceInfo record stack).bind fun heap =>
    (Regmap.init heap (some ⟨[], 0, none, false⟩) (some pages)).map fun regmap =>
      { world := ⟨heap, fun _ => regmap, fun _ => .idle, fun _ => .idle⟩, initialized := true,
        errorCount := 0, unexpectedEventCount := 0, statusLast := ⟨0, 0, 0⟩,
        statusPublished := false, pass := .idle }

end MspmBaremetal.RegmapDemo
