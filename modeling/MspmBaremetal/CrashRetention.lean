import MspmBaremetal.FaultHandler
import MspmBaremetal.Transition

/-!
# The crash record across resets and faults

The device between two states of its memory: it is reset, takes a fault, or the
application stores a byte anywhere but in the record.
-/

namespace MspmBaremetal.Startup

open ArchMemory
open Crash (Call capture decode decoded history isValid noteBoot runCalls runCalls_spec)

/-- `left` is what the C code of `startup.c` leaves on the stack. -/
inductive Choice where
  | reset (rstcause : BitVec 32) (left : Memory)
  | fault (reasonCode : BitVec 8) (core : Thumb.State) (left : Memory)
  | store (a : BitVec 32) (v : BitVec 8)

/-- What happened to the device; a fault with the memory its frame lies in. -/
inductive Occurrence where
  | reset (rstcause : BitVec 32)
  | fault (reasonCode : BitVec 8) (ipsr msp : BitVec 32) (m : Memory)

def device (l : Linker.Layout) (entry : BitVec 32) : Machine Memory Choice Occurrence where
  step m
    | .reset rstcause left => some (resetHandler l rstcause left m, [.reset rstcause])
    | .fault reasonCode core left =>
      match Thumb.run (sramLoads m) 25 (crashHandlerAsm entry reasonCode) core with
      | some (_, entered) =>
        some (captureFromValues (address l.crashRecord) (entered.registers .r0)
            (entered.registers .r1) (entered.registers .r2) (entered.registers .r3) left m,
          [.fault reasonCode (core.special .ipsr) (core.special .msp) m])
      | none => none
    | .store a v =>
      if a - address l.crashRecord < 32 then none else some (Function.update m a v, [])

/-- The call of `lib_crash` that records an occurrence. -/
def Occurrence.recorded : Occurrence → Call
  | .reset rstcause => .noteBoot (rstcause &&& 0x1f)
  | .fault reasonCode ipsr msp m =>
    .capture (reasonCode.setWidth 32) ipsr (stacked m msp 24) (stacked m msp 28)

variable {i : Linker.Inputs} {l : Linker.Layout} {entry : BitVec 32} {m m₀ : Memory}
  {os : List Occurrence}

theorem device_step (linked : Linker.link i = some l) {choice : Choice} {m' : Memory}
    (step : (device l entry).step m choice = some (m', os)) :
    recordAt m' (address l.crashRecord) =
      runCalls (os.map Occurrence.recorded) (recordAt m (address l.crashRecord)) := by
  cases choice with
  | reset rstcause left =>
    cases step
    exact resetHandler_record (placed linked) m rstcause left
  | fault reasonCode core left =>
    obtain ⟨s', entered, hands⟩ := crashHandlerAsm_captures m entry reasonCode core
    simp only [device, entered, hands.reason, hands.exceptionNumber, hands.stackedPc,
      hands.stackedXpsr] at step
    cases step
    exact captureFromValues_record linked ..
  | store a v =>
    simp only [device, Option.ite_none_left_eq_some] at step
    obtain ⟨outside, step⟩ := step
    cases step
    apply recordAt_congr
    intro k small
    apply Function.update_of_ne
    rintro rfl
    exact outside (by rwa [BitVec.add_comm, BitVec.add_sub_cancel])

theorem device_run (linked : Linker.link i = some l) (run : (device l entry).Run m₀ os m) :
    recordAt m (address l.crashRecord) =
      runCalls (os.map Occurrence.recorded) (recordAt m₀ (address l.crashRecord)) := by
  induction run with
  | start => rfl
  | next _ step ih => rw [device_step linked step, ih, List.map_append, runCalls, runCalls,
      runCalls, List.foldl_append]

theorem retained (linked : Linker.link i = some l) (run : (device l entry).Run m₀ os m)
    (some : os ≠ []) : isValid (recordAt m (address l.crashRecord)) = true ∧
      (decode (recordAt m (address l.crashRecord))).2 =
        history (decoded (recordAt m₀ (address l.crashRecord))) (os.map Occurrence.recorded) := by
  obtain ⟨first, rest, rfl⟩ := List.exists_cons_of_ne_nil some
  rw [device_run linked run]
  exact runCalls_spec (recordAt m₀ (address l.crashRecord)) first.recorded
    (rest.map Occurrence.recorded)

/-- Whatever the memory held at first, and whatever the application did in
between, after a reset or a fault the record decodes to their history: the last
reset's cause, the number of faults, and what lay in the last fault's frame. -/
theorem history_retained (linked : Linker.link i = some l) (run : (device l entry).Run m₀ os m)
    (some : os ≠ []) : decode (recordAt m (address l.crashRecord)) =
      (true, history (decoded (recordAt m₀ (address l.crashRecord)))
        (os.map Occurrence.recorded)) := by
  obtain ⟨valid, decodes⟩ := retained linked run some
  rw [decode_pair valid, decodes]

/-- A hard fault in an otherwise empty memory, then the reset it asks for. -/
def sampleFault : List Occurrence := [.fault 2 3 0x20001f00 fun _ => 0, .reset 0x1c]

def sampleChoices : List Choice :=
  [.fault 2 ⟨fun _ => 0, fun r => if r = .msp then 0x20001f00 else 3, false, false⟩ fun _ => 0x77,
    .reset 0x1c fun _ => 0x55]

def sampleMemory : Memory :=
  (((device (Linker.sections Linker.sample) 0x101).exec (fun _ => 0) sampleChoices).map
    Prod.fst).getD fun _ => 0

theorem sampleFault_run :
    (device (Linker.sections Linker.sample) 0x101).Run (fun _ => 0) sampleFault sampleMemory :=
  Machine.exec_run (show (device (Linker.sections Linker.sample) 0x101).exec (fun _ => 0)
    sampleChoices = some (sampleMemory, sampleFault) from rfl)

theorem sampleFault_history :
    history (decoded (recordAt (fun _ => 0) (address (Linker.sections Linker.sample).crashRecord)))
      (sampleFault.map Occurrence.recorded) =
      { reason := 2, sequence := 1, resetCause := 0x1c, exceptionNumber := 3, stackedPc := 0,
        stackedXpsr := 0 } := by
  decide

theorem history_retained_sample :
    ∃ m, (device (Linker.sections Linker.sample) 0x101).Run (fun _ => 0) sampleFault m ∧
    decode (recordAt m (address (Linker.sections Linker.sample).crashRecord)) =
      (true, { reason := 2, sequence := 1, resetCause := 0x1c, exceptionNumber := 3,
               stackedPc := 0, stackedXpsr := 0 }) := by
  rw [← sampleFault_history]
  exact ⟨_, sampleFault_run, history_retained Linker.sample_linked sampleFault_run (by decide)⟩

end MspmBaremetal.Startup
