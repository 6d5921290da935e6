import MspmBaremetal.CrashRetention

/-!
# `fault_record_test`

The application that faults on purpose. `main` looks at the retained record once
after every reset, and faults unless it finds a fault there; the device may be
reset, and may take other faults, at any time.
-/

namespace MspmBaremetal.FaultRecordTest

open Startup
open Crash (Record Call hasFault hasFault_eq history history_reason runCalls decoded_valid
  decoded_invalid reasonOf)

/-- Waiting for a reset, in `main` before it looks, or after it did. -/
inductive Mode where
  | reset
  | main
  | indicating
  | faulting
  deriving DecidableEq, Repr

structure State where
  mode : Mode
  memory : ArchMemory.Memory

inductive Choice where
  | device (choice : Startup.Choice)
  | main

inductive Event where
  | occurred (o : Occurrence)
  | decided (retained : Bool)

/-- `board_crash_has_fault`. -/
def crashHasFault (l : Linker.Layout) (m : ArchMemory.Memory) : Bool :=
  hasFault (recordAt m (address l.crashRecord))

/-- Where a step of the device leads: a reset starts `main`, and a fault's handler
ends by asking for one. -/
def Mode.after (mode : Mode) : Startup.Choice → Option Mode
  | .reset _ _ => some .main
  | .fault _ _ _ => if mode = .reset then none else some .reset
  | .store _ _ => if mode = .reset then none else some mode

def machine (l : Linker.Layout) (entry : BitVec 32) : Machine State Choice Event where
  step s
    | .device choice => do
      let mode ← s.mode.after choice
      let (memory, os) ← (device l entry).step s.memory choice
      some (⟨mode, memory⟩, os.map .occurred)
    | .main =>
      if s.mode = .main then
        let retained := crashHasFault l s.memory
        some ({ s with mode := if retained then .indicating else .faulting }, [.decided retained])
      else none

def occurrences (tr : List Event) : List Occurrence :=
  tr.filterMap fun
    | .occurred o => some o
    | .decided _ => none

def Occurrence.isFault : Occurrence → Bool
  | .reset _ => false
  | .fault .. => true

variable {i : Linker.Inputs} {l : Linker.Layout} {entry : BitVec 32} {m₀ : ArchMemory.Memory}
  {tr : List Event} {s : State}

/-- The first call makes the record valid; from then on it tells of a fault
exactly if one was captured, or if the record told of one before. -/
theorem hasFault_runCalls (r : Record) {calls : List Call} (some : calls ≠ []) :
    hasFault (runCalls calls r) = true ↔
      (∃ c ∈ calls, (Call.fault c).isSome = true) ∨ hasFault r = true := by
  obtain ⟨first, rest, rfl⟩ := List.exists_cons_of_ne_nil some
  obtain ⟨valid, decodes⟩ := Crash.runCalls_spec r first rest
  rw [hasFault_eq valid, decodes, bne_iff_ne, history_reason]
  apply or_congr_right
  cases old : Crash.isValid r with
  | true => simp [hasFault_eq old, decoded_valid old]
  | false => simp [hasFault, reasonOf, old, decoded_invalid old]

theorem occurrences_append (tr es : List Event) :
    occurrences (tr ++ es) = occurrences tr ++ occurrences es := List.filterMap_append

theorem occurrences_occurred (os : List Occurrence) : occurrences (os.map .occurred) = os := by
  simp [occurrences, List.filterMap_map]

/-- The test is a run of the device, and its first step is a reset. -/
theorem run_device (run : (machine l entry).Run ⟨.reset, m₀⟩ tr s) :
    (device l entry).Run m₀ (occurrences tr) s.memory ∧
      (s.mode ≠ .reset → occurrences tr ≠ []) := by
  apply run.invariant (P := fun tr s => (device l entry).Run m₀ (occurrences tr) s.memory ∧
    (s.mode ≠ .reset → occurrences tr ≠ []))
  · exact ⟨.start, fun left => absurd rfl left⟩
  · rintro tr s choice es s' ⟨ih, started⟩ step
    rw [occurrences_append]
    cases choice with
    | device choice =>
      simp only [machine, Option.bind_eq_bind, Option.bind_eq_some_iff, Option.some.injEq,
        Prod.mk.injEq] at step
      obtain ⟨mode, entered, ⟨memory, os⟩, moved, rfl, rfl⟩ := step
      rw [occurrences_occurred]
      refine ⟨ih.next moved, ?_⟩
      cases choice with
      | reset rstcause left =>
        cases moved
        simp
      | fault reasonCode core left =>
        simp only [Mode.after, Option.ite_none_left_eq_some, Option.some.injEq] at entered
        exact fun left => absurd entered.2.symm left
      | store a v =>
        simp only [Mode.after, Option.ite_none_left_eq_some, Option.some.injEq] at entered
        obtain ⟨up, rfl⟩ := entered
        exact fun _ none => started up (List.append_eq_nil_iff.mp none).1
    | main =>
      simp only [machine, Option.ite_none_right_eq_some, Option.some.injEq, Prod.mk.injEq] at step
      obtain ⟨here, rfl, rfl⟩ := step
      rw [show occurrences [.decided _] = [] from rfl, List.append_nil]
      exact ⟨ih, fun _ => started (by rw [here]; decide)⟩

theorem fault_recorded (o : Occurrence) :
    (Call.fault o.recorded).isSome = true ↔ Occurrence.isFault o = true := by
  cases o with
  | reset rstcause => simp [Occurrence.recorded, Call.fault, Occurrence.isFault]
  | fault => simp [Occurrence.recorded, Call.fault, Occurrence.isFault]

/-- `main` indicates a retained fault exactly if the device took one since the run
began, or if the record told of one before. -/
theorem decides_by_history (linked : Linker.link i = some l)
    (run : (machine l entry).Run ⟨.reset, m₀⟩ tr s) {before rest : List Event} {retained : Bool}
    (split : tr = before ++ .decided retained :: rest) :
    retained = true ↔
      (∃ o ∈ occurrences before, Occurrence.isFault o = true) ∨ crashHasFault l m₀ = true := by
  obtain ⟨earlier, t, choice, es, _, within, rest', reached, step, emitted, rfl⟩ := run.split split
  obtain ⟨device, started⟩ := run_device reached
  cases choice with
  | device choice =>
    simp only [machine, Option.bind_eq_bind, Option.bind_eq_some_iff, Option.some.injEq,
      Prod.mk.injEq] at step
    obtain ⟨mode, -, ⟨memory, os⟩, -, -, rfl⟩ := step
    have mem : Event.decided retained ∈ os.map Event.occurred := by simp [emitted]
    simp at mem
  | main =>
    simp only [machine, Option.ite_none_right_eq_some, Option.some.injEq, Prod.mk.injEq] at step
    obtain ⟨here, -, rfl⟩ := step
    obtain ⟨rfl, same⟩ := singleton_eq_split emitted
    obtain rfl := Event.decided.inj same
    have some := started (by rw [here]; decide)
    rw [List.append_nil, crashHasFault, device_run linked device,
      hasFault_runCalls _ (by simpa using some)]
    simp only [List.mem_map, exists_exists_and_eq_and, fault_recorded]
    rfl

/-- Two boots, with a hard fault between them. -/
def twoBoots (m : ArchMemory.Memory) (core : Thumb.State) (first second : Bool) : List Event :=
  [.occurred (.reset 0x1), .decided first,
    .occurred (.fault 2 (core.special .ipsr) (core.special .msp) m), .occurred (.reset 0x1c),
    .decided second]

theorem reset_step (l : Linker.Layout) (entry : BitVec 32) (mode : Mode)
    (m left : ArchMemory.Memory) (rstcause : BitVec 32) :
    (machine l entry).step ⟨mode, m⟩ (.device (.reset rstcause left)) =
      some (⟨.main, resetHandler l rstcause left m⟩, [.occurred (.reset rstcause)]) := rfl

theorem main_step (l : Linker.Layout) (entry : BitVec 32) (m : ArchMemory.Memory) :
    (machine l entry).step ⟨.main, m⟩ .main =
      some (⟨if crashHasFault l m then .indicating else .faulting, m⟩,
        [.decided (crashHasFault l m)]) := by
  simp [machine]

theorem fault_step (l : Linker.Layout) (entry : BitVec 32) {mode : Mode} (up : mode ≠ .reset)
    (m left : ArchMemory.Memory) (core : Thumb.State) : ∃ m',
    (machine l entry).step ⟨mode, m⟩ (.device (.fault 2 core left)) =
      some (⟨.reset, m'⟩, [.occurred (.fault 2 (core.special .ipsr) (core.special .msp) m)]) := by
  obtain ⟨s', entered, -⟩ := crashHandlerAsm_captures m entry 2 core
  simp only [machine, Mode.after, if_neg up, device, entered]
  exact ⟨_, rfl⟩

/-- Whatever the C code leaves on the stack at the resets and at the fault. -/
theorem twoBoots_run (l : Linker.Layout) (entry : BitVec 32) (m₀ left : ArchMemory.Memory)
    (core : Thumb.State) : ∃ m first second s,
    (machine l entry).Run ⟨.reset, m₀⟩ (twoBoots m core first second) s := by
  have booted := Machine.Run.start.next (reset_step l entry .reset m₀ left 0x1)
  have decided := booted.next (main_step l entry (resetHandler l 0x1 left m₀))
  obtain ⟨m', faulted⟩ := fault_step l entry
    (show (if crashHasFault l (resetHandler l 0x1 left m₀) then Mode.indicating else .faulting) ≠
      .reset by split <;> decide) (resetHandler l 0x1 left m₀) left core
  have rebooted := (decided.next faulted).next (reset_step l entry .reset m' left 0x1c)
  have run := rebooted.next (main_step l entry (resetHandler l 0x1c left m'))
  simp only [List.nil_append, List.cons_append] at run
  exact ⟨resetHandler l 0x1 left m₀, crashHasFault l (resetHandler l 0x1 left m₀),
    crashHasFault l (resetHandler l 0x1c left m'), _, run⟩

theorem zero_unfaulted : crashHasFault (Linker.sections Linker.sample) (fun _ => 0) = false := by
  decide

theorem decides_by_history_sample : ∃ m core s,
    (machine (Linker.sections Linker.sample) 0x101).Run ⟨.reset, fun _ => 0⟩
      (twoBoots m core false true) s := by
  obtain ⟨m, first, second, s, run⟩ := twoBoots_run (Linker.sections Linker.sample) 0x101
    (fun _ => 0) (fun _ => 0x77) ⟨fun _ => 0, fun _ => 0, false, false⟩
  have early := decides_by_history Linker.sample_linked run
    (show twoBoots m _ first second = [_] ++ .decided first :: _ from rfl)
  have late := decides_by_history Linker.sample_linked run
    (show twoBoots m _ first second = [_, _, _, _] ++ .decided second :: [] from rfl)
  have unfaulted : first = false := by
    rw [← Bool.not_eq_true, early, zero_unfaulted]
    simp [occurrences, Occurrence.isFault]
  have faulted : second = true := late.mpr (.inl ⟨_, List.mem_cons_of_mem _ List.mem_cons_self, rfl⟩)
  rw [unfaulted, faulted] at run
  exact ⟨m, _, s, run⟩

end MspmBaremetal.FaultRecordTest
