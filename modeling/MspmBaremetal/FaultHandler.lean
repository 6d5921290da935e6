import MspmBaremetal.Startup
import MspmBaremetal.ThumbCode

/-!
# The naked fault handlers of `startup.c`

`CRASH_HANDLER_ASM` finds the exception frame, if there can be one, before the
C code overwrites it.
-/

namespace MspmBaremetal.Startup

open ArchMemory Thumb

def stackTop : BitVec 32 := address Linker.stackTop
def sramStart : BitVec 32 := address Linker.sramStart
def crashStackFrameLimit : BitVec 32 := address Linker.crashStackFrameLimit

/-- `CRASH_HANDLER_ASM`; `entry` is the address of `crash_capture_from_values`. -/
def crashHandlerAsm (entry : BitVec 32) (reasonCode : BitVec 8) : List Line :=
  [.mrs .r0 .msp,
   .movs .r3 3,
   .tst .r0 .r3,
   .branchIf .ne 1,
   .literal .r3 sramStart,
   .cmp .r0 .r3,
   .branchIf .lo 1,
   .literal .r3 crashStackFrameLimit,
   .cmp .r0 .r3,
   .branchIf .hi 1,
   .ldr .r2 .r0 24,
   .ldr .r3 .r0 28,
   .branch 2,
   .label 1,
   .movs .r2 0,
   .movs .r3 0,
   .label 2,
   .mrs .r1 .ipsr,
   .movs .r0 reasonCode,
   .movsRegister .r4 .r3,
   .literal .r3 stackTop,
   .msr .msp .r3,
   .literal .r5 entry,
   .movsRegister .r3 .r4,
   .bx .r5]

/-- The handlers that `CRASH_HANDLER_ASM` makes. -/
inductive Handler where
  | nmi
  | hardFault
  | default
  deriving DecidableEq, Repr

/-- `LIB_CRASH_REASON_CODE_NMI`, `_HARDFAULT` and `_UNEXPECTED_EXCEPTION`. -/
def Handler.reasonCode : Handler → BitVec 8
  | .nmi => 1
  | .hardFault => 2
  | .default => 3

/-- `crash_capture_from_values`, up to its reset. -/
def captureFromValues (base reason exceptionNumber stackedPc stackedXpsr : BitVec 32)
    (left m : Memory) : Memory :=
  onStack left (call (.capture reason exceptionNumber stackedPc stackedXpsr) base m)

/-- Loads of the handler; nothing but SRAM answers. -/
def sramLoads (m : Memory) : Loads := fun a =>
  if Linker.sramStart ≤ a.toNat ∧ a.toNat + 4 ≤ Linker.stackTop then some (wordAt m a) else none

/-- The stack pointer can be that of an exception frame. -/
def FrameInSram (msp : BitVec 32) : Prop :=
  msp &&& 3 = 0 ∧ sramStart ≤ msp ∧ msp ≤ crashStackFrameLimit

instance (msp : BitVec 32) : Decidable (FrameInSram msp) := by unfold FrameInSram; infer_instance

/-- A word of the frame; zero where there is none. -/
def stacked (m : Memory) (msp offset : BitVec 32) : BitVec 32 :=
  if FrameInSram msp then wordAt m (msp + offset) else 0

/-- What the handler hands to `crash_capture_from_values`. -/
structure Hands (reasonCode : BitVec 8) (ipsr pc xpsr : BitVec 32) (s : State) : Prop where
  reason : s.registers .r0 = reasonCode.setWidth 32
  exceptionNumber : s.registers .r1 = ipsr
  stackedPc : s.registers .r2 = pc
  stackedXpsr : s.registers .r3 = xpsr
  freshStack : s.special .msp = stackTop

theorem aligned_iff (a : BitVec 32) : a &&& 3 = 0 ↔ a.toNat % 4 = 0 := by
  rw [← BitVec.toNat_inj, BitVec.toNat_and]
  change a.toNat &&& 2 ^ 2 - 1 = 0 ↔ _
  rw [Nat.and_two_pow_sub_one_eq_mod]

theorem frame_loads (m : Memory) {msp : BitVec 32} (h : FrameInSram msp) :
    (msp + 24 &&& 3 = 0 ∧ sramLoads m (msp + 24) = some (stacked m msp 24)) ∧
      msp + 28 &&& 3 = 0 ∧ sramLoads m (msp + 28) = some (stacked m msp 28) := by
  have frame := h
  obtain ⟨aligned, low, high⟩ := h
  have start : sramStart.toNat = 0x20000000 := rfl
  have limit : crashStackFrameLimit.toNat = 0x20001fe0 := rfl
  have top : Linker.stackTop = 0x20002000 := rfl
  have origin : Linker.sramStart = 0x20000000 := rfl
  rw [aligned_iff] at aligned
  rw [BitVec.le_def] at low high
  have pc : (msp + 24).toNat = msp.toNat + 24 := by bv_omega
  have xpsr : (msp + 28).toNat = msp.toNat + 28 := by bv_omega
  simp only [stacked, if_pos frame, aligned_iff, sramLoads, pc, xpsr]
  exact ⟨⟨by omega, if_pos (by omega)⟩, by omega, if_pos (by omega)⟩

section Handler

variable (loads : Loads) (entry : BitVec 32) (reasonCode : BitVec 8)

/-- The lines after label 2. -/
theorem enter_capture (n : Nat) (s : State) : ∃ s',
    run loads (n + 8) ((crashHandlerAsm entry reasonCode).drop 17) s = some (entry, s') ∧
      Hands reasonCode (s.special .ipsr) (s.registers .r2) (s.registers .r3) s' := by
  have stack : stackTop &&& ~~~3 = stackTop := by decide
  exact ⟨_, rfl, rfl, rfl, rfl, rfl, stack⟩

/-- The lines after label 1. -/
theorem no_frame (n : Nat) (s : State) : ∃ s',
    run loads (n + 11) ((crashHandlerAsm entry reasonCode).drop 14) s = some (entry, s') ∧
      Hands reasonCode (s.special .ipsr) 0 0 s' :=
  enter_capture loads entry reasonCode n ((s.move .r2 0).move .r3 0)

/-! Each check leaves for label 1, or goes on with the stack pointer in `r0`. -/

theorem alignment_check (s : State) : ∃ s', s'.special = s.special ∧
    s'.registers .r0 = s.special .msp ∧
    run loads 25 (crashHandlerAsm entry reasonCode) s =
      run loads 21 ((crashHandlerAsm entry reasonCode).drop
        (if s.special .msp &&& 3 = 0 then 4 else 14)) s' := by
  let s₁ : State :=
    { (s.set .r0 (s.special .msp)).move .r3 3 with zero := s.special .msp &&& 3 == 0 }
  have holds : Condition.holds s₁ .ne = !(s.special .msp &&& 3 == 0) := rfl
  refine ⟨s₁, rfl, rfl, ?_⟩
  by_cases aligned : s.special .msp &&& 3 = 0
  · have stays : Condition.holds s₁ .ne = false := by simpa [holds] using aligned
    rw [if_pos aligned]
    exact run_stays stays
  · have branches : Condition.holds s₁ .ne = true := by simpa [holds] using aligned
    rw [if_neg aligned]
    exact run_branches branches

theorem low_check (s : State) : ∃ s', s'.special = s.special ∧
    s'.registers .r0 = s.registers .r0 ∧
    run loads 21 ((crashHandlerAsm entry reasonCode).drop 4) s =
      run loads 18 ((crashHandlerAsm entry reasonCode).drop
        (if sramStart ≤ s.registers .r0 then 7 else 14)) s' := by
  let s₁ : State := { s.set .r3 sramStart with
    zero := s.registers .r0 == sramStart
    carry := sramStart ≤ s.registers .r0 }
  have holds : Condition.holds s₁ .lo = !decide (sramStart ≤ s.registers .r0) := rfl
  refine ⟨s₁, rfl, rfl, ?_⟩
  by_cases low : sramStart ≤ s.registers .r0
  · have stays : Condition.holds s₁ .lo = false := by simpa [holds] using low
    rw [if_pos low]
    exact run_stays stays
  · have branches : Condition.holds s₁ .lo = true := by simpa [holds] using low
    rw [if_neg low]
    exact run_branches branches

theorem high_check (s : State) : ∃ s', s'.special = s.special ∧
    s'.registers .r0 = s.registers .r0 ∧
    run loads 18 ((crashHandlerAsm entry reasonCode).drop 7) s =
      run loads 15 ((crashHandlerAsm entry reasonCode).drop
        (if s.registers .r0 ≤ crashStackFrameLimit then 10 else 14)) s' := by
  let s₁ : State := { s.set .r3 crashStackFrameLimit with
    zero := s.registers .r0 == crashStackFrameLimit
    carry := crashStackFrameLimit ≤ s.registers .r0 }
  have holds : Condition.holds s₁ .hi = (decide (crashStackFrameLimit ≤ s.registers .r0) &&
    !(s.registers .r0 == crashStackFrameLimit)) := rfl
  refine ⟨s₁, rfl, rfl, ?_⟩
  by_cases high : s.registers .r0 ≤ crashStackFrameLimit
  · have stays : Condition.holds s₁ .hi = false := by
      rw [holds, Bool.eq_false_iff]
      simp only [ne_eq, Bool.and_eq_true, decide_eq_true_eq, Bool.not_eq_true', beq_eq_false_iff_ne]
      rintro ⟨above, other⟩
      exact other (BitVec.le_antisymm high above)
    rw [if_pos high]
    exact run_stays stays
  · have above := BitVec.not_le.mp high
    have other : s.registers .r0 ≠ crashStackFrameLimit := fun same => high (same ▸ BitVec.le_refl _)
    have branches : Condition.holds s₁ .hi = true := by simp [holds, BitVec.le_of_lt above, other]
    rw [if_neg high]
    exact run_branches branches

/-- The two loads, and the branch over label 1. -/
theorem frame_read {pc xpsr : BitVec 32} (s : State)
    (pcAligned : s.registers .r0 + 24 &&& 3 = 0) (pcLoads : loads (s.registers .r0 + 24) = some pc)
    (xpsrAligned : s.registers .r0 + 28 &&& 3 = 0)
    (xpsrLoads : loads (s.registers .r0 + 28) = some xpsr) : ∃ s',
    run loads 15 ((crashHandlerAsm entry reasonCode).drop 10) s = some (entry, s') ∧
      Hands reasonCode (s.special .ipsr) pc xpsr s' := by
  obtain ⟨s', left, hands⟩ :=
    enter_capture loads entry reasonCode 4 ((s.set .r2 pc).set .r3 xpsr)
  have first : run loads 15 ((crashHandlerAsm entry reasonCode).drop 10) s =
      run loads 14 ((crashHandlerAsm entry reasonCode).drop 11) (s.set .r2 pc) :=
    run_ldr pcAligned pcLoads
  have second : run loads 14 ((crashHandlerAsm entry reasonCode).drop 11) (s.set .r2 pc) =
      run loads 13 ((crashHandlerAsm entry reasonCode).drop 12) ((s.set .r2 pc).set .r3 xpsr) :=
    run_ldr xpsrAligned xpsrLoads
  exact ⟨s', first.trans (second.trans left), hands⟩

end Handler

/-- From any state, and however the stack pointer was left, the handler enters
the C code on a fresh stack; it loads from the frame only where one lies in SRAM. -/
theorem crashHandlerAsm_captures (m : Memory) (entry : BitVec 32) (reasonCode : BitVec 8)
    (s : State) : ∃ s', run (sramLoads m) 25 (crashHandlerAsm entry reasonCode) s =
      some (entry, s') ∧ Hands reasonCode (s.special .ipsr) (stacked m (s.special .msp) 24)
        (stacked m (s.special .msp) 28) s' := by
  obtain ⟨s₁, special₁, pointer, step₁⟩ := alignment_check (sramLoads m) entry reasonCode s
  have missing : ¬FrameInSram (s₁.special .msp) → ∀ offset,
      stacked m (s₁.special .msp) offset = 0 := fun none _ => if_neg none
  rw [step₁]
  rw [← special₁] at pointer ⊢
  by_cases aligned : s₁.special .msp &&& 3 = 0
  · obtain ⟨s₂, special₂, same₂, step₂⟩ := low_check (sramLoads m) entry reasonCode s₁
    rw [if_pos aligned, step₂, pointer]
    by_cases low : sramStart ≤ s₁.special .msp
    · obtain ⟨s₃, special₃, same₃, step₃⟩ := high_check (sramLoads m) entry reasonCode s₂
      have here : s₃.registers .r0 = s₁.special .msp := same₃.trans (same₂.trans pointer)
      have special : s₃.special .ipsr = s₁.special .ipsr := by rw [special₃, special₂]
      rw [if_pos low, step₃, same₂, pointer]
      by_cases high : s₁.special .msp ≤ crashStackFrameLimit
      · obtain ⟨⟨pcAligned, pc⟩, xpsrAligned, xpsr⟩ := frame_loads m ⟨aligned, low, high⟩
        rw [← here] at pcAligned pc xpsrAligned xpsr
        obtain ⟨s', left, hands⟩ :=
          frame_read (sramLoads m) entry reasonCode s₃ pcAligned pc xpsrAligned xpsr
        rw [here, special] at hands
        rw [if_pos high]
        exact ⟨s', left, hands⟩
      · have none := missing fun frame => high frame.2.2
        rw [if_neg high, none, none, ← special]
        exact no_frame (sramLoads m) entry reasonCode 4 s₃
    · have none := missing fun frame => low frame.2.1
      rw [if_neg low, none, none, ← special₂]
      exact no_frame (sramLoads m) entry reasonCode 7 s₂
  · have none := missing fun frame => aligned frame.1
    rw [if_neg aligned, none, none]
    exact no_frame (sramLoads m) entry reasonCode 10 s₁

theorem captureFromValues_record {i : Linker.Inputs} {l : Linker.Layout}
    (linked : Linker.link i = some l) (reason exceptionNumber stackedPc stackedXpsr : BitVec 32)
    (left m : Memory) :
    recordAt (captureFromValues (address l.crashRecord) reason exceptionNumber stackedPc stackedXpsr
      left m) (address l.crashRecord) =
    (Crash.Call.capture reason exceptionNumber stackedPc stackedXpsr).apply
      (recordAt m (address l.crashRecord)) := by
  have captured : recordAt (call (.capture reason exceptionNumber stackedPc stackedXpsr)
      (address l.crashRecord) m) (address l.crashRecord) = _ := recordAt_putRecord ..
  rw [← captured]
  apply recordAt_congr
  intro k small
  have last := (placed linked).last
  have base := address_toNat (n := l.crashRecord) (by omega)
  exact onStack_outside (by bv_omega)

/-- In every image that links, from any state of the core, and with any record
before, a handler leaves a valid record of its fault. Below the fresh stack it
touches nothing else. -/
theorem handler_records {i : Linker.Inputs} {l : Linker.Layout} (linked : Linker.link i = some l)
    (handler : Handler) (entry : BitVec 32) (left m : Memory) (s : State) :
    ∃ s', run (sramLoads m) 25 (crashHandlerAsm entry handler.reasonCode) s = some (entry, s') ∧
      s'.special .msp = stackTop ∧
      let base := address l.crashRecord
      let m' := captureFromValues base (s'.registers .r0) (s'.registers .r1) (s'.registers .r2)
        (s'.registers .r3) left m
      let before := Crash.decoded (recordAt m base)
      Crash.decode (recordAt m' base) = (true,
        { reason := handler.reasonCode.setWidth 32
          sequence := before.elim 0 (·.sequence) + 1
          resetCause := before.elim 0 (·.resetCause)
          exceptionNumber := BitVec.ofNat 32 ((s.special .ipsr).toNat % 2 ^ 24)
          stackedPc := stacked m (s.special .msp) 24
          stackedXpsr := stacked m (s.special .msp) 28 }) ∧
      ∀ a, 32 ≤ a - base → ¬(l.stack.start ≤ a.toNat ∧ a.toNat < l.stack.stop) → m' a = m a := by
  obtain ⟨s', entered, hands⟩ := crashHandlerAsm_captures m entry handler.reasonCode s
  have named : Crash.namedReason (handler.reasonCode.setWidth 32) =
      handler.reasonCode.setWidth 32 := by cases handler <;> rfl
  obtain ⟨valid, decodes⟩ := Crash.capture_spec (handler.reasonCode.setWidth 32)
    (s.special .ipsr) (stacked m (s.special .msp) 24) (stacked m (s.special .msp) 28)
    (recordAt m (address l.crashRecord))
  refine ⟨s', entered, hands.freshStack, ?_, ?_⟩
  · simp only [hands.reason, hands.exceptionNumber, hands.stackedPc, hands.stackedXpsr,
      captureFromValues_record linked]
    rw [decode_pair valid, decodes]
    simp [Crash.history, Crash.Call.fault, Crash.Call.bootCause, named]
  · intro a far offStack
    rw [(Linker.link_separated linked).stack_last] at offStack
    rw [captureFromValues, onStack_outside offStack]
    exact putRecord_outside far

/-- A hard fault in memory full of zeroes, and the C code leaves other bytes. -/
theorem handler_records_sample : ∃ s', run (sramLoads fun _ => 0) 25
      (crashHandlerAsm 0x101 Handler.hardFault.reasonCode)
      ⟨fun _ => 0, fun r => if r = .msp then 0x20001f00 else 3, false, false⟩ = some (0x101, s') ∧
    captureFromValues (address (Linker.sections Linker.sample).crashRecord) (s'.registers .r0)
      (s'.registers .r1) (s'.registers .r2) (s'.registers .r3) (fun _ => 0x77) (fun _ => 0)
      0x20001bff = 0 := by
  obtain ⟨s', entered, -, -, kept⟩ := handler_records Linker.sample_linked .hardFault 0x101
    (fun _ => 0x77) (fun _ => 0) ⟨fun _ => 0, fun r => if r = .msp then 0x20001f00 else 3, false, false⟩
  exact ⟨s', entered, kept 0x20001bff (by decide) (by decide)⟩

end MspmBaremetal.Startup
