import MspmBaremetal.Crash

/-!
# What the crash record says about its history

`crash_history`: after any calls on a record of any content, decoding it gives
the captures counted, the last boot's cause and the last capture's fault, with
the initial record standing in for what has not happened yet if it was valid.
-/

namespace MspmBaremetal.Crash

def runCalls (calls : List Call) (r : Record) : Record := calls.foldl (fun r c => c.apply r) r

/-- What `lib_crash_capture` records of one fault. -/
structure Fault where
  reason : Reason
  exceptionNumber : BitVec 32
  stackedPc : BitVec 32
  stackedXpsr : BitVec 32
  deriving DecidableEq, Repr

def Fault.none : Fault := ⟨reasonNone, 0, 0, 0⟩

def Call.bootCause : Call → Option (BitVec 32)
  | .noteBoot resetCause => some resetCause
  | .capture .. => Option.none

/-- An NMI or a hard fault; whatever else is captured is an unexpected exception. -/
def namedReason (reason : Reason) : Reason := if reason = 1 ∨ reason = 2 then reason else 3

/-- The fault a capture is told, its reason named and its exception number
modulo 2^24. -/
def Call.fault : Call → Option Fault
  | .noteBoot _ => Option.none
  | .capture reason exceptionNumber stackedPc stackedXpsr =>
    some ⟨namedReason reason, BitVec.ofNat 32 (exceptionNumber.toNat % 2 ^ 24), stackedPc,
      stackedXpsr⟩

/-- The history law: what decoding must give after `calls` on a record that
decoded to `start` when it was valid. -/
def history (start : Option Snapshot) (calls : List Call) : Snapshot :=
  let fault := (calls.filterMap Call.fault).getLast?.getD
    (start.elim Fault.none fun s => ⟨s.reason, s.exceptionNumber, s.stackedPc, s.stackedXpsr⟩)
  { reason := fault.reason
    sequence := start.elim 0 (·.sequence) + BitVec.ofNat 32 (calls.filterMap Call.fault).length
    resetCause := (calls.filterMap Call.bootCause).getLast?.getD (start.elim 0 (·.resetCause))
    exceptionNumber := fault.exceptionNumber
    stackedPc := fault.stackedPc
    stackedXpsr := fault.stackedXpsr }

/-- The decoded record, if it is valid. -/
def decoded (r : Record) : Option Snapshot :=
  if (decode r).1 then some (decode r).2 else none

theorem decode_eq {r : Record} (h : isValid r = true) :
    decode r = (true, { reason := r.reason &&& reasonCodeMask, sequence := r.sequence,
                        resetCause := r.resetCause, exceptionNumber := r.reason >>> 8,
                        stackedPc := r.stackedPc, stackedXpsr := r.stackedXpsr }) := by
  unfold decode
  rw [if_pos h]

theorem decoded_valid {r : Record} (h : isValid r = true) : decoded r = some (decode r).2 := by
  unfold decoded
  rw [decode_eq h]
  rfl

theorem decoded_invalid {r : Record} (h : isValid r = false) : decoded r = none := by
  simp [decoded, decode, h]

/-! ## Packing a reason -/

theorem reason_cases {code : BitVec 32} (h : reasonCodeIsValid code = true) :
    code = 0 ∨ code = 1 ∨ code = 2 ∨ code = 3 := by
  simpa [reasonCodeIsValid, reasonNone, reasonNmi, reasonHardfault, reasonUnexpectedException,
    or_assoc] using h

theorem normalizeReason_eq (reason : Reason) : normalizeReason reason = namedReason reason := by
  rw [normalizeReason, namedReason]
  by_cases named : reason = 1 ∨ reason = 2
  · rw [if_pos named, if_neg]
    rcases named with rfl | rfl <;> decide
  · rw [if_neg named]
    by_cases unnamed : reason = reasonNone ∨ ¬reasonCodeIsValid reason = true
    · exact if_pos unnamed
    · rw [if_neg unnamed]
      rw [not_or, Decidable.not_not] at unnamed
      rcases reason_cases unnamed.2 with none | nmi | hard | unexpected
      · exact absurd none unnamed.1
      · exact absurd (.inl nmi) named
      · exact absurd (.inr hard) named
      · exact unexpected

/-- A capture never records the reason `NONE`. -/
theorem namedReason_cases (reason : Reason) :
    namedReason reason = 1 ∨ namedReason reason = 2 ∨ namedReason reason = 3 := by
  unfold namedReason
  split
  next named => exact named.imp_right .inl
  next => exact .inr (.inr rfl)

theorem mask_toNat (x : BitVec 32) : (x &&& reasonCodeMask).toNat = x.toNat % 2 ^ 8 := by
  rw [BitVec.toNat_and]
  exact Nat.and_two_pow_sub_one_eq_mod _ 8

theorem exceptionMask_toNat (x : BitVec 32) :
    (x &&& exceptionNumberMask).toNat = x.toNat % 2 ^ 24 := by
  rw [BitVec.toNat_and]
  exact Nat.and_two_pow_sub_one_eq_mod _ 24

/-- The two packed fields do not overlap. -/
theorem packReason_toNat (reason : Reason) (exceptionNumber : BitVec 32) :
    (packReason reason exceptionNumber).toNat =
      (exceptionNumber.toNat % 2 ^ 24) * 2 ^ 8 + reason.toNat % 2 ^ 8 := by
  have low : reason.toNat % 2 ^ 8 < 2 ^ 8 := Nat.mod_lt _ (by decide)
  have high : exceptionNumber.toNat % 2 ^ 24 < 2 ^ 24 := Nat.mod_lt _ (by decide)
  unfold packReason
  rw [BitVec.toNat_or, BitVec.toNat_shiftLeft, mask_toNat, exceptionMask_toNat, Nat.shiftLeft_eq,
    Nat.mod_eq_of_lt (by omega), Nat.mul_comm, ← Nat.two_pow_add_eq_or_of_lt low]

theorem packReason_code {reason : Reason} (small : reason.toNat < 2 ^ 8)
    (exceptionNumber : BitVec 32) :
    packReason reason exceptionNumber &&& reasonCodeMask = reason := by
  apply BitVec.eq_of_toNat_eq
  rw [mask_toNat, packReason_toNat]
  omega

theorem packReason_exception (reason : Reason) (exceptionNumber : BitVec 32) :
    packReason reason exceptionNumber >>> 8 =
      BitVec.ofNat 32 (exceptionNumber.toNat % 2 ^ 24) := by
  apply BitVec.eq_of_toNat_eq
  rw [BitVec.toNat_ushiftRight, packReason_toNat, Nat.shiftRight_eq_div_pow, BitVec.toNat_ofNat]
  omega

/-! ## One call -/

/-- `lib_crash_note_boot` keeps a valid record's fault and replaces its cause. -/
theorem noteBoot_spec (resetCause : BitVec 32) (r : Record) :
    isValid ((Call.noteBoot resetCause).apply r) = true ∧
    (decode ((Call.noteBoot resetCause).apply r)).2 =
      history (decoded r) [.noteBoot resetCause] := by
  have stores : (Call.noteBoot resetCause).apply r = run (noteBoot resetCause r) r := rfl
  rw [stores]
  unfold noteBoot
  by_cases valid : isValid r = true
  · obtain ⟨-, -, -, code, -⟩ := (isValid_iff r).mp valid
    rw [if_pos valid, List.nil_append, List.singleton_append, run_cons]
    have h : isValid (run commit (setResetCause resetCause r)) = true := commit_valid code
    obtain ⟨c, hrun, -⟩ := run_commit (setResetCause resetCause r)
    refine ⟨h, ?_⟩
    rw [decode_eq h, decoded_valid valid, decode_eq valid, hrun]
    simp [history, List.filterMap, Call.fault, Call.bootCause, setResetCause]
  · rw [if_neg valid, run_append]
    generalize hs : run (clearRecord ++ [setResetCause resetCause]) r = s
    have fields : s.reason = reasonNone ∧ s.sequence = 0 ∧ s.resetCause = resetCause ∧
        s.stackedPc = 0 ∧ s.stackedXpsr = 0 := by
      rw [← hs]
      exact ⟨rfl, rfl, rfl, rfl, rfl⟩
    obtain ⟨hreason, hseq, hcause, hpc, hxpsr⟩ := fields
    have h : isValid (run commit s) = true := by
      apply commit_valid
      rw [hreason]
      decide
    obtain ⟨c, hrun, -⟩ := run_commit s
    refine ⟨h, ?_⟩
    rw [decode_eq h, decoded_invalid (by simpa using valid), hrun]
    simp [history, List.filterMap, Call.fault, Call.bootCause, Fault.none, hreason, hseq, hcause,
      hpc, hxpsr, reasonNone]

/-- `lib_crash_capture` counts itself, keeps the cause and replaces the fault. -/
theorem capture_spec (reason : Reason) (exceptionNumber stackedPc stackedXpsr : BitVec 32)
    (r : Record) :
    isValid ((Call.capture reason exceptionNumber stackedPc stackedXpsr).apply r) = true ∧
    (decode ((Call.capture reason exceptionNumber stackedPc stackedXpsr).apply r)).2 =
      history (decoded r) [.capture reason exceptionNumber stackedPc stackedXpsr] := by
  have small : (namedReason reason).toNat < 2 ^ 8 := by
    rcases namedReason_cases reason with h | h | h <;> rw [h] <;> decide
  have code := packReason_code small exceptionNumber
  have codeValid : reasonCodeIsValid (namedReason reason) = true := by
    rcases namedReason_cases reason with h | h | h <;> rw [h] <;> decide
  have stores : (Call.capture reason exceptionNumber stackedPc stackedXpsr).apply r =
      run (capture reason exceptionNumber stackedPc stackedXpsr r) r := rfl
  rw [stores]
  unfold capture
  rw [run_append]
  generalize hs : run (clearRecord ++ _) r = s
  have fields : s.reason = packReason (namedReason reason) exceptionNumber ∧
      s.sequence = (if isValid r then r.sequence else 0) + 1 ∧
      s.resetCause = (if isValid r then r.resetCause else 0) ∧
      s.stackedPc = stackedPc ∧ s.stackedXpsr = stackedXpsr := by
    rw [← hs, ← normalizeReason_eq]
    exact ⟨rfl, rfl, rfl, rfl, rfl⟩
  obtain ⟨hreason, hseq, hcause, hpc, hxpsr⟩ := fields
  have h : isValid (run commit s) = true := by
    apply commit_valid
    rw [hreason, code]
    exact codeValid
  obtain ⟨c, hrun, -⟩ := run_commit s
  refine ⟨h, ?_⟩
  rw [decode_eq h, hrun]
  simp only [hreason, code, hseq, hcause, hpc, hxpsr, packReason_exception]
  by_cases valid : isValid r = true
  · rw [decoded_valid valid, decode_eq valid]
    simp [history, Call.fault, Call.bootCause, valid]
  · rw [decoded_invalid (by simpa using valid)]
    simp [history, Call.fault, Call.bootCause, valid]

theorem apply_spec (c : Call) (r : Record) :
    isValid (c.apply r) = true ∧ (decode (c.apply r)).2 = history (decoded r) [c] := by
  cases c with
  | noteBoot resetCause => exact noteBoot_spec resetCause r
  | capture reason exceptionNumber stackedPc stackedXpsr =>
    exact capture_spec reason exceptionNumber stackedPc stackedXpsr r

/-! ## Any calls -/

/-- The law for one call composes to the law for all of them. -/
theorem history_cons (start : Option Snapshot) (c : Call) (calls : List Call) :
    history (some (history start [c])) calls = history start (c :: calls) := by
  cases c with
  | noteBoot resetCause =>
    have fault : (Call.noteBoot resetCause).fault = none := rfl
    have cause : (Call.noteBoot resetCause).bootCause = some resetCause := rfl
    simp only [history, List.filterMap_cons, List.filterMap_nil, fault, cause, List.getLast?_cons,
      List.getLast?_nil, Option.getD_none, Option.getD_some, Option.elim_some, List.length_nil,
      BitVec.ofNat_eq_ofNat, BitVec.add_zero]
  | capture reason exceptionNumber stackedPc stackedXpsr =>
    have fault : (Call.capture reason exceptionNumber stackedPc stackedXpsr).fault =
      some ⟨namedReason reason, BitVec.ofNat 32 (exceptionNumber.toNat % 2 ^ 24), stackedPc,
        stackedXpsr⟩ := rfl
    have cause : (Call.capture reason exceptionNumber stackedPc stackedXpsr).bootCause = none := rfl
    have count (n : Nat) (x : BitVec 32) :
        x + BitVec.ofNat 32 (0 + 1) + BitVec.ofNat 32 n = x + BitVec.ofNat 32 (n + 1) := by
      rw [BitVec.add_assoc, ← BitVec.ofNat_add, Nat.zero_add, Nat.add_comm]
    simp only [history, List.filterMap_cons, List.filterMap_nil, fault, cause, List.getLast?_cons,
      List.getLast?_nil, Option.getD_none, Option.getD_some, Option.elim_some, List.length_cons,
      List.length_nil, count]

theorem runCalls_spec (r : Record) (first : Call) (rest : List Call) :
    isValid (runCalls (first :: rest) r) = true ∧
    (decode (runCalls (first :: rest) r)).2 = history (decoded r) (first :: rest) := by
  induction rest generalizing r first with
  | nil => exact apply_spec first r
  | cons c rest ih =>
    obtain ⟨valid, hdecode⟩ := ih (first.apply r) c
    obtain ⟨firstValid, firstDecode⟩ := apply_spec first r
    refine ⟨valid, ?_⟩
    rw [decoded_valid firstValid, firstDecode, history_cons] at hdecode
    exact hdecode

theorem hasFault_eq {r : Record} (h : isValid r = true) :
    hasFault r = ((decode r).2.reason != reasonNone) := by
  unfold hasFault reasonOf
  rw [if_pos h, decode_eq h]

/-- A fault in the law's result is a capture's or the initial record's. -/
theorem history_reason (start : Option Snapshot) (calls : List Call) :
    (history start calls).reason ≠ reasonNone ↔
      (∃ c ∈ calls, (Call.fault c).isSome = true) ∨
      ∃ s, start = some s ∧ s.reason ≠ reasonNone := by
  have captured : ∀ f ∈ calls.filterMap Call.fault, f.reason ≠ reasonNone := by
    intro f hf
    obtain ⟨c, -, hc⟩ := List.mem_filterMap.mp hf
    cases c with
    | noteBoot => cases hc
    | capture reason =>
      cases hc
      rcases namedReason_cases reason with h | h | h <;> simp only [h] <;> decide
  have some_capture : (∃ c ∈ calls, (Call.fault c).isSome = true) ↔
      calls.filterMap Call.fault ≠ [] := by
    simp only [ne_eq, List.filterMap_eq_nil_iff, not_forall, Option.isSome_iff_ne_none, exists_prop]
  rw [some_capture]
  cases hf : (calls.filterMap Call.fault).getLast? with
  | none =>
    rw [List.getLast?_eq_none_iff] at hf
    cases start <;> simp [history, hf, Fault.none]
  | some f =>
    have mem := List.mem_of_getLast? hf
    have ne := captured f mem
    simp [history, hf, ne, List.ne_nil_of_mem mem]

/-- **The history law.** Whatever the record held, it is valid after every
call, and decoding it gives the history of all the calls so far. -/
theorem crash_history (r : Record) (first : Call) (rest : List Call) :
    isValid (runCalls (first :: rest) r) = true ∧
    decode (runCalls (first :: rest) r) = (true, history (decoded r) (first :: rest)) ∧
    (hasFault (runCalls (first :: rest) r) = true ↔
      (∃ c ∈ first :: rest, (Call.fault c).isSome = true) ∨ hasFault r = true) := by
  obtain ⟨valid, hdecode⟩ := runCalls_spec r first rest
  refine ⟨valid, ?_, ?_⟩
  · rw [← hdecode, decode_eq valid]
  · rw [hasFault_eq valid, hdecode, bne_iff_ne, history_reason]
    apply or_congr_right
    by_cases old : isValid r = true
    · rw [hasFault_eq old, decoded_valid old]
      simp
    · rw [decoded_invalid (by simpa using old)]
      simp [hasFault, reasonOf, old]

end MspmBaremetal.Crash
