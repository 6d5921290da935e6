import MspmBaremetal.I2cController
import Mathlib.Data.List.Induction
import Mathlib.Data.Nat.Find

/-!
# Polling for completion

What `hal_i2c_controller_wait_for_completion` reports of the samples it takes:
of no sample up to completion is an error lost.
-/

namespace MspmBaremetal.I2cController

open RegisterProgram

/-- MSR and RIS, as one turn of the loop reads them. -/
abbrev Sample := BitVec 32 × BitVec 32

/-- The sample that turn `k` reads. -/
def sample (answers : Stream' (BitVec 32)) (k : Nat) : Sample :=
  (answers.get (2 * k), answers.get (2 * k + 1))

/-- The samples of the first `n` turns. -/
def samples (answers : Stream' (BitVec 32)) (n : Nat) : List Sample :=
  (List.range n).map (sample answers)

def Sample.Busy (s : Sample) : Prop := s.1 &&& msrBusy ≠ 0

def Sample.TimedOut (s : Sample) : Prop := s.2 &&& risTimeouta ≠ 0

instance : DecidablePred Sample.Busy := fun _ => inferInstanceAs (Decidable (_ ≠ _))

instance : DecidablePred Sample.TimedOut := fun _ => inferInstanceAs (Decidable (_ ≠ _))

/-- The errors of a status, the first that applies. -/
def errorBits : List (BitVec 32 × Result) :=
  [(msrArblst, .arbitrationLost), (msrAdrack, .addressNack), (msrDatack, .dataNack),
    (msrErr, .ioError)]

def busError (status : BitVec 32) : Option Result :=
  errorBits.findSome? fun entry => if status &&& entry.1 ≠ 0 then some entry.2 else none

/-- What the samples up to completion amount to. -/
def reported (samples : List Sample) : Result :=
  if ∃ s ∈ samples, s.TimedOut then .sclLowTimeout
  else (samples.findSome? fun s => busError s.1).getD .ok

/-- The variables of the loop after one more sample. -/
def observe (state : Result × Driver) (s : Sample) : Result × Driver :=
  (if s.TimedOut then .sclLowTimeout
    else if state.1 = .ok ∧ statusResult s.1 ≠ .ok then statusResult s.1 else state.1,
    { state.2 with lastStatus := s.1 })

/-! ## The loop as a fold -/

theorem statusResult_eq (status : BitVec 32) : statusResult status = (busError status).getD .ok := by
  simp only [statusResult, busError, errorBits, List.findSome?_cons, List.findSome?_nil]
  split_ifs <;> rfl

theorem busError_ne_ok (status : BitVec 32) : busError status ≠ some .ok := by
  simp only [busError, errorBits, List.findSome?_cons, List.findSome?_nil]
  split_ifs <;> simp

theorem samples_succ (answers : Stream' (BitVec 32)) (n : Nat) :
    samples answers (n + 1) = sample answers 0 :: samples answers.tail.tail n := by
  rw [samples, List.range_succ_eq_map, List.map_cons, List.map_map]
  rfl

theorem samples_succ' (answers : Stream' (BitVec 32)) (n : Nat) :
    samples answers (n + 1) = samples answers n ++ [sample answers n] := by
  rw [samples, List.range_succ, List.map_append]
  rfl

/-- The accesses of one turn. -/
def turn (s : Sample) : List Access :=
  [.read .msr s.1, .read .ris s.2] ++ if s.TimedOut then [.write .iclr eventMask] else []

theorem pollCompletion_run (state : Result × Driver) (answers : Stream' (BitVec 32)) :
    (pollCompletion state).run answers = (turn (sample answers 0),
      if (sample answers 0).Busy then .inr (observe state (sample answers 0))
      else .inl (observe state (sample answers 0)), answers.tail.tail) := by
  have left : ∀ out : Result × Driver,
      (if answers.head &&& msrBusy = 0 then Sum.inl out else Sum.inr out) =
        if (sample answers 0).Busy then Sum.inr out else Sum.inl out := by
    intro out
    by_cases idle : answers.head &&& msrBusy = 0
    · have free : ¬(sample answers 0).Busy := not_not.mpr idle
      rw [if_pos idle, if_neg free]
    · have busy : (sample answers 0).Busy := idle
      rw [if_neg idle, if_pos busy]
  simp only [pollCompletion, run_bind, load, run, List.cons_append, List.nil_append]
  by_cases timed : (sample answers 0).TimedOut
  · have cleared : ¬answers.tail.head &&& risTimeouta = 0 := timed
    simp only [cleared, ne_eq, not_false_eq_true, if_true, left, turn, observe, if_pos timed]
    rfl
  · have quiet : answers.tail.head &&& risTimeouta = 0 := not_not.mp timed
    simp only [quiet, ne_eq, not_true_eq_false, if_false, left, turn, observe, if_neg timed]
    rfl

/-- The loop stops at the first sample that is not busy. -/
theorem poll_run_done {limit k : Nat} (state : Result × Driver) (answers : Stream' (BitVec 32))
    (within : k < limit) (before : ∀ j < k, (sample answers j).Busy)
    (done : ¬(sample answers k).Busy) : ∃ rest, (poll pollCompletion limit state).run answers =
      ((samples answers (k + 1)).flatMap turn,
        .inl ((samples answers (k + 1)).foldl observe state), rest) := by
  induction k generalizing limit state answers with
  | zero =>
    obtain ⟨limit, rfl⟩ := Nat.exists_eq_succ_of_ne_zero (Nat.ne_of_gt within)
    refine ⟨answers.tail.tail, ?_⟩
    rw [poll, run_bind, pollCompletion_run]
    simp only [if_neg done]
    simp [samples, run, pure]
  | succ k ih =>
    obtain ⟨limit, rfl⟩ := Nat.exists_eq_succ_of_ne_zero (Nat.ne_of_gt (Nat.zero_lt_of_lt within))
    obtain ⟨rest, further⟩ := ih (observe state (sample answers 0)) answers.tail.tail
      (Nat.lt_of_succ_lt_succ within) (fun j hj => before (j + 1) (by omega)) done
    refine ⟨rest, ?_⟩
    rw [poll, run_bind, pollCompletion_run]
    simp only [if_pos (before 0 (by omega)), further]
    rw [samples_succ answers (k + 1), List.flatMap_cons, List.foldl_cons]

/-- The loop gives up after `limit` busy samples. -/
theorem poll_run_busy {limit : Nat} (state : Result × Driver) (answers : Stream' (BitVec 32))
    (busy : ∀ j < limit, (sample answers j).Busy) : (poll pollCompletion limit state).run answers =
      ((samples answers limit).flatMap turn,
        .inr ((samples answers limit).foldl observe state), answers.drop (2 * limit)) := by
  induction limit generalizing state answers with
  | zero => rfl
  | succ limit ih =>
    have further := ih (observe state (sample answers 0)) answers.tail.tail
      (fun j hj => busy (j + 1) (by omega))
    rw [poll, run_bind, pollCompletion_run]
    simp only [if_pos (busy 0 (by omega)), further]
    rw [samples_succ, List.flatMap_cons, List.foldl_cons]
    rfl

/-! ## What the loop reports -/

theorem reported_append (seen : List Sample) (s : Sample) :
    reported (seen ++ [s]) = if s.TimedOut then .sclLowTimeout
      else if reported seen = .ok ∧ statusResult s.1 ≠ .ok then statusResult s.1
      else reported seen := by
  by_cases timed : s.TimedOut
  · rw [if_pos timed, reported, if_pos ⟨s, by simp, timed⟩]
  rw [if_neg timed]
  by_cases earlier : ∃ s ∈ seen, s.TimedOut
  · obtain ⟨s', mem, timed'⟩ := earlier
    have before : reported seen = .sclLowTimeout := if_pos ⟨s', mem, timed'⟩
    rw [before, reported, if_pos ⟨s', by simp [mem], timed'⟩]
    rfl
  · have unseen : ¬∃ s' ∈ seen ++ [s], s'.TimedOut := by
      rintro ⟨s', mem, timed'⟩
      rcases List.mem_append.mp mem with mem | mem
      · exact earlier ⟨s', mem, timed'⟩
      · exact timed (List.mem_singleton.mp mem ▸ timed')
    rw [reported, if_neg unseen, reported, if_neg earlier, List.findSome?_append, statusResult_eq]
    rcases first : seen.findSome? (fun s => busError s.1) with _ | error
    · rw [first, Option.none_or]
      by_cases ok : (busError s.1).getD .ok = .ok
      · simp [ok]
      · simp [ok]
    · rw [first]
      obtain ⟨s', -, found⟩ := List.exists_of_findSome?_eq_some first
      have failed : error ≠ .ok := by
        rintro rfl
        exact busError_ne_ok s'.1 found
      simp [failed]

theorem foldl_observe (driver : Driver) (seen : List Sample) : seen.foldl observe (.ok, driver) =
    (reported seen, { driver with
      lastStatus := (seen.getLast?.map Prod.fst).getD driver.lastStatus }) := by
  induction seen using List.reverseRecOn with
  | nil => rfl
  | append_singleton seen s ih =>
    rw [List.foldl_append, ih, reported_append]
    simp [observe]

section Samples

variable {answers : Stream' (BitVec 32)} {j k n : Nat}

theorem mem_samples {s : Sample} : s ∈ samples answers n ↔ ∃ j < n, sample answers j = s := by
  simp [samples]

theorem getLast?_samples : (samples answers (n + 1)).getLast? = some (sample answers n) := by
  rw [samples_succ', List.getLast?_concat]

theorem reported_timedOut (within : j < n) (timed : (sample answers j).TimedOut) :
    reported (samples answers n) = .sclLowTimeout :=
  if_pos ⟨_, mem_samples.mpr ⟨j, within, rfl⟩, timed⟩

theorem unseen_samples (quiet : ∀ i < n, ¬(sample answers i).TimedOut) :
    ¬∃ s ∈ samples answers n, s.TimedOut := by
  rintro ⟨s, mem, timed⟩
  obtain ⟨i, lt, rfl⟩ := mem_samples.mp mem
  exact quiet i lt timed

theorem errorFree_samples (clear : ∀ i < n, busError (sample answers i).1 = none) :
    (samples answers n).findSome? (fun s => busError s.1) = none := by
  rw [List.findSome?_eq_none_iff]
  intro s mem
  obtain ⟨i, lt, rfl⟩ := mem_samples.mp mem
  exact clear i lt

theorem findSome?_samples {error : Result} (within : j < n)
    (clear : ∀ i < j, busError (sample answers i).1 = none)
    (failed : busError (sample answers j).1 = some error) :
    (samples answers n).findSome? (fun s => busError s.1) = some error := by
  induction n with
  | zero => exact absurd within (Nat.not_lt_zero j)
  | succ n ih =>
    rw [samples_succ', List.findSome?_append]
    rcases Nat.lt_succ_iff_lt_or_eq.mp within with earlier | rfl
    · rw [ih earlier, Option.some_or]
    · simp [errorFree_samples clear, failed]

theorem reported_error {error : Result} (quiet : ∀ i < n, ¬(sample answers i).TimedOut)
    (within : j < n) (clear : ∀ i < j, busError (sample answers i).1 = none)
    (failed : busError (sample answers j).1 = some error) :
    reported (samples answers n) = error := by
  rw [reported, if_neg (unseen_samples quiet), findSome?_samples within clear failed]
  rfl

theorem reported_eq_ok : reported (samples answers n) = .ok ↔
    ∀ i < n, ¬(sample answers i).TimedOut ∧ busError (sample answers i).1 = none := by
  constructor
  · intro ok i within
    have quiet : ∀ i < n, ¬(sample answers i).TimedOut := by
      intro i within timed
      rw [reported_timedOut within timed] at ok
      cases ok
    refine ⟨quiet i within, ?_⟩
    induction i using Nat.strong_induction_on with
    | _ i ih =>
      by_contra failed
      obtain ⟨error, failed⟩ := Option.ne_none_iff_exists'.mp failed
      rw [reported_error quiet within (fun j lt => ih j lt (by omega)) failed] at ok
      exact busError_ne_ok _ (ok ▸ failed)
  · intro free
    have unseen := unseen_samples fun i lt => (free i lt).1
    have clear := errorFree_samples fun i lt => (free i lt).2
    rw [reported, if_neg unseen, clear]
    rfl

end Samples

theorem writesOf_turns (seen : List Sample) : writesOf .mctr (seen.flatMap turn) = [] := by
  induction seen with
  | nil => rfl
  | cons s seen ih =>
    rw [List.flatMap_cons, writesOf_append, ih, turn]
    split_ifs <;> simp

section Completion

variable {driver : Driver} {answers : Stream' (BitVec 32)}

theorem first_done {limit : Nat} (some : ¬∀ k < limit, (sample answers k).Busy) :
    ∃ k < limit, ¬(sample answers k).Busy ∧ ∀ j < k, (sample answers j).Busy := by
  have found : ∃ k, k < limit ∧ ¬(sample answers k).Busy := by simpa using some
  obtain ⟨within, done⟩ := Nat.find_spec found
  refine ⟨Nat.find found, within, done, ?_⟩
  intro j lt
  by_contra done
  exact Nat.find_min found lt ⟨by omega, done⟩

theorem waitForCompletion_done {k : Nat} (within : k < driver.pollLimit.toNat)
    (before : ∀ j < k, (sample answers j).Busy) (done : ¬(sample answers k).Busy) :
    ∃ rest, (waitForCompletion driver).run answers =
      ((samples answers (k + 1)).flatMap turn, (reported (samples answers (k + 1)),
        { driver with lastStatus := (sample answers k).1 }), rest) := by
  obtain ⟨rest, polled⟩ := poll_run_done (.ok, driver) answers within before done
  refine ⟨rest, ?_⟩
  rw [waitForCompletion, run_bind, polled, foldl_observe, getLast?_samples]
  simp [pure, run]

theorem waitForCompletion_busy (busy : ∀ j < driver.pollLimit.toNat, (sample answers j).Busy) :
    let n := driver.pollLimit.toNat
    (waitForCompletion driver).run answers =
      ((samples answers n).flatMap turn ++ [.read .mctr (answers.get (2 * n)),
          .write .mctr (answers.get (2 * n) ||| mctrStop)],
        (.timeout, { driver with
          lastStatus := ((samples answers n).getLast?.map Prod.fst).getD driver.lastStatus }),
        answers.drop (2 * n + 1)) := by
  dsimp only
  rw [waitForCompletion, run_bind, poll_run_busy _ answers busy, foldl_observe]
  simp [run_bind, load, store, pure, run]

end Completion

/-- What `hal_i2c_controller_wait_for_completion` returns for every stream of
samples: SCL_LOW_TIMEOUT if a sample up to completion shows it, else the first
error, else OK; without completion TIMEOUT, with STOP requested. OK means that
no sample up to completion shows an error. -/
theorem completion_reported (driver : Driver) (limited : 1 ≤ driver.pollLimit.toNat)
    (answers : Stream' (BitVec 32)) : ∃ trace result status rest,
    (waitForCompletion driver).run answers =
        (trace, (result, { driver with lastStatus := status }), rest) ∧
      (∀ k < driver.pollLimit.toNat, (∀ j < k, (sample answers j).Busy) →
        ¬(sample answers k).Busy →
          status = (sample answers k).1 ∧ writesOf .mctr trace = [] ∧
          ((∃ j ≤ k, (sample answers j).TimedOut) → result = .sclLowTimeout) ∧
          ((∀ j ≤ k, ¬(sample answers j).TimedOut) →
            (∀ j ≤ k, ∀ error, (∀ i < j, busError (sample answers i).1 = none) →
              busError (sample answers j).1 = some error → result = error) ∧
            ((∀ j ≤ k, busError (sample answers j).1 = none) → result = .ok))) ∧
      ((∀ k < driver.pollLimit.toNat, (sample answers k).Busy) →
        result = .timeout ∧ status = (sample answers (driver.pollLimit.toNat - 1)).1 ∧
          ∃ polls control, trace = polls ++ [.read .mctr control, .write .mctr (control ||| mctrStop)] ∧
            writesOf .mctr polls = []) ∧
      (result = .ok → ∃ k < driver.pollLimit.toNat, ¬(sample answers k).Busy ∧
        ∀ j ≤ k, ¬(sample answers j).TimedOut ∧
          ∀ entry ∈ errorBits, (sample answers j).1 &&& entry.1 = 0) := by
  have free : ∀ status, busError status = none ↔ ∀ entry ∈ errorBits, status &&& entry.1 = 0 := by
    simp [busError]
  by_cases busy : ∀ k < driver.pollLimit.toNat, (sample answers k).Busy
  · obtain ⟨n, limit⟩ := Nat.exists_eq_add_of_le' limited
    have gaveUp := waitForCompletion_busy busy
    rw [limit] at gaveUp busy ⊢
    dsimp only at gaveUp
    rw [getLast?_samples] at gaveUp
    refine ⟨_, _, _, _, gaveUp, fun k within _ done => absurd (busy k within) done,
      fun _ => ⟨rfl, rfl, _, _, rfl, writesOf_turns _⟩, nofun⟩
  · obtain ⟨k, within, done, before⟩ := first_done busy
    obtain ⟨rest, finished⟩ := waitForCompletion_done within before done
    refine ⟨_, _, _, _, finished, ?_, fun every => absurd (every k within) done,
      fun ok => ⟨k, within, done, ?_⟩⟩
    · intro k' within' before' done'
      obtain rfl : k = k' := by
        rcases Nat.lt_trichotomy k k' with lt | eq | gt
        · exact absurd (before' k lt) done
        · exact eq
        · exact absurd (before k' gt) done'
      refine ⟨rfl, writesOf_turns _, ?_, fun quiet => ⟨?_, fun clear => ?_⟩⟩
      · rintro ⟨j, le, timed⟩
        exact reported_timedOut (by omega) timed
      · intro j le error clear failed
        exact reported_error (fun i lt => quiet i (by omega)) (by omega) clear failed
      · exact reported_eq_ok.mpr fun i lt => ⟨quiet i (by omega), clear i (by omega)⟩
    · intro j le
      obtain ⟨quiet, clear⟩ := reported_eq_ok.mp ok j (by omega)
      exact ⟨quiet, (free _).mp clear⟩

/-- An address NACK while busy, then a clock timeout, then completion. -/
def overriddenAnswers : Stream' (BitVec 32) := fun n => [0x7, 0x0, 0x1, 0x4000, 0x0, 0x0].getD n 0

theorem completion_reported_overridden :
    ((waitForCompletion ⟨0, 3, 0, 0, true⟩).run overriddenAnswers).2.1.1 = .sclLowTimeout := by
  obtain ⟨trace, result, status, rest, ran, completed, -, -⟩ :=
    completion_reported ⟨0, 3, 0, 0, true⟩ (by decide) overriddenAnswers
  rw [ran]
  exact (completed 2 (by decide) (by decide) (by decide)).2.2.1 ⟨1, by decide, by decide⟩

end MspmBaremetal.I2cController
