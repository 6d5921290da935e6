import MspmBaremetal.BringUp
import MspmBaremetal.ToggleLoop

/-!
# `blink`

`main` of `blink`: the LED tells the clock. It toggles every 500 ms at 32 MHz and
every 125 ms at the fallback's 4 MHz, and it stays lit if the watchdog fails.
-/

namespace MspmBaremetal.Blink

open RegisterProgram

variable {σ κ : Type}

def blinkPeriodMs : BitVec 32 := 500
def blinkFallbackPeriodMs : BitVec 32 := 125

/-- The red LED is lit for ever. -/
def fail (b : Board σ κ) : Board.Program (Option (BitVec 32) × Board σ κ) := do
  Board.ledRedSet true
  pure (none, b)

/-- `main` up to its loop, with the loop's period; `none` if it never gets there. -/
def start (b : Board σ κ) : Board.Program (Option (BitVec 32) × Board σ κ) := do
  let (initResult, b) ← b.boardInit
  if initResult = .gpioFailure ∨ initResult = .uartFailure then fail b
  else do
    let periodMs := if initResult = .clockFallback then blinkFallbackPeriodMs else blinkPeriodMs
    let (timed, nowMs) ← Board.timerInit1ms b.mclkHz b.nowMs
    let b := { b with nowMs }
    if !timed then fail b
    else if !(← Board.wdtInit) then fail b
    else pure (some periodMs, b)

variable {b b' : Board σ κ} {t : List Board.Access} {up : Option (BitVec 32)}

theorem start_makes (h : (start b).Makes t (up, b')) :
    ∃ status, readsOf (.wwdt .wwdtstat) t = [status] ∧
      up = (if status &&& 0x1 = 0x1 then
        some (if b'.mclkHz = 32000000 then blinkPeriodMs else blinkFallbackPeriodMs) else none) ∧
      Board.Clocked b'.mclkHz ∧
      (∃ reload, writesOf (.systick .load) t = [reload] ∧
        (reload.toNat + 1) * 1000 = b'.mclkHz.toNat) ∧
      writesOf (.gpio Board.gpioaBase .doutset) t = if up.isSome then [] else [1] := by
  rw [start, makes_bind] at h
  obtain ⟨t₁, ⟨initResult, b₁⟩, _, rfl, initialised, h⟩ := h
  have board := Board.boardInit_makes initialised
  dsimp only at h
  rw [if_neg board.passed, makes_bind] at h
  obtain ⟨t₂, ⟨timed, nowMs⟩, _, rfl, ticking, h⟩ := h
  obtain ⟨rfl, rfl, rfl, tick⟩ := Board.timer_makes board.clocked ticking
  simp only [Bool.not_true, Bool.false_eq_true, if_false, makes_bind] at h
  obtain ⟨t₃, running, t₄, rfl, watched, h⟩ := h
  obtain ⟨status, read, runs, unticked, -, dark⟩ := Board.wdt_makes watched
  obtain ⟨unread, noReload, -⟩ := board.untouched
  have period : (if initResult = .clockFallback then blinkFallbackPeriodMs else blinkPeriodMs) =
      if b₁.mclkHz = 32000000 then blinkPeriodMs else blinkFallbackPeriodMs := by
    rcases board.clock with ⟨rfl, clock⟩ | ⟨rfl, clock⟩
    all_goals
      rw [clock]
      rfl
  refine ⟨status, ?_⟩
  cases running with
  | true =>
    obtain ⟨rfl, same⟩ := h
    obtain ⟨rfl, rfl⟩ := Prod.mk.inj same
    refine ⟨?_, ?_, board.clocked, ⟨_, ?_, tick⟩, ?_⟩
    · simp [readsOf_append, unread, read]
    · rw [if_pos (runs.mp rfl), period]
    · simp [writesOf_append, noReload, unticked]
    · simp [writesOf_append, board.lit, dark]
  | false =>
    obtain ⟨_, rfl, rfl, same⟩ := h
    obtain ⟨rfl, rfl⟩ := Prod.mk.inj same
    refine ⟨?_, ?_, board.clocked, ⟨_, ?_, tick⟩, ?_⟩
    · simp [readsOf_append, unread, read]
    · rw [if_neg fun on => Bool.false_ne_true (runs.mpr on)]
    · simp [writesOf_append, noReload, unticked]
    · simp [writesOf_append, board.lit, dark, Board.redLed]

/-- On any hardware, SysTick ticks every millisecond, and the loop is reached
exactly if the watchdog runs (the LED is lit for ever if not). From then on, and
as long as the watchdog is fed, the LED toggles at the first look at the clock
after 500 ms if 32 MHz was selected, and after 125 ms if not. -/
theorem blink_tells_clock (h : (start b).Makes t (up, b')) :
    (∃ reload, writesOf (.systick .load) t = [reload] ∧
      (reload.toNat + 1) * 1000 = b'.mclkHz.toNat) ∧
    (∃ status, readsOf (.wwdt .wwdtstat) t = [status] ∧
      (up.isSome = true ↔ status &&& 0x1 = 0x1)) ∧
    writesOf (.gpio Board.gpioaBase .doutset) t = (if up.isSome then [] else [1]) ∧
    ∀ periodMs ∈ up, ∀ nowMs old tr s limit, limit ≤ 2 ^ 30 → ToggleLoop.Fed limit tr →
      (ToggleLoop.machine periodMs).Run ⟨nowMs, old, .start⟩ tr s →
      (b'.mclkHz = 32000000 ∧ periodMs = 500 ∨ b'.mclkHz = 4000000 ∧ periodMs = 125) ∧
      (∀ l r due, tr = l ++ .checked due :: r →
        (due = true ↔ periodMs.toNat ≤ ToggleLoop.sinceArmed l)) ∧
      ∀ l m r, tr = l ++ ToggleLoop.toggled :: (m ++ ToggleLoop.toggled :: r) →
        periodMs.toNat ≤ m.countP ToggleLoop.Event.isTick := by
  obtain ⟨status, read, running, clocked, tick, lit⟩ := start_makes h
  refine ⟨tick, ⟨status, read, ?_⟩, lit, ?_⟩
  · simp [running]
  · intro periodMs mem nowMs old tr s limit short fed run
    rw [running, Option.mem_ite_none_right, Option.mem_some_iff] at mem
    obtain ⟨-, rfl⟩ := mem
    have period : b'.mclkHz = 32000000 ∧
        (if b'.mclkHz = 32000000 then blinkPeriodMs else blinkFallbackPeriodMs) = 500 ∨
        b'.mclkHz = 4000000 ∧
        (if b'.mclkHz = 32000000 then blinkPeriodMs else blinkFallbackPeriodMs) = 125 := by
      rcases clocked with clock | clock
      · exact .inl ⟨clock, if_pos clock⟩
      · exact .inr ⟨clock, if_neg (by rw [clock]; decide)⟩
    generalize (if b'.mclkHz = 32000000 then blinkPeriodMs else blinkFallbackPeriodMs) = periodMs
      at run period ⊢
    refine ⟨period, ToggleLoop.toggles_paced ?_ ?_ short rfl run fed⟩
    · rcases period with ⟨-, rfl⟩ | ⟨-, rfl⟩ <;> decide
    · rcases period with ⟨-, rfl⟩ | ⟨-, rfl⟩ <;> decide

/-- 32 MHz at the first status, and a watchdog that runs. -/
def sampleAnswers : Stream' (BitVec 32) := fun n => if n = 4 then 1 else 0

theorem sampleAnswers_up : ((start RegmapDemo.atReset).run sampleAnswers).2.1.1 = some 500 := rfl

theorem atReset_blinks : ∃ t b', (start RegmapDemo.atReset).Makes t (some 500, b') := by
  have made := run_makes (start RegmapDemo.atReset) sampleAnswers
  rw [show ((start RegmapDemo.atReset).run sampleAnswers).2.1 = (some 500, _) from
    Prod.ext sampleAnswers_up rfl] at made
  exact ⟨_, _, made⟩

/-- A loop that is preempted by 500 ticks before each look at the clock. -/
def sampleTrace : List ToggleLoop.Event :=
  .armed :: (List.replicate 500 .tick ++ [.checked true] ++ ToggleLoop.toggled ::
    (.armed :: ToggleLoop.kicked :: .woke :: List.replicate 500 .tick ++ [.checked true] ++
      [ToggleLoop.toggled]))

/-- It toggles twice, and the clock wraps before it first does. -/
theorem sampleTrace_run : ∃ s, (ToggleLoop.machine 500).Run ⟨0xffffff00, 0, .start⟩ sampleTrace s ∧
    s.nowMs = 0x2e8 := by
  obtain ⟨s, _, run, shown⟩ := (ToggleLoop.machine 500).exec_shows ⟨0xffffff00, 0, .start⟩
    (.main :: (List.replicate 500 .tick ++ List.replicate 5 .main ++ List.replicate 500 .tick ++
      List.replicate 2 .main)) (fun reached => (reached.2, reached.1.nowMs)) (sampleTrace, 0x2e8)
    (by decide +kernel)
  obtain ⟨rfl, now⟩ := Prod.mk.inj shown
  exact ⟨s, run, now⟩

theorem blink_tells_clock_sample : ∃ t b' s,
    (start RegmapDemo.atReset).Makes t (some 500, b') ∧ b'.mclkHz = 32000000 ∧
    (ToggleLoop.machine 500).Run ⟨0xffffff00, 0, .start⟩ sampleTrace s ∧ s.nowMs = 0x2e8 ∧
    ∀ l m r, sampleTrace = l ++ ToggleLoop.toggled :: (m ++ ToggleLoop.toggled :: r) →
      500 ≤ m.countP ToggleLoop.Event.isTick := by
  obtain ⟨t, b', starts⟩ := atReset_blinks
  obtain ⟨s, run, now⟩ := sampleTrace_run
  obtain ⟨-, -, -, blinks⟩ := blink_tells_clock starts
  obtain ⟨⟨clock, -⟩ | ⟨-, slow⟩, -, paced⟩ := blinks 500 rfl 0xffffff00 0 sampleTrace s _
    (by decide +kernel) (ToggleLoop.fed_ticks sampleTrace) run
  · exact ⟨t, b', s, starts, clock, run, now, paced⟩
  · exact absurd slow (by decide)

end MspmBaremetal.Blink
