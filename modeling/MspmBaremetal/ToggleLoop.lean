import MspmBaremetal.Board
import MspmBaremetal.TraceClock
import MspmBaremetal.Transition

/-!
# The loop that toggles the LED

The main loop of `blink`, with which three other applications end, one access at
a time; a tick of SysTick may come between any two. However often the clock
wraps, the LED toggles at the first look at the clock after each period.
-/

namespace MspmBaremetal

namespace Timer

/-- `SysTick_Handler`, on `g_now_ms`. -/
def sysTickHandler (nowMs : BitVec 32) : BitVec 32 := nowMs + 1

/-- `hal_timer_deadline_reached`. -/
def deadlineReached (nowMs deadlineMs : BitVec 32) : Bool := nowMs - deadlineMs < 0x80000000

end Timer

namespace ToggleLoop

open TraceClock

/-- Where the loop is: before its first deadline, or at its next access. -/
inductive Position where
  | start
  | check
  | toggle
  | rearm
  | kick
  | wait
  deriving DecidableEq, Repr

structure State where
  nowMs : BitVec 32
  nextToggleMs : BitVec 32
  position : Position
  deriving DecidableEq, Repr

inductive Choice where
  | tick
  | main
  deriving DecidableEq, Repr

inductive Event where
  | tick
  | armed
  | checked (due : Bool)
  | accessed (a : Board.Access)
  | woke
  deriving DecidableEq, Repr

/-- The accesses of a program that reads nothing. -/
def accesses (program : Board.Program Unit) : List Event :=
  (program.run (Stream'.const 0)).1.map .accessed

/-- `arch_wait_for_interrupt` may return at any time. -/
def machine (periodMs : BitVec 32) : Machine State Choice Event where
  step s
    | .tick => some ({ s with nowMs := Timer.sysTickHandler s.nowMs }, [.tick])
    | .main =>
      match s.position with
      | .start => some ({ s with nextToggleMs := s.nowMs + periodMs, position := .check }, [.armed])
      | .check =>
        let due := Timer.deadlineReached s.nowMs s.nextToggleMs
        some ({ s with position := if due then .toggle else .kick }, [.checked due])
      | .toggle => some ({ s with position := .rearm }, accesses Board.ledRedToggle)
      | .rearm => some ({ s with nextToggleMs := s.nowMs + periodMs, position := .kick }, [.armed])
      | .kick => some ({ s with position := .wait }, accesses Board.wdtKick)
      | .wait => some ({ s with position := .check }, [.woke])

def Event.isTick (e : Event) : Bool := e == .tick

def Event.isArmed (e : Event) : Bool := e == .armed

/-- The clock was looked at, for the deadline or for a new one. -/
def Event.isLook : Event → Bool
  | .armed | .checked _ => true
  | _ => false

/-- The write that toggles the LED, and the one that restarts the watchdog. -/
def toggled : Event := .accessed (.write (.gpio Board.gpioaBase .douttgl) 0x1)

def kicked : Event := .accessed (.write (.wwdt .wwdtcntrst) 0x00A7)

def Event.isToggle (e : Event) : Bool := e == toggled

def Event.isKick (e : Event) : Bool := e == kicked

theorem accesses_ledRedToggle : accesses Board.ledRedToggle = [toggled] := rfl

theorem accesses_wdtKick : accesses Board.wdtKick = [kicked] := rfl

/-- The watchdog never waits longer than `limit` milliseconds. -/
def Fed (limit : Nat) (tr : List Event) : Prop :=
  ∀ l, l <+: tr → elapsed Event.isTick Event.isKick l ≤ limit

section Invariant

variable {periodMs : BitVec 32} {limit : Nat} {tr es : List Event} {s s' s₀ : State}

/-- The milliseconds since the deadline was set, since the clock was looked at,
since the last kick, and since the last toggle. -/
abbrev sinceArmed (tr : List Event) : Nat := elapsed Event.isTick Event.isArmed tr

abbrev sinceLook (tr : List Event) : Nat := elapsed Event.isTick Event.isLook tr

abbrev sinceKick (tr : List Event) : Nat := elapsed Event.isTick Event.isKick tr

abbrev sinceToggle (tr : List Event) : Nat := elapsed Event.isTick Event.isToggle tr

/-- The deadline is `periodMs` after it was set. -/
def Armed (periodMs : BitVec 32) (tr : List Event) (s : State) : Prop :=
  s.nowMs = s.nextToggleMs - periodMs + BitVec.ofNat 32 (sinceArmed tr) ∧
    sinceArmed tr ≤ sinceToggle tr

/-- The deadline had not passed at the last look. -/
def Pending (periodMs : BitVec 32) (tr : List Event) : Prop :=
  sinceArmed tr < periodMs.toNat + sinceLook tr

def Inv (periodMs : BitVec 32) (limit : Nat) (tr : List Event) (s : State) : Prop :=
  match s.position with
  | .start | .rearm => True
  | .toggle => Armed periodMs tr s ∧ periodMs.toNat ≤ sinceArmed tr
  | .kick => Armed periodMs tr s ∧ Pending periodMs tr ∧ sinceLook tr ≤ sinceKick tr
  | .wait | .check => Armed periodMs tr s ∧ Pending periodMs tr ∧ sinceLook tr ≤ limit + sinceKick tr

/-- A look at the clock tells whether the period is over. -/
theorem deadlineReached_iff (armed : Armed periodMs tr s) (small : periodMs.toNat ≤ 2 ^ 31)
    (soon : sinceArmed tr < periodMs.toNat + 2 ^ 31) :
    Timer.deadlineReached s.nowMs s.nextToggleMs = true ↔ periodMs.toNat ≤ sinceArmed tr := by
  have ahead : s.nowMs - s.nextToggleMs =
      BitVec.ofNat (31 + 1) (sinceArmed tr) - BitVec.ofNat (31 + 1) periodMs.toNat := by
    rw [armed.1, BitVec.ofNat_toNat, BitVec.setWidth_eq]
    grind
  rw [Timer.deadlineReached, decide_eq_true_iff, ahead]
  exact passed_iff soon (by omega)

theorem Armed.tick (armed : Armed periodMs tr s) :
    Armed periodMs (tr ++ [.tick]) { s with nowMs := Timer.sysTickHandler s.nowMs } := by
  obtain ⟨clock, spaced⟩ := armed
  simp only [Armed, sinceArmed, sinceToggle, elapsed_concat]
  refine ⟨?_, Nat.succ_le_succ spaced⟩
  change s.nowMs + 1 = _ + BitVec.ofNat 32 (sinceArmed tr + 1)
  rw [clock, BitVec.ofNat_add, BitVec.add_assoc]
  rfl

/-- An event that neither ticks nor marks leaves the deadline where it was. -/
theorem Armed.other (armed : Armed periodMs tr s) {e : Event} (noTick : e.isTick = false)
    (noDeadline : e.isArmed = false) (noToggle : e.isToggle = false) (next : Position) :
    Armed periodMs (tr ++ [e]) { s with position := next } := by
  simpa [Armed, noTick, noDeadline, noToggle] using armed

/-- A new deadline. -/
theorem Armed.new (tr : List Event) (s : State) (next : Position) :
    Armed periodMs (tr ++ [.armed]) { s with nextToggleMs := s.nowMs + periodMs, position := next } := by
  have reset : sinceArmed (tr ++ [.armed]) = 0 := by simp [Event.isArmed]
  constructor
  · rw [reset]
    exact (BitVec.add_zero _).symm ▸ (BitVec.add_sub_cancel ..).symm
  · rw [reset]
    exact Nat.zero_le _

theorem Inv.tick (inv : Inv periodMs limit tr s) :
    Inv periodMs limit (tr ++ [.tick]) { s with nowMs := Timer.sysTickHandler s.nowMs } := by
  have armed : sinceArmed (tr ++ [.tick]) = sinceArmed tr + 1 := by simp [Event.isTick, Event.isArmed]
  have look : sinceLook (tr ++ [.tick]) = sinceLook tr + 1 := by simp [Event.isTick, Event.isLook]
  have kick : sinceKick (tr ++ [.tick]) = sinceKick tr + 1 := by
    simp [Event.isTick, Event.isKick, kicked]
  unfold Inv Pending at *
  dsimp only at *
  cases here : s.position <;> simp only [here, armed, look, kick] at inv ⊢
  case toggle => exact ⟨inv.1.tick, by omega⟩
  all_goals exact ⟨inv.1.tick, by omega, by omega⟩

/-- A new deadline has not passed yet. -/
theorem Pending.new (positive : 0 < periodMs.toNat) (tr : List Event) :
    Pending periodMs (tr ++ [.armed]) ∧ sinceLook (tr ++ [.armed]) = 0 := by
  simpa [Pending, Event.isArmed, Event.isLook] using positive

/-- What the loop does next keeps the invariant, if the watchdog was fed. -/
theorem Inv.main (positive : 0 < periodMs.toNat) (small : periodMs.toNat ≤ 2 ^ 31)
    (short : limit ≤ 2 ^ 30) (inv : Inv periodMs limit tr s) (fed : sinceKick tr ≤ limit)
    (step : (machine periodMs).step s .main = some (s', es)) :
    Inv periodMs limit (tr ++ es) s' := by
  unfold Inv at inv
  cases here : s.position <;> simp only [machine, here, Option.some.injEq, Prod.mk.injEq] at step inv
  case start =>
    obtain ⟨rfl, rfl⟩ := step
    obtain ⟨pending, look⟩ := Pending.new positive tr
    exact ⟨.new tr s .check, pending, by rw [look]; exact Nat.zero_le _⟩
  case rearm =>
    obtain ⟨rfl, rfl⟩ := step
    obtain ⟨pending, look⟩ := Pending.new positive tr
    exact ⟨.new tr s .kick, pending, by rw [look]; exact Nat.zero_le _⟩
  case toggle =>
    obtain ⟨rfl, rfl⟩ := step
    trivial
  case check =>
    obtain ⟨armed, pending, looked⟩ := inv
    have soon : sinceArmed tr < periodMs.toNat + 2 ^ 31 := by
      unfold Pending at pending
      omega
    have reached := deadlineReached_iff armed small soon
    obtain ⟨rfl, rfl⟩ := step
    have same : sinceArmed (tr ++ [.checked (Timer.deadlineReached s.nowMs s.nextToggleMs)]) =
        sinceArmed tr := by simp [Event.isTick, Event.isArmed]
    cases due : Timer.deadlineReached s.nowMs s.nextToggleMs with
    | true =>
      rw [due] at same
      exact ⟨armed.other rfl rfl rfl .toggle, by rw [same]; exact reached.mp due⟩
    | false =>
      rw [due] at same reached
      refine ⟨armed.other rfl rfl rfl .kick, ?_, ?_⟩
      · have early := mt reached.mpr Bool.false_ne_true
        simp only [Pending, same, sinceLook, elapsed_concat]
        exact Nat.lt_of_not_le early
      · simp [Event.isLook]
  case kick =>
    obtain ⟨armed, pending, looked⟩ := inv
    rw [accesses_wdtKick] at step
    obtain ⟨rfl, rfl⟩ := step
    refine ⟨armed.other rfl rfl rfl .wait, ?_, ?_⟩
    · simpa [Pending, kicked, Event.isTick, Event.isArmed, Event.isLook] using pending
    · have restarted : sinceKick (tr ++ [kicked]) = 0 := by simp [Event.isKick]
      have look : sinceLook (tr ++ [kicked]) = sinceLook tr := by
        simp [Event.isTick, Event.isLook, kicked]
      rw [restarted, look]
      exact looked.trans fed
  case wait =>
    obtain ⟨armed, pending, looked⟩ := inv
    obtain ⟨rfl, rfl⟩ := step
    refine ⟨armed.other rfl rfl rfl .check, ?_, ?_⟩
    · simpa [Pending, Event.isTick, Event.isArmed, Event.isLook] using pending
    · simpa [Event.isTick, Event.isKick, Event.isLook, kicked] using looked

/-- No longer than the whole run. -/
theorem fed_ticks (tr : List Event) : Fed (tr.countP Event.isTick) tr := by
  intro l before
  rw [elapsed]
  refine ((List.takeWhile_sublist _).countP_le).trans ?_
  rw [List.countP_reverse]
  exact before.sublist.countP_le

theorem Fed.prefix {l : List Event} (fed : Fed limit tr) (before : l <+: tr) : Fed limit l :=
  fun k shorter => fed k (shorter.trans before)

theorem run_inv (positive : 0 < periodMs.toNat) (small : periodMs.toNat ≤ 2 ^ 31)
    (short : limit ≤ 2 ^ 30) (start : s₀.position = .start) (run : (machine periodMs).Run s₀ tr s)
    (fed : Fed limit tr) : Inv periodMs limit tr s := by
  revert fed
  apply run.invariant (P := fun tr s => Fed limit tr → Inv periodMs limit tr s)
  · intro _
    simp [Inv, start]
  · intro tr s choice es s' ih step fed
    have before := fed.prefix (List.prefix_append tr es)
    cases choice with
    | tick =>
      obtain ⟨rfl, rfl⟩ := Prod.mk.inj (Option.some.inj step)
      exact (ih before).tick
    | main => exact (ih before).main positive small short (before tr List.prefix_rfl) step

/-- Each step emits one event; only the loop looks at the clock and toggles. -/
theorem step_emits {choice : Choice} (step : (machine periodMs).step s choice = some (s', es)) :
    ∃ e, es = [e] ∧
      (∀ due, e = .checked due →
        s.position = .check ∧ due = Timer.deadlineReached s.nowMs s.nextToggleMs) ∧
      (e = toggled → s.position = .toggle) := by
  cases choice with
  | tick =>
    obtain ⟨-, rfl⟩ := Prod.mk.inj (Option.some.inj step)
    exact ⟨_, rfl, nofun, nofun⟩
  | main =>
    cases here : s.position <;>
      simp only [machine, here, accesses_ledRedToggle, accesses_wdtKick, Option.some.injEq,
        Prod.mk.injEq] at step
    all_goals obtain ⟨-, rfl⟩ := step
    case check =>
      refine ⟨_, rfl, ?_, nofun⟩
      rintro due same
      exact ⟨rfl, (Event.checked.inj same).symm⟩
    case toggle => exact ⟨_, rfl, nofun, fun _ => rfl⟩
    all_goals exact ⟨_, rfl, nofun, nofun⟩

/-- A step of a run, with the invariant before it. -/
theorem run_step (positive : 0 < periodMs.toNat) (small : periodMs.toNat ≤ 2 ^ 31)
    (short : limit ≤ 2 ^ 30) (start : s₀.position = .start) (run : (machine periodMs).Run s₀ tr s)
    (fed : Fed limit tr) {l r : List Event} {e : Event} (split : tr = l ++ e :: r) :
    ∃ t, Inv periodMs limit l t ∧ sinceKick l ≤ limit ∧
      (∀ due, e = .checked due →
        t.position = .check ∧ due = Timer.deadlineReached t.nowMs t.nextToggleMs) ∧
      (e = toggled → t.position = .toggle) := by
  obtain ⟨before, t, choice, es, _, within, rest, earlier, step, emitted, rfl⟩ := run.split split
  obtain ⟨e', rfl, looks, toggles⟩ := step_emits step
  obtain ⟨rfl, rfl⟩ := singleton_eq_split emitted
  rw [List.append_nil] at split ⊢
  have fed := fed.prefix (split ▸ List.prefix_append before (e :: r))
  exact ⟨t, run_inv positive small short start earlier fed, fed before List.prefix_rfl, looks, toggles⟩

/-- As long as the watchdog is kicked every 12 days, and however long the device
has run: a look at the clock finds the deadline passed exactly if the period is
over, and two toggles are never closer than the period. -/
theorem toggles_paced (positive : 0 < periodMs.toNat) (small : periodMs.toNat ≤ 2 ^ 31)
    (short : limit ≤ 2 ^ 30) (start : s₀.position = .start) (run : (machine periodMs).Run s₀ tr s)
    (fed : Fed limit tr) :
    (∀ l r due, tr = l ++ .checked due :: r → (due = true ↔ periodMs.toNat ≤ sinceArmed l)) ∧
      ∀ l m r, tr = l ++ toggled :: (m ++ toggled :: r) → periodMs.toNat ≤ m.countP Event.isTick := by
  constructor
  · intro l r due split
    obtain ⟨t, inv, fed, looks, -⟩ := run_step positive small short start run fed split
    obtain ⟨here, rfl⟩ := looks due rfl
    simp only [Inv, here] at inv
    obtain ⟨armed, pending, looked⟩ := inv
    apply deadlineReached_iff armed small
    unfold Pending at pending
    omega
  · intro l m r split
    rw [← List.cons_append, ← List.append_assoc] at split
    obtain ⟨t, inv, -, -, toggles⟩ := run_step positive small short start run fed split
    simp only [Inv, toggles rfl] at inv
    obtain ⟨⟨-, spaced⟩, passed⟩ := inv
    exact passed.trans (spaced.trans (elapsed_le _ _ l m (by simp [Event.isToggle])))

end Invariant

/-- Two toggles with a period of 2 ms, while the clock wraps. -/
example : ((machine 2).exec ⟨0xffffffff, 0, .start⟩
    [.main, .tick, .main, .main, .main, .tick, .main, .main, .main, .main, .main, .tick, .tick,
      .main, .main]).map Prod.snd =
    some [.armed, .tick, .checked false, kicked, .woke, .tick, .checked true, toggled, .armed, kicked,
      .woke, .tick, .tick, .checked true, toggled] := by
  decide

end ToggleLoop

end MspmBaremetal
