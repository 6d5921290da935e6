import MspmBaremetal.RegisterBank

/-!
# The clock of `hal_clock`

`hal_clock_init` asks for 32 MHz, waits a bounded time for it and falls back to
4 MHz. The barriers are left out.
-/

namespace MspmBaremetal.Clock

open RegisterProgram

/-- The registers of SYSCTL that `hal_clock` touches. -/
inductive Register where
  | sysosccfg
  | mclkcfg
  | clkstatus
  deriving DecidableEq, Repr

abbrev Program := RegisterProgram Register (BitVec 32)

section Constants

def safeHz : BitVec 32 := 4000000
def maxHz : BitVec 32 := 32000000
def statusPolls : Nat := 4096

def sysosccfgDisable : BitVec 32 := 0x400
def sysosccfgFreq : BitVec 32 := 0x3
def sysosccfgFreqBase : BitVec 32 := 0x0
def sysosccfgFreq4M : BitVec 32 := 0x1
def mclkcfgUsehsclk : BitVec 32 := 0x10000
def mclkcfgUselfclk : BitVec 32 := 0x100000
def mclkcfgMdiv : BitVec 32 := 0xf
def clkstatusSysoscfreq : BitVec 32 := 0x3
def clkstatusSysosc32M : BitVec 32 := 0x0
def clkstatusSysosc4M : BitVec 32 := 0x1
def clkstatusHsclkmux : BitVec 32 := 0x10
def clkstatusCurmclksel : BitVec 32 := 0x20000

end Constants

/-- `hal_clock_select_sysosc_div1`. -/
def selectSysoscDiv1 : Program Unit := do
  let sysoscConfig ← load .sysosccfg
  store .sysosccfg (sysoscConfig &&& ~~~sysosccfgDisable)
  let mclkConfig ← load .mclkcfg
  store .mclkcfg (mclkConfig &&& ~~~(mclkcfgUsehsclk ||| mclkcfgUselfclk ||| mclkcfgMdiv))

/-- SYSOSC is ready at the frequency and selected. -/
def ready (statusFrequency status : BitVec 32) : Bool :=
  status &&& clkstatusSysoscfreq == statusFrequency &&
    status &&& (clkstatusHsclkmux ||| clkstatusCurmclksel) == 0

/-- `hal_clock_set_sysosc_frequency`. -/
def setSysoscFrequency (configFrequency statusFrequency : BitVec 32) : Program Bool := do
  let sysoscConfig ← load .sysosccfg
  store .sysosccfg (sysoscConfig &&& ~~~sysosccfgFreq ||| configFrequency)
  let polled ← poll (await .clkstatus (ready statusFrequency)) statusPolls ()
  pure polled.isLeft

/-- `hal_clock_init`, with the `g_mclk_hz` it leaves. -/
def init (requestedHz : BitVec 32) : Program (Bool × BitVec 32) := do
  selectSysoscDiv1
  let selected ←
    if requestedHz = maxHz then setSysoscFrequency sysosccfgFreqBase clkstatusSysosc32M
    else pure false
  if selected then pure (true, maxHz)
  else do
    let _ ← setSysoscFrequency sysosccfgFreq4M clkstatusSysosc4M
    pure (false, safeHz)

/-- Only `CLKSTATUS` changes by itself. -/
def isStatus : Register → Bool
  | .clkstatus => true
  | _ => false

section Bank

variable (bank : Register → BitVec 32) (statuses : Stream' (BitVec 32))

/-- The bank after the frequency field of `SYSOSCCFG` was set. -/
def tuned (configFrequency : BitVec 32) : Register → BitVec 32 :=
  Function.update bank .sysosccfg (bank .sysosccfg &&& ~~~sysosccfgFreq ||| configFrequency)

theorem setSysoscFrequency_onBank (configFrequency statusFrequency : BitVec 32) :
    ∃ t selected rest,
      (setSysoscFrequency configFrequency statusFrequency).onBank isStatus bank statuses =
        (t, selected, tuned bank configFrequency, rest) ∧
      (selected = true ↔ ∃ k < statusPolls, ready statusFrequency (statuses.get k) = true) := by
  obtain ⟨t, polled, rest, ran, passed⟩ := poll_onBank (show isStatus .clkstatus = true from rfl)
    (ready statusFrequency) statusPolls (tuned bank configFrequency) statuses
  have tail : (poll (await .clkstatus (ready statusFrequency)) statusPolls () >>= fun polled =>
      pure polled.isLeft).onBank isStatus (tuned bank configFrequency) statuses =
        (t ++ [], polled.isLeft, tuned bank configFrequency, rest) := by
    rw [onBank_bind, ran]
    rfl
  exact ⟨_, _, _, congrArg (fun out => (.read .sysosccfg (bank .sysosccfg) ::
    .write .sysosccfg (bank .sysosccfg &&& ~~~sysosccfgFreq ||| configFrequency) :: out.1, out.2))
    tail, passed⟩

/-- The bank after `hal_clock_select_sysosc_div1`. -/
def divided : Register → BitVec 32 :=
  Function.update (Function.update bank .sysosccfg (bank .sysosccfg &&& ~~~sysosccfgDisable))
    .mclkcfg (bank .mclkcfg &&& ~~~(mclkcfgUsehsclk ||| mclkcfgUselfclk ||| mclkcfgMdiv))

theorem selectSysoscDiv1_onBank : ∃ t, selectSysoscDiv1.onBank isStatus bank statuses =
    (t, (), divided bank, statuses) := ⟨_, rfl⟩

theorem cleared_twice (x a b c : BitVec 32) :
    (x &&& ~~~a) &&& ~~~b ||| c = x &&& ~~~(a ||| b) ||| c := by
  rw [BitVec.and_assoc, BitVec.not_or]

theorem set_again (x b c : BitVec 32) : (x &&& ~~~b ||| 0) &&& ~~~b ||| c = x &&& ~~~b ||| c := by
  rw [show (0 : BitVec 32) = 0#32 from rfl, BitVec.or_zero, BitVec.and_assoc, BitVec.and_self]

/-- On every hardware: 32 MHz is selected exactly if it was asked for and one of
the first 4096 statuses shows it, and nothing but the selection changes. -/
theorem init_selects (requestedHz : BitVec 32) : ∃ t selected mclkHz bank' rest,
    (init requestedHz).onBank isStatus bank statuses = (t, (selected, mclkHz), bank', rest) ∧
    (selected = true ↔
      requestedHz = maxHz ∧ ∃ k < statusPolls, ready clkstatusSysosc32M (statuses.get k) = true) ∧
    mclkHz = (if selected then maxHz else safeHz) ∧
    bank' .sysosccfg = bank .sysosccfg &&& ~~~(sysosccfgDisable ||| sysosccfgFreq) |||
      (if selected then sysosccfgFreqBase else sysosccfgFreq4M) ∧
    bank' .mclkcfg =
      bank .mclkcfg &&& ~~~(mclkcfgUsehsclk ||| mclkcfgUselfclk ||| mclkcfgMdiv) := by
  obtain ⟨t, ran⟩ := selectSysoscDiv1_onBank bank statuses
  have sysosc : divided bank .sysosccfg = bank .sysosccfg &&& ~~~sysosccfgDisable := rfl
  have whole : (init requestedHz).onBank isStatus bank statuses = _ := onBank_bind isStatus _ _ _ _
  rw [ran] at whole
  dsimp only at whole
  by_cases requested : requestedHz = maxHz
  · obtain ⟨t₁, selected, rest, ran₁, passed⟩ := setSysoscFrequency_onBank (divided bank) statuses
      sysosccfgFreqBase clkstatusSysosc32M
    rw [if_pos requested, onBank_bind, ran₁] at whole
    cases selected with
    | true =>
      refine ⟨_, _, _, _, _, whole, by simpa [requested] using passed, rfl, ?_, rfl⟩
      change tuned (divided bank) sysosccfgFreqBase .sysosccfg = _
      rw [tuned, Function.update_self, sysosc, cleared_twice]
      rfl
    | false =>
      obtain ⟨t₂, _, rest₂, ran₂, -⟩ := setSysoscFrequency_onBank
        (tuned (divided bank) sysosccfgFreqBase) rest sysosccfgFreq4M clkstatusSysosc4M
      dsimp only at whole
      rw [if_neg Bool.false_ne_true, onBank_bind, ran₂] at whole
      refine ⟨_, _, _, _, _, whole, by simpa [requested] using passed, rfl, ?_, rfl⟩
      change tuned (tuned (divided bank) sysosccfgFreqBase) sysosccfgFreq4M .sysosccfg = _
      rw [tuned, tuned, Function.update_self, Function.update_self, sysosc, sysosccfgFreqBase,
        set_again, cleared_twice]
      rfl
  · obtain ⟨t₁, _, rest, ran₁, -⟩ := setSysoscFrequency_onBank (divided bank) statuses
      sysosccfgFreq4M clkstatusSysosc4M
    rw [if_neg requested, onBank_bind, onBank_pure] at whole
    dsimp only at whole
    rw [if_neg Bool.false_ne_true, onBank_bind, ran₁] at whole
    refine ⟨_, _, _, _, _, whole, by simp [requested], rfl, ?_, rfl⟩
    change tuned (divided bank) sysosccfgFreq4M .sysosccfg = _
    rw [tuned, Function.update_self, sysosc, cleared_twice]
    rfl

end Bank

end MspmBaremetal.Clock
