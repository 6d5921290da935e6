import MspmBaremetal.Uart
import Mathlib.Data.Rat.Floor
import Mathlib.Tactic.Linarith
import Mathlib.Tactic.Positivity

/-!
# The UART baud divisor

`hal_uart_baud_divisor` truncates twice. `roundTwice_eq` says that this rounds
once, to the nearest number of sixty-fourths of the oversampled clock.
-/

namespace MspmBaremetal.Uart

/-- The divisor in sixty-fourths, rounded to nearest. -/
def nearestDivisor (clockHz baudRate : Nat) : Int :=
  ⌊(4 * clockHz / baudRate + 1 / 2 : ℚ)⌋

/-- `scaled_divisor`. -/
def scaledDivisor (clockHz baudRate : BitVec 32) : BitVec 64 :=
  (clockHz.setWidth 64 * 8 / baudRate.setWidth 64 + 1) / 2

/-- Truncating eight times the quotient and halving it after adding one rounds
four times the quotient. -/
theorem roundTwice_eq (clockHz baudRate : Nat) :
    (((clockHz * 8 / baudRate + 1) / 2 : Nat) : Int) = nearestDivisor clockHz baudRate := by
  have halves : (4 * clockHz / baudRate + 1 / 2 : ℚ) =
      ((clockHz * 8 : Nat) / (baudRate : ℚ) + 1) / (2 : Nat) := by
    push_cast
    ring
  rw [nearestDivisor, halves, Int.floor_div_natCast, Int.floor_add_one,
    Rat.floor_natCast_div_natCast]
  push_cast
  rfl

section Words

variable (clockHz baudRate : BitVec 32)

/-- No step of the 64-bit computation wraps. -/
structure NoOverflow : Prop where
  product : (clockHz.setWidth 64 * 8 : BitVec 64).toNat = clockHz.toNat * 8
  quotient : (clockHz.setWidth 64 * 8 / baudRate.setWidth 64 : BitVec 64).toNat =
    clockHz.toNat * 8 / baudRate.toNat
  sum : (clockHz.setWidth 64 * 8 / baudRate.setWidth 64 + 1 : BitVec 64).toNat =
    clockHz.toNat * 8 / baudRate.toNat + 1
  divisor : ∀ divisor, baudDivisor clockHz baudRate = some divisor →
    divisor.toNat = (scaledDivisor clockHz baudRate).toNat

theorem baudDivisor_eq_some {clockHz baudRate divisor : BitVec 32} (baud : baudRate ≠ 0) :
    baudDivisor clockHz baudRate = some divisor ↔
      (64 ≤ (scaledDivisor clockHz baudRate).toNat ∧
        (scaledDivisor clockHz baudRate).toNat ≤ 0x3FFFFF) ∧
      divisor = (scaledDivisor clockHz baudRate).setWidth 32 := by
  have range : (scaledDivisor clockHz baudRate < 64 ∨ scaledDivisor clockHz baudRate > 0x003fffff) ↔
      ¬(64 ≤ (scaledDivisor clockHz baudRate).toNat ∧
        (scaledDivisor clockHz baudRate).toNat ≤ 0x3FFFFF) := by
    rw [gt_iff_lt, BitVec.lt_def, BitVec.lt_def, show (64 : BitVec 64).toNat = 64 from rfl,
      show (0x003fffff : BitVec 64).toNat = 0x3FFFFF from rfl]
    omega
  change (if baudRate = 0 then none
    else if scaledDivisor clockHz baudRate < 64 ∨ scaledDivisor clockHz baudRate > 0x003fffff then none
    else some ((scaledDivisor clockHz baudRate).setWidth 32)) = _ ↔ _
  rw [if_neg baud]
  split
  next outside => simp [range.mp outside]
  next inside =>
    rw [range, not_not] at inside
    simp [inside, eq_comm]

theorem noOverflow : NoOverflow clockHz baudRate := by
  have clock := clockHz.isLt
  have product : (clockHz.setWidth 64 * 8 : BitVec 64).toNat = clockHz.toNat * 8 := by
    rw [BitVec.toNat_mul, BitVec.toNat_setWidth, show (8 : BitVec 64).toNat = 8 from rfl]
    omega
  have quotient : (clockHz.setWidth 64 * 8 / baudRate.setWidth 64 : BitVec 64).toNat =
      clockHz.toNat * 8 / baudRate.toNat := by
    rw [BitVec.toNat_udiv, product, BitVec.toNat_setWidth,
      Nat.mod_eq_of_lt (lt_trans baudRate.isLt (by decide))]
  have small : clockHz.toNat * 8 / baudRate.toNat ≤ clockHz.toNat * 8 := Nat.div_le_self _ _
  refine ⟨product, quotient, ?_, ?_⟩
  · rw [BitVec.toNat_add, quotient, show (1 : BitVec 64).toNat = 1 from rfl]
    omega
  · intro divisor accepted
    by_cases baud : baudRate = 0
    · simp [baudDivisor, baud] at accepted
    · obtain ⟨⟨-, most⟩, rfl⟩ := (baudDivisor_eq_some baud).mp accepted
      rw [BitVec.toNat_setWidth]
      omega

theorem scaledDivisor_toNat :
    ((scaledDivisor clockHz baudRate).toNat : Int) =
      nearestDivisor clockHz.toNat baudRate.toNat := by
  rw [scaledDivisor, BitVec.toNat_udiv, (noOverflow clockHz baudRate).sum, ← roundTwice_eq]
  rfl

end Words

/-- What `hal_uart0_tx_init` puts into IBRD and FBRD. -/
theorem txInit_divisor {config : TxConfig} {queue : Option Ringbuf} {before r : Registers}
    (h : txInit (some config) queue before = some r) :
    ∃ divisor, baudDivisor config.clockHz config.baudRate = some divisor ∧
      r.ibrd = divisor / 64 ∧ r.fbrd = divisor &&& 63 := by
  simp only [txInit, Option.bind_eq_bind, Option.bind_some, Option.bind_eq_some_iff] at h
  obtain ⟨queue, -, h⟩ := h
  split at h
  · cases h
  · obtain ⟨divisor, accepted, set⟩ := Option.bind_eq_some_iff.mp h
    cases set
    exact ⟨divisor, accepted, rfl, rfl⟩

end MspmBaremetal.Uart
