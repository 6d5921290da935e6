import Mathlib.Algebra.Group.Nat.Defs
import Mathlib.Data.List.Induction

/-!
# Time along a trace

Some events of a trace are ticks of a clock. `elapsed` counts those since the
last mark, and `passed_iff` says when a counter that wraps around still tells
which of two moments is the later.
-/

namespace TraceClock

variable {α : Type*} (tick mark : α → Bool)

/-- The ticks after the last mark; all of them if there is none. -/
def elapsed (tr : List α) : Nat := (tr.reverse.takeWhile fun e => !mark e).countP tick

@[simp] theorem elapsed_nil : elapsed tick mark [] = 0 := rfl

@[simp] theorem elapsed_concat (tr : List α) (e : α) : elapsed tick mark (tr ++ [e]) =
    if mark e then 0 else elapsed tick mark tr + if tick e then 1 else 0 := by
  rw [elapsed, List.reverse_append, List.reverse_singleton, List.singleton_append,
    List.takeWhile_cons]
  cases mark e with
  | true => rfl
  | false => simp [elapsed, List.countP_cons]

/-- No more ticks than there were since any mark. -/
theorem elapsed_le (l r : List α) {e : α} (marked : mark e = true) :
    elapsed tick mark (l ++ e :: r) ≤ r.countP tick := by
  induction r using List.reverseRecOn with
  | nil => simp [marked]
  | append_singleton r f ih =>
    rw [← List.cons_append, ← List.append_assoc, elapsed_concat, List.countP_append,
      List.countP_singleton]
    split
    · exact Nat.zero_le _
    · exact Nat.add_le_add_right ih _

/-- Within half a turn of each other, two moments are told apart by the
difference of a counter of `w + 1` bits. -/
theorem passed_iff {w a t : Nat} (soon : t < a + 2 ^ w) (recent : a ≤ t + 2 ^ w) :
    (BitVec.ofNat (w + 1) t - BitVec.ofNat (w + 1) a).toNat < 2 ^ w ↔ a ≤ t := by
  have turn : 2 ^ (w + 1) = 2 ^ w + 2 ^ w := by rw [Nat.pow_succ, Nat.mul_two]
  have half : 0 < 2 ^ w := Nat.two_pow_pos w
  by_cases passed : a ≤ t
  · obtain ⟨d, rfl⟩ := Nat.exists_eq_add_of_le passed
    rw [BitVec.ofNat_add, BitVec.add_comm, BitVec.add_sub_cancel, BitVec.toNat_ofNat,
      Nat.mod_eq_of_lt (by omega)]
    exact iff_of_true (by omega) passed
  · obtain ⟨d, rfl⟩ := Nat.exists_eq_add_of_lt (Nat.lt_of_not_le passed)
    have behind : BitVec.ofNat (w + 1) t - BitVec.ofNat (w + 1) (t + d + 1) =
        -BitVec.ofNat (w + 1) (d + 1) := by
      rw [Nat.add_assoc, BitVec.ofNat_add, ← BitVec.sub_sub, BitVec.sub_self, BitVec.zero_sub]
    have small : d + 1 < 2 ^ (w + 1) := by omega
    rw [behind, BitVec.toNat_neg, BitVec.toNat_ofNat, Nat.mod_eq_of_lt small,
      Nat.mod_eq_of_lt (by omega)]
    exact iff_of_false (by omega) passed

end TraceClock
