import Mathlib.Data.BitVec
import Mathlib.Logic.Function.Iterate
import Mathlib.Data.List.Basic

/-!
# Reflected cyclic redundancy checks

Generic results about the bit-serial shift register of any width and any
polynomial with a nonzero constant term:

* `shift_xor`: one step is linear in exclusive or;
* `shift_injective`: no two registers step to the same one;
* `feed_eq_shift`: feeding at most `w` bits is xoring them in at once and then
  stepping;
* `feed_injective`: so they can be read back from the result, and two messages
  that differ only inside one window of `w` bits end in different registers
  (`feed_window_ne`).
-/

namespace MspmBaremetal.Crc

variable {w : Nat}

/-- One step of the register: shift out the low bit, and xor the polynomial in
when that bit was set. -/
def shift (poly crc : BitVec w) : BitVec w :=
  (crc >>> 1) ^^^ (if crc &&& 1#w ≠ 0#w then poly else 0#w)

/-- One message bit as a register. -/
def bit (b : Bool) : BitVec w := if b then 1#w else 0#w

/-- Feed message bits, first bit first. -/
def feed (poly : BitVec w) (crc : BitVec w) (bits : List Bool) : BitVec w :=
  bits.foldl (fun crc b => shift poly (crc ^^^ bit b)) crc

/-- Message bits as one register, first bit lowest. -/
def word : List Bool → BitVec w
  | [] => 0#w
  | b :: bits => bit b ^^^ (word bits <<< 1)

/-- The bits of a byte, low bit first. -/
def byteBits (byte : BitVec 8) : List Bool :=
  (List.range 8).map byte.getLsbD

theorem and_one_ne_zero (crc : BitVec w) : crc &&& 1#w ≠ 0#w ↔ crc.getLsbD 0 = true := by
  have h : crc &&& 1#w = BitVec.setWidth w (BitVec.ofBool (crc.getLsbD 0)) :=
    BitVec.and_one_eq_setWidth_ofBool_getLsbD
  rw [h]
  cases hb : crc.getLsbD 0
  · simp
  · have hw : 0 < w := by
      apply Nat.pos_of_ne_zero
      intro hz
      subst hz
      simp at hb
    simp only [BitVec.ofBool_true, ne_eq, iff_true]
    intro hz
    have one := congrArg (BitVec.getLsbD · 0) hz
    simp [hw] at one

theorem shift_getLsbD (poly crc : BitVec w) (i : Nat) :
    (shift poly crc).getLsbD i = (crc.getLsbD (i + 1) ^^ (crc.getLsbD 0 && poly.getLsbD i)) := by
  unfold shift
  by_cases h : crc &&& 1#w ≠ 0#w
  · have hb := (and_one_ne_zero crc).mp h
    simp [h, hb, Nat.add_comm]
  · have hb : crc.getLsbD 0 = false := by
      simpa using mt (and_one_ne_zero crc).mpr h
    simp [h, hb, Nat.add_comm]

theorem shift_xor (poly a b : BitVec w) :
    shift poly (a ^^^ b) = shift poly a ^^^ shift poly b := by
  apply BitVec.eq_of_getLsbD_eq
  intro i _
  simp only [shift_getLsbD, BitVec.getLsbD_xor]
  cases a.getLsbD 0 <;> cases b.getLsbD 0 <;> cases a.getLsbD (i + 1) <;>
    cases b.getLsbD (i + 1) <;> cases poly.getLsbD i <;> rfl

/-- A register that steps to zero is zero: its low bit shows in the top bit of
the result, the others are shifted. -/
theorem shift_eq_zero {poly : BitVec w} (top : poly.getLsbD (w - 1) = true) {crc : BitVec w}
    (h : shift poly crc = 0#w) : crc = 0#w := by
  have bits (i : Nat) : (crc.getLsbD (i + 1) ^^ (crc.getLsbD 0 && poly.getLsbD i)) = false := by
    rw [← shift_getLsbD, h]
    exact BitVec.getLsbD_zero
  have low : crc.getLsbD 0 = false := by
    have := bits (w - 1)
    rw [BitVec.getLsbD_of_ge crc (w - 1 + 1) (by omega), top] at this
    simpa using this
  apply BitVec.eq_of_getLsbD_eq
  intro i _
  rw [BitVec.getLsbD_zero]
  cases i with
  | zero => exact low
  | succ i => simpa [low] using bits i

theorem shift_injective {poly : BitVec w} (top : poly.getLsbD (w - 1) = true) :
    Function.Injective (shift poly) := by
  intro a b h
  have zero : shift poly (a ^^^ b) = 0#w := by rw [shift_xor, h, BitVec.xor_self]
  exact BitVec.xor_eq_zero_iff.mp (shift_eq_zero top zero)

/-- A register whose top bit is clear is one step away from its left shift. -/
theorem shift_shiftLeft (poly x : BitVec w) (clear : x.getLsbD (w - 1) = false) :
    shift poly (x <<< 1) = x := by
  apply BitVec.eq_of_getLsbD_eq
  intro i hi
  rw [shift_getLsbD]
  have low : (x <<< 1).getLsbD 0 = false := by simp
  by_cases last : i + 1 < w
  · rw [low, Bool.false_and, Bool.xor_false, BitVec.getLsbD_shiftLeft]
    simp [last]
  · have : i = w - 1 := by omega
    subst this
    simp [low, clear, show ¬ w - 1 + 1 < w by omega]

theorem bit_getLsbD (b : Bool) (i : Nat) :
    (bit b : BitVec w).getLsbD i = (decide (i < w) && (decide (i = 0) && b)) := by
  cases b
  · simp [bit]
  · unfold bit
    cases i <;> simp [BitVec.getLsbD_one]

theorem word_getLsbD (bits : List Bool) (i : Nat) :
    (word bits : BitVec w).getLsbD i = (decide (i < w) && bits.getD i false) := by
  induction bits generalizing i with
  | nil => simp [word]
  | cons b bits ih =>
    rw [word, BitVec.getLsbD_xor, bit_getLsbD, BitVec.getLsbD_shiftLeft, ih]
    cases i with
    | zero => simp
    | succ i =>
      by_cases hi : i + 1 < w
      · simp [hi, show i < w by omega]
      · simp [hi]

theorem word_byteBits (byte : BitVec 8) :
    (word (byteBits byte) : BitVec w) = byte.setWidth w := by
  apply BitVec.eq_of_getLsbD_eq
  intro i hi
  rw [word_getLsbD, BitVec.getLsbD_setWidth]
  by_cases low : i < 8
  · simp [byteBits, List.getD_eq_getElem?_getD, low]
  · simp [byteBits, List.getD_eq_getElem?_getD, low, BitVec.getLsbD_of_ge byte i (by omega)]

/-- Feeding at most `w` bits xors them in at once and then steps as often. -/
theorem feed_eq_shift (poly crc : BitVec w) {bits : List Bool} (fits : bits.length ≤ w) :
    feed poly crc bits = (shift poly)^[bits.length] (crc ^^^ word bits) := by
  induction bits generalizing crc with
  | nil => simp [feed, word]
  | cons b bits ih =>
    rw [List.length_cons] at fits
    have clear : (word bits : BitVec w).getLsbD (w - 1) = false := by
      rw [word_getLsbD, List.getD_eq_getElem?_getD, List.getElem?_eq_none (by omega)]
      simp
    have step : feed poly crc (b :: bits) = feed poly (shift poly (crc ^^^ bit b)) bits := rfl
    rw [step, ih _ (by omega), List.length_cons, Function.iterate_succ, Function.comp_apply, word,
      ← BitVec.xor_assoc, shift_xor _ (crc ^^^ bit b), shift_shiftLeft _ _ clear]

theorem feed_append (poly crc : BitVec w) (a b : List Bool) :
    feed poly crc (a ++ b) = feed poly (feed poly crc a) b := List.foldl_append

/-- The same message from different registers ends in different registers. -/
theorem feed_crc_injective {poly : BitVec w} (top : poly.getLsbD (w - 1) = true)
    (bits : List Bool) : Function.Injective (feed poly · bits) := by
  intro a b h
  induction bits generalizing a b with
  | nil => exact h
  | cons c bits ih =>
    exact (BitVec.xor_left_inj _).mp (shift_injective top (ih h))

/-- At most `w` bits can be read back from the register they lead to. -/
theorem feed_injective {poly : BitVec w} (top : poly.getLsbD (w - 1) = true) (crc : BitVec w)
    {a b : List Bool} (same : a.length = b.length) (fits : a.length ≤ w)
    (h : feed poly crc a = feed poly crc b) : a = b := by
  rw [feed_eq_shift poly crc fits, feed_eq_shift poly crc (same ▸ fits), same] at h
  have words := (BitVec.xor_right_inj crc).mp ((shift_injective top).iterate _ h)
  apply List.ext_getElem same
  intro i ha hb
  have bits := congrArg (BitVec.getLsbD · i) words
  simp only [word_getLsbD, List.getD_eq_getElem?_getD, show i < w by omega] at bits
  simpa [ha, hb] using bits

/-- Two messages that differ only inside one window of at most `w` bits end in
different registers. -/
theorem feed_window_ne {poly : BitVec w} (top : poly.getLsbD (w - 1) = true) (crc : BitVec w)
    (pre post : List Bool) {a b : List Bool} (same : a.length = b.length) (fits : a.length ≤ w)
    (ne : a ≠ b) : feed poly crc (pre ++ a ++ post) ≠ feed poly crc (pre ++ b ++ post) := by
  intro h
  simp only [feed_append] at h
  exact ne (feed_injective top _ same fits (feed_crc_injective top post h))

/-- The messages differ at most within `n` consecutive bits. -/
def Within (n : Nat) (x y : List Bool) : Prop :=
  ∃ pre a b post, x = pre ++ a ++ post ∧ y = pre ++ b ++ post ∧ a.length = b.length ∧ a.length ≤ n

theorem Within.under {n : Nat} {x y : List Bool} (h : Within n x y) (front : List Bool) :
    Within n (front ++ x) (front ++ y) := by
  obtain ⟨pre, a, b, post, rfl, rfl, same, fits⟩ := h
  exact ⟨front ++ pre, a, b, post, by simp, by simp, same, fits⟩

theorem within_head {n : Nat} {a b : List Bool} (same : a.length = b.length) (fits : a.length ≤ n)
    (post : List Bool) : Within n (a ++ post) (b ++ post) :=
  ⟨[], a, b, post, rfl, rfl, same, fits⟩

/-- A burst no longer than the register is seen in it. -/
theorem Within.feed_ne {poly : BitVec w} (top : poly.getLsbD (w - 1) = true) (crc : BitVec w)
    {x y : List Bool} (h : Within w x y) (ne : x ≠ y) : feed poly crc x ≠ feed poly crc y := by
  obtain ⟨pre, a, b, post, rfl, rfl, same, fits⟩ := h
  exact feed_window_ne top crc pre post same fits fun window => ne (by rw [window])

/-! ## Bytes -/

/-- Feed a byte: xor it in, then step eight times. -/
def feedByte (poly crc : BitVec w) (byte : BitVec 8) : BitVec w :=
  (shift poly)^[8] (crc ^^^ byte.setWidth w)

theorem feedByte_eq_feed (poly crc : BitVec w) (byte : BitVec 8) (hw : 8 ≤ w) :
    feedByte poly crc byte = feed poly crc (byteBits byte) := by
  have length : (byteBits byte).length = 8 := by simp [byteBits]
  rw [feedByte, feed_eq_shift poly crc (by omega), length, word_byteBits]

theorem foldl_feedByte (poly crc : BitVec w) (bytes : List (BitVec 8)) (hw : 8 ≤ w) :
    bytes.foldl (feedByte poly) crc = feed poly crc (bytes.flatMap byteBits) := by
  induction bytes generalizing crc with
  | nil => rfl
  | cons byte bytes ih =>
    rw [List.foldl_cons, List.flatMap_cons, feed_append, ih, feedByte_eq_feed _ _ _ hw]

theorem byteBits_injective : Function.Injective byteBits := by
  intro a b h
  have words := congrArg (word (w := 8)) h
  simpa only [word_byteBits, BitVec.setWidth_eq] using words

theorem bits_length (bytes : List (BitVec 8)) :
    (bytes.flatMap byteBits).length = 8 * bytes.length := by
  induction bytes with
  | nil => rfl
  | cons byte bytes ih =>
    rw [List.flatMap_cons, List.length_append, ih, List.length_cons]
    simp [byteBits]
    omega

theorem bits_injective : Function.Injective (List.flatMap byteBits) := by
  intro a
  induction a with
  | nil =>
    intro b h
    have := congrArg List.length h
    rw [bits_length, bits_length] at this
    exact (List.length_eq_zero_iff.mp (by simpa using this.symm)).symm
  | cons x a ih =>
    intro b h
    cases b with
    | nil =>
      have := congrArg List.length h
      rw [bits_length, bits_length] at this
      simp at this
    | cons y b =>
      have heads : (byteBits x).length = (byteBits y).length := by simp [byteBits]
      obtain ⟨hx, ha⟩ := List.append_inj h heads
      rw [byteBits_injective hx, ih ha]

/-- Two byte messages that differ only inside a window of at most `w` bits have
different checks. -/
theorem bytes_window_ne {poly : BitVec w} (top : poly.getLsbD (w - 1) = true) (hw : 8 ≤ w)
    (crc : BitVec w) (pre post : List (BitVec 8)) {a b : List (BitVec 8)}
    (same : a.length = b.length) (fits : 8 * a.length ≤ w) (ne : a ≠ b) :
    (pre ++ a ++ post).foldl (feedByte poly) crc ≠ (pre ++ b ++ post).foldl (feedByte poly) crc := by
  simp only [foldl_feedByte _ _ _ hw, List.flatMap_append]
  apply feed_window_ne top crc
  · rw [bits_length, bits_length, same]
  · rwa [bits_length]
  · exact fun h => ne (bits_injective h)

end MspmBaremetal.Crc
