import Mathlib.Data.Nat.ModEq
import Mathlib.Data.List.Basic
import Mathlib.Logic.Function.Basic

/-!
# Rings with free-running masked indices

Generic results about a slot array of power-of-two capacity indexed by two
words that only ever advance and wrap at their width:

* `isPowerOfTwo_iff`: the `v & (v - 1)` test accepts exactly the powers of two;
* `slot_eq_mod`: masking an index is reducing it modulo the capacity, also
  after the index has wrapped;
* `Holds`: the slots from the read index up to the write index are a list;
* `Holds.full_iff`, `Holds.empty_iff`: what the difference of the two indices
  says about that list;
* `Holds.store`, `Holds.push`, `Holds.pop`: what a slot store and each index
  advance do to it.
-/

namespace MspmBaremetal

variable {w : Nat} {α : Type*}

/-- The test `value != 0 && (value & (value - 1)) == 0`. -/
def isPowerOfTwo (value : BitVec w) : Bool :=
  value != 0 && (value &&& (value - 1)) == 0

theorem sub_one_toNat {value : BitVec w} (h : value.toNat ≠ 0) :
    (value - 1).toNat = value.toNat - 1 := by
  have hlt := value.isLt
  have two : 1 < 2 ^ w := by omega
  have hone : (1 : BitVec w).toNat = 1 := by
    rw [BitVec.ofNat_eq_ofNat, BitVec.toNat_ofNat]
    exact Nat.mod_eq_of_lt two
  rw [BitVec.toNat_sub, hone, show 2 ^ w - 1 + value.toNat = 2 ^ w + (value.toNat - 1) by omega,
    Nat.add_mod_left, Nat.mod_eq_of_lt (by omega)]

theorem isPowerOfTwo_iff (value : BitVec w) :
    isPowerOfTwo value = true ↔ ∃ k, k < w ∧ value.toNat = 2 ^ k := by
  have pow2 := Nat.ne_zero_and_sub_one_eq_zero_iff_isPowerOfTwo (n := value.toNat)
  have zero : value = 0 ↔ value.toNat = 0 := by simp [← BitVec.toNat_inj]
  have test : isPowerOfTwo value = true ↔ value.toNat.isPowerOfTwo := by
    simp only [isPowerOfTwo, Bool.and_eq_true, bne_iff_ne, ne_eq, beq_iff_eq, ← pow2, zero]
    refine and_congr_right fun h => ?_
    rw [← BitVec.toNat_inj, BitVec.toNat_and, sub_one_toNat h]
    simp
  rw [test]
  constructor
  · rintro ⟨k, hk⟩
    exact ⟨k, (Nat.pow_lt_pow_iff_right (by decide)).mp (hk ▸ value.isLt), hk⟩
  · rintro ⟨k, -, hk⟩
    exact ⟨k, hk⟩

/-- The slot an index names: `index & (capacity - 1)`. -/
def slot (capacity index : BitVec w) : Nat := (index &&& (capacity - 1)).toNat

theorem slot_eq_mod {capacity : BitVec w} (hc : isPowerOfTwo capacity = true) (index : BitVec w) :
    slot capacity index = index.toNat % capacity.toNat := by
  obtain ⟨k, hk, hcap⟩ := (isPowerOfTwo_iff capacity).mp hc
  have hne : capacity.toNat ≠ 0 := by rw [hcap]; exact (Nat.two_pow_pos k).ne'
  rw [slot, BitVec.toNat_and, sub_one_toNat hne, hcap, Nat.and_two_pow_sub_one_eq_mod]

/-- Advancing an index by `n` advances its slot by `n`, through any wrap. -/
theorem slot_add {capacity : BitVec w} (hc : isPowerOfTwo capacity = true) (index : BitVec w)
    (n : Nat) :
    slot capacity (index + BitVec.ofNat w n) = (index.toNat + n) % capacity.toNat := by
  obtain ⟨k, hk, hcap⟩ := (isPowerOfTwo_iff capacity).mp hc
  have hdvd : capacity.toNat ∣ 2 ^ w := hcap ▸ Nat.pow_dvd_pow 2 (Nat.le_of_lt hk)
  rw [slot_eq_mod hc, BitVec.toNat_add, BitVec.toNat_ofNat, Nat.mod_mod_of_dvd _ hdvd,
    Nat.add_mod, Nat.mod_mod_of_dvd _ hdvd, ← Nat.add_mod]

theorem slot_add_ne {capacity : BitVec w} (hc : isPowerOfTwo capacity = true) (index : BitVec w)
    {i j : Nat} (hij : i < j) (hj : j < i + capacity.toNat) :
    slot capacity (index + BitVec.ofNat w i) ≠ slot capacity (index + BitVec.ofNat w j) := by
  rw [slot_add hc, slot_add hc]
  intro heq
  have hdvd := (Nat.modEq_iff_dvd' (by omega)).mp heq
  rw [Nat.add_sub_add_left] at hdvd
  have := Nat.le_of_dvd (by omega) hdvd
  omega

/-- The `q.length` slots from index `read` up to index `write` hold `q`. -/
structure Holds (capacity : BitVec w) (slots : Nat → α) (read write : BitVec w) (q : List α) :
    Prop where
  ends : write = read + BitVec.ofNat w q.length
  fits : q.length ≤ capacity.toNat
  content : ∀ i (h : i < q.length), slots (slot capacity (read + BitVec.ofNat w i)) = q[i]

namespace Holds

variable {capacity read write : BitVec w} {slots : Nat → α} {q : List α} {a : α}

theorem nil (capacity : BitVec w) (slots : Nat → α) (index : BitVec w) :
    Holds capacity slots index index [] :=
  ⟨by simp, by simp, by simp⟩

theorem length_eq (h : Holds capacity slots read write q) : (write - read).toNat = q.length := by
  have hlt : q.length < 2 ^ w := Nat.lt_of_le_of_lt h.fits capacity.isLt
  rw [h.ends, BitVec.add_comm, BitVec.add_sub_cancel, BitVec.toNat_ofNat, Nat.mod_eq_of_lt hlt]

theorem full_iff (h : Holds capacity slots read write q) :
    write - read = capacity ↔ q.length = capacity.toNat := by
  rw [← BitVec.toNat_inj, h.length_eq]

theorem ge_iff (h : Holds capacity slots read write q) :
    capacity ≤ write - read ↔ q.length = capacity.toNat := by
  rw [BitVec.le_def, h.length_eq]
  have := h.fits
  omega

theorem empty_iff (h : Holds capacity slots read write q) : read = write ↔ q = [] := by
  rw [← List.length_eq_zero_iff, ← h.length_eq]
  constructor
  · rintro rfl; simp
  · intro hz
    have : write - read = 0 := by simpa [← BitVec.toNat_inj] using hz
    rw [← BitVec.sub_add_cancel write read, this]
    simp

/-- With room left, the slot at the write index is none of the held ones. -/
theorem write_slot_ne (h : Holds capacity slots read write q) (hc : isPowerOfTwo capacity = true)
    (room : q.length < capacity.toNat) {i : Nat} (hi : i < q.length) :
    slot capacity (read + BitVec.ofNat w i) ≠ slot capacity write := by
  rw [h.ends]
  exact slot_add_ne hc read hi (by omega)

theorem store (h : Holds capacity slots read write q) (hc : isPowerOfTwo capacity = true)
    (room : q.length < capacity.toNat) (a : α) :
    Holds capacity (Function.update slots (slot capacity write) a) read write q where
  ends := h.ends
  fits := h.fits
  content i hi := by
    rw [Function.update_of_ne (h.write_slot_ne hc room hi)]
    exact h.content i hi

theorem push (h : Holds capacity slots read write q) (room : q.length < capacity.toNat)
    (stored : slots (slot capacity write) = a) :
    Holds capacity slots read (write + 1) (q ++ [a]) where
  ends := by
    rw [h.ends, BitVec.add_assoc, List.length_append, List.length_singleton, BitVec.ofNat_add]
    rfl
  fits := by rw [List.length_append, List.length_singleton]; omega
  content i hi := by
    rw [List.length_append, List.length_singleton] at hi
    by_cases last : i = q.length
    · subst last
      simpa [← h.ends] using stored
    · rw [List.getElem_append_left (by omega)]
      exact h.content i (by omega)

theorem front (h : Holds capacity slots read write (a :: q)) :
    slots (slot capacity read) = a := by
  have := h.content 0 (by simp)
  simp only [List.getElem_cons_zero] at this
  simpa using this

theorem pop (h : Holds capacity slots read write (a :: q)) :
    Holds capacity slots (read + 1) write q where
  ends := by
    rw [h.ends, BitVec.add_assoc, List.length_cons, Nat.add_comm, BitVec.ofNat_add]
    rfl
  fits := Nat.le_trans (by simp) h.fits
  content i hi := by
    have := h.content (i + 1) (by simpa using hi)
    have next : read + BitVec.ofNat w (i + 1) = read + 1 + BitVec.ofNat w i := by
      rw [Nat.add_comm, BitVec.ofNat_add, ← BitVec.add_assoc]
      rfl
    rwa [List.getElem_cons_succ, next] at this

end Holds

end MspmBaremetal
