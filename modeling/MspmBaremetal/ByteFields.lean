import Mathlib.Data.List.Basic
import Mathlib.Tactic.Ring

/-!
# Fields of byte strings

Little-endian numbers in byte strings, slices of a byte string and the
replacement of one:

* `toNat_ofNat`, `ofNat_toNat`: numbers below `256 ^ n` and byte strings of
  length `n` correspond;
* `slice_patch_self`, `slice_patch_of_disjoint`: reading after a replacement;
* `bind_eq_ok`, `failIf_bind_eq_ok`: what a sequence of checks has accepted;
* `foldlM_ok`, `foldlM_first`, `mapM_eq_ok`: what a loop of such checks comes to.
-/

namespace ByteFields

abbrev Bytes := List (BitVec 8)

/-- The `n` low bytes of a number, lowest first. -/
def ofNat : Nat → Nat → Bytes
  | 0, _ => []
  | n + 1, v => BitVec.ofNat 8 v :: ofNat n (v / 256)

def toNat : Bytes → Nat
  | [] => 0
  | b :: bs => b.toNat + 256 * toNat bs

@[simp] theorem ofNat_length (n v : Nat) : (ofNat n v).length = n := by
  induction n generalizing v with
  | zero => rfl
  | succ n ih => simp [ofNat, ih]

theorem toNat_ofNat {n v : Nat} (fits : v < 256 ^ n) : toNat (ofNat n v) = v := by
  induction n generalizing v with
  | zero => exact (Nat.lt_one_iff.mp fits).symm
  | succ n ih =>
    have rest : v / 256 < 256 ^ n := by
      rw [pow_succ'] at fits
      exact Nat.div_lt_of_lt_mul fits
    rw [ofNat, toNat, ih rest, BitVec.toNat_ofNat]
    omega

theorem ofNat_toNat (bs : Bytes) : ofNat bs.length (toNat bs) = bs := by
  induction bs with
  | nil => rfl
  | cons b bs ih =>
    have low : BitVec.ofNat 8 (b.toNat + 256 * toNat bs) = b := by
      apply BitVec.eq_of_toNat_eq
      rw [BitVec.toNat_ofNat]
      have := b.isLt
      omega
    have high : (b.toNat + 256 * toNat bs) / 256 = toNat bs := by
      have := b.isLt
      omega
    rw [List.length_cons, toNat, ofNat, low, high, ih]

theorem toNat_lt (bs : Bytes) : toNat bs < 256 ^ bs.length := by
  induction bs with
  | nil => simp [toNat]
  | cons b bs ih =>
    have := b.isLt
    rw [toNat, List.length_cons, pow_succ']
    omega

section Slices

variable {α : Type*} {data : List α} {a n : Nat}

def slice (data : List α) (a n : Nat) : List α := (data.drop a).take n

/-- The string with the bytes from `a` on replaced. -/
def patch (data : List α) (a : Nat) (new : List α) : List α :=
  data.take a ++ new ++ data.drop (a + new.length)

theorem slice_length (fits : a + n ≤ data.length) : (slice data a n).length = n := by
  simp [slice]
  omega

theorem slice_append_drop (data : List α) (a n : Nat) :
    slice data a n ++ data.drop (a + n) = data.drop a := by
  rw [slice, ← List.drop_drop, List.take_append_drop]

theorem slice_getElem? (data : List α) (a n i : Nat) :
    (slice data a n)[i]? = if i < n then data[a + i]? else none := by
  rw [slice, List.getElem?_take, List.getElem?_drop]

theorem patch_length {new : List α} (fits : a + new.length ≤ data.length) :
    (patch data a new).length = data.length := by
  simp [patch]
  omega

theorem patch_getElem? {new : List α} (fits : a + new.length ≤ data.length) (i : Nat) :
    (patch data a new)[i]? =
      if a ≤ i ∧ i < a + new.length then new[i - a]? else data[i]? := by
  have taken : (data.take a).length = a := by simp; omega
  rw [patch, List.append_assoc]
  rcases Nat.lt_or_ge i a with before | after
  · rw [List.getElem?_append_left (by omega), List.getElem?_take, if_pos before,
      if_neg (by omega)]
  · rw [List.getElem?_append_right (by omega), taken]
    rcases Nat.lt_or_ge i (a + new.length) with inside | beyond
    · rw [List.getElem?_append_left (by omega), if_pos ⟨after, inside⟩]
    · rw [List.getElem?_append_right (by omega), List.getElem?_drop, if_neg (by omega)]
      congr 1
      omega

theorem slice_patch_self {new : List α} (fits : a + new.length ≤ data.length) :
    slice (patch data a new) a new.length = new := by
  apply List.ext_getElem?
  intro i
  rw [slice_getElem?]
  split
  next inside =>
    rw [patch_getElem? fits, if_pos ⟨by omega, by omega⟩, Nat.add_sub_cancel_left]
  next beyond => exact (List.getElem?_eq_none (by omega)).symm

/-- A slice that the replacement does not touch. -/
theorem slice_patch_of_disjoint {new : List α} (fits : a + new.length ≤ data.length) {b m : Nat}
    (apart : b + m ≤ a ∨ a + new.length ≤ b) : slice (patch data a new) b m = slice data b m := by
  apply List.ext_getElem?
  intro i
  rw [slice_getElem?, slice_getElem?]
  split
  · rw [patch_getElem? fits, if_neg (by omega)]
  · rfl

/-- Replacing bytes by themselves. -/
theorem patch_slice (fits : a + n ≤ data.length) : patch data a (slice data a n) = data := by
  rw [patch, slice_length fits, List.append_assoc, slice_append_drop, List.take_append_drop]

end Slices

section Checks

variable {ε : Type*} {α β : Type}

/-- A check that raises when its condition holds. -/
def failIf (bad : Prop) [Decidable bad] (message : ε) : Except ε Unit :=
  if bad then .error message else .ok ()

theorem failIf_eq_ok (bad : Prop) [Decidable bad] (message : ε) (u : Unit) :
    failIf bad message = .ok u ↔ ¬bad := by
  unfold failIf
  split <;> simp [*]

theorem pure_eq_ok (a b : α) : (pure a : Except ε α) = .ok b ↔ b = a := by
  simp [pure, Except.pure, eq_comm]

theorem bind_eq_ok (x : Except ε α) (f : α → Except ε β) (b : β) :
    (x >>= f) = .ok b ↔ ∃ a, x = .ok a ∧ f a = .ok b := by
  cases x with
  | error e => simp [bind, Except.bind]
  | ok a => simp [bind, Except.bind]

theorem check_bind_eq_ok (x : Except ε Unit) (f : Unit → Except ε β) (b : β) :
    (x >>= f) = .ok b ↔ x = .ok () ∧ f () = .ok b := by
  rw [bind_eq_ok]
  exact ⟨fun ⟨⟨⟩, checked, h⟩ => ⟨checked, h⟩, fun ⟨checked, h⟩ => ⟨(), checked, h⟩⟩

theorem failIf_bind_eq_ok (bad : Prop) [Decidable bad] (message : ε) (f : Unit → Except ε β)
    (b : β) : (failIf bad message >>= f) = .ok b ↔ ¬bad ∧ f () = .ok b := by
  rw [check_bind_eq_ok, failIf_eq_ok]

/-- A loop whose every turn can be made. -/
theorem foldlM_ok {f : β → α → Except ε β} {xs : List α} (turn : ∀ x ∈ xs, ∀ b, ∃ c, f b x = .ok c)
    (b : β) : ∃ c, xs.foldlM f b = .ok c := by
  induction xs generalizing b with
  | nil => exact ⟨b, rfl⟩
  | cons x xs ih =>
    obtain ⟨next, made⟩ := turn x List.mem_cons_self b
    rw [List.foldlM_cons, made]
    exact ih (fun y mem => turn y (List.mem_cons_of_mem x mem)) next

/-- Every turn of a loop that has ended was made. -/
theorem turn_of_foldlM {f : β → α → Except ε β} {xs : List α} {b c : β}
    (ended : xs.foldlM f b = .ok c) {x : α} (mem : x ∈ xs) : ∃ b' c', f b' x = .ok c' := by
  induction xs generalizing b with
  | nil => cases mem
  | cons y xs ih =>
    rw [List.foldlM_cons, bind_eq_ok] at ended
    obtain ⟨next, made, ended⟩ := ended
    rcases List.mem_cons.mp mem with rfl | later
    · exact ⟨b, next, made⟩
    · exact ih ended later

/-- A loop that keeps the first value it finds. -/
theorem foldlM_first {γ : Type} (kept : β → Option γ) {f : β → α → Except ε β}
    {found : α → Option γ} {xs : List α} (turn : ∀ x ∈ xs, ∀ b c, f b x = .ok c → kept c = (kept b).or (found x)) {b c : β}
    (ended : xs.foldlM f b = .ok c) : kept c = (kept b).or (xs.findSome? found) := by
  induction xs generalizing b with
  | nil =>
    cases ended
    exact (Option.or_none ..).symm
  | cons x xs ih =>
    rw [List.foldlM_cons, bind_eq_ok] at ended
    obtain ⟨next, made, ended⟩ := ended
    rw [ih (fun y mem => turn y (List.mem_cons_of_mem x mem)) ended,
      turn x List.mem_cons_self b next made, Option.or_assoc, List.findSome?_cons]
    cases found x <;> rfl

/-- A loop over a list whose elements determine their results. -/
theorem mapM_eq_ok {f : α → Except ε β} {g : α → β} {xs : List α} {ys : List β}
    (value : ∀ x ∈ xs, ∀ y, f x = .ok y → y = g x) :
    xs.mapM f = .ok ys ↔ (∀ x ∈ xs, f x = .ok (g x)) ∧ ys = xs.map g := by
  induction xs generalizing ys with
  | nil => simp [pure_eq_ok]
  | cons x xs ih =>
    simp only [List.mapM_cons, bind_eq_ok, pure_eq_ok, List.forall_mem_cons, List.map_cons,
      ih fun x mem => value x (List.mem_cons_of_mem _ mem)]
    constructor
    · rintro ⟨y, made, ys, ⟨rest, rfl⟩, rfl⟩
      obtain rfl := value x List.mem_cons_self y made
      exact ⟨⟨made, rest⟩, rfl⟩
    · rintro ⟨⟨made, rest⟩, rfl⟩
      exact ⟨_, made, _, ⟨rest, rfl⟩, rfl⟩

end Checks

end ByteFields
