import Mathlib.Data.Int.Basic
import Mathlib.Data.List.Basic
import Mathlib.Logic.Function.Basic
import Mathlib.Tactic.Ring

/-!
# Sparse memories

Memories that hold a byte at some addresses, and the strings of bytes that are
stored into them one after another:

* `store_apply`: what a memory holds after a string was stored;
* `storeAll_apply`, `storeAll_of_last`: of several strings the last one that
  holds an address counts.
-/

namespace SparseMemory

variable {β : Type*}

abbrev Memory (β : Type*) := Int → Option β

def empty : Memory β := fun _ => none

/-- The memory of a device whose unwritten bytes read as `blank`. -/
def erasedTo (blank : β) (m : Memory β) (x : Int) : β := (m x).getD blank

/-- Writes consecutive bytes from an address on. -/
def store (m : Memory β) (a : Int) : List β → Memory β
  | [] => m
  | b :: bs => store (Function.update m a (some b)) (a + 1) bs

/-- Bytes and the address of the first of them. -/
structure Chunk (β : Type*) where
  address : Int
  bytes : List β

/-- The byte that a chunk holds at an address. -/
def Chunk.byteAt (c : Chunk β) (x : Int) : Option β :=
  if c.address ≤ x then c.bytes[(x - c.address).toNat]? else none

def storeAll (m : Memory β) (chunks : List (Chunk β)) : Memory β :=
  chunks.foldl (fun m c => store m c.address c.bytes) m

theorem Chunk.byteAt_of_le {c : Chunk β} {x : Int} (le : c.address ≤ x) :
    c.byteAt x = c.bytes[(x - c.address).toNat]? := if_pos le

theorem Chunk.byteAt_of_lt {c : Chunk β} {x : Int} (lt : x < c.address) : c.byteAt x = none :=
  if_neg (Int.not_le.mpr lt)

theorem Chunk.byteAt_add (a : Int) (bytes : List β) (i : Nat) :
    Chunk.byteAt ⟨a, bytes⟩ (a + i) = bytes[i]? := by
  rw [Chunk.byteAt_of_le (Int.le_add_of_nonneg_right (Int.natCast_nonneg i)), add_sub_cancel_left,
    Int.toNat_natCast]

theorem Chunk.byteAt_isSome {c : Chunk β} {x : Int} :
    (c.byteAt x).isSome ↔ c.address ≤ x ∧ x < c.address + c.bytes.length := by
  rcases lt_or_ge x c.address with below | above
  · rw [Chunk.byteAt_of_lt below]
    simp only [Option.isSome_none, Bool.false_eq_true, false_iff]
    omega
  · rw [Chunk.byteAt_of_le above, isSome_getElem?]
    omega

theorem Chunk.byteAt_cons (a x : Int) (b : β) (bs : List β) :
    Chunk.byteAt ⟨a, b :: bs⟩ x = if x = a then some b else Chunk.byteAt ⟨a + 1, bs⟩ x := by
  simp only [Chunk.byteAt]
  rcases lt_trichotomy x a with below | rfl | above
  · rw [if_neg (by omega), if_neg (by omega), if_neg (by omega)]
  · simp
  · rw [if_pos (by omega), if_neg (by omega), if_pos (by omega),
      show (x - a).toNat = (x - (a + 1)).toNat + 1 by omega, List.getElem?_cons_succ]

/-- A stored chunk counts where it holds a byte. -/
theorem store_apply (m : Memory β) (a : Int) (bytes : List β) (x : Int) :
    store m a bytes x = (Chunk.byteAt ⟨a, bytes⟩ x).or (m x) := by
  induction bytes generalizing m a with
  | nil => simp [store, Chunk.byteAt]
  | cons b bs ih =>
    rw [store, ih, Chunk.byteAt_cons, Function.update_apply]
    by_cases here : x = a
    · have above : Chunk.byteAt ⟨a + 1, bs⟩ x = none := by
        exact Chunk.byteAt_of_lt (by dsimp only; omega)
      rw [if_pos here, if_pos here, above]
      rfl
    · rw [if_neg here, if_neg here]

/-- Of several chunks the last one that holds an address counts. -/
theorem storeAll_apply (m : Memory β) (chunks : List (Chunk β)) (x : Int) :
    storeAll m chunks x = (chunks.reverse.findSome? (·.byteAt x)).or (m x) := by
  induction chunks generalizing m with
  | nil => rfl
  | cons c cs ih =>
    have last : ([c].findSome? (·.byteAt x)) = c.byteAt x := by
      rw [List.findSome?_cons]
      cases c.byteAt x <;> rfl
    rw [storeAll, List.foldl_cons, ← storeAll, ih, store_apply, List.reverse_cons,
      List.findSome?_append, last, Option.or_assoc]

/-- A chunk counts where no later one holds a byte. -/
theorem storeAll_of_last (m : Memory β) {before after : List (Chunk β)} {c : Chunk β} {x : Int} {b : β}
    (here : c.byteAt x = some b) (later : ∀ d ∈ after, d.byteAt x = none) :
    storeAll m (before ++ c :: after) x = some b := by
  have none : after.reverse.findSome? (·.byteAt x) = none :=
    List.findSome?_eq_none_iff.mpr fun d mem => later d (List.mem_reverse.mp mem)
  rw [storeAll_apply, List.reverse_append, List.reverse_cons, List.append_assoc,
    List.findSome?_append, none, Option.none_or, List.singleton_append, List.findSome?_cons, here]
  rfl

end SparseMemory
