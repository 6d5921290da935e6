import MspmBaremetal.RegisterProgram
import Mathlib.Logic.Function.Basic

/-!
# Programs over a memory

A memory answers a read with what was last written there. Results about any
program that runs on one, and about copies made one element at a time:

* `onMemory_final`: what an address holds in the end;
* `onMemory_read`: a program that never reads what it has written reads the
  memory it began with;
* `makes_copies`, `readsFirst_copies`: an order of copies never reads what it
  has written if no destination is a later source;
* `copies_final`: such copies move all elements at once;
* `countUp_eq`, `countDown_eq`: the two counting loops visit the words below
  their bound in increasing and in decreasing order.
-/

namespace RegisterProgram

universe u

variable {ρ ι : Type*} {β α γ : Type u}

/-- Executes a program on a memory. -/
def onMemory [DecidableEq ρ] :
    RegisterProgram ρ β α → (ρ → β) → List (Access ρ β) × α × (ρ → β)
  | .ret a, m => ([], a, m)
  | .write r v p, m =>
    let (trace, out) := p.onMemory (Function.update m r v)
    (.write r v :: trace, out)
  | .read r k, m =>
    let (trace, out) := (k (m r)).onMemory m
    (.read r (m r) :: trace, out)

/-- No address is read after it was written. -/
def ReadsFirst (trace : List (Access ρ β)) : Prop :=
  trace.Pairwise fun a b => ∀ r v w, a = .write r v → b ≠ .read r w

section Memory

variable [DecidableEq ρ]

theorem onMemory_makes (p : RegisterProgram ρ β α) (m : ρ → β) :
    p.Makes (p.onMemory m).1 (p.onMemory m).2.1 := by
  induction p generalizing m with
  | ret a => exact ⟨rfl, rfl⟩
  | write r v p ih => exact ⟨_, rfl, ih _⟩
  | read r k ih => exact ⟨_, _, rfl, ih _ m⟩

theorem onMemory_bind (p : RegisterProgram ρ β α) (f : α → RegisterProgram ρ β γ) (m : ρ → β) :
    (p >>= f).onMemory m =
      ((p.onMemory m).1 ++ ((f (p.onMemory m).2.1).onMemory (p.onMemory m).2.2).1,
        ((f (p.onMemory m).2.1).onMemory (p.onMemory m).2.2).2) := by
  change (p.bind f).onMemory m = _
  induction p generalizing m with
  | ret a => rfl
  | write r v p ih => simp only [bind, onMemory, ih, List.cons_append]
  | read r k ih => simp only [bind, onMemory, ih, List.cons_append]

/-- An address holds `v` in the end if nothing else is written there and `v`
is, or was there before. -/
theorem onMemory_final (p : RegisterProgram ρ β α) (m : ρ → β) {r : ρ} {v : β}
    (only : ∀ w, .write r w ∈ (p.onMemory m).1 → w = v)
    (some : m r = v ∨ .write r v ∈ (p.onMemory m).1) : (p.onMemory m).2.2 r = v := by
  induction p generalizing m with
  | ret a => simpa [onMemory] using some
  | write r' v' p ih =>
    apply ih
    · intro w mem
      exact only w (List.mem_cons_of_mem _ mem)
    · by_cases same : r = r'
      · subst same
        left
        rw [Function.update_self]
        exact only v' List.mem_cons_self
      · simpa [onMemory, Function.update_of_ne same, same] using some
  | read r' k ih =>
    apply ih
    · intro w mem
      exact only w (List.mem_cons_of_mem _ mem)
    · simpa [onMemory] using some

theorem onMemory_frame (p : RegisterProgram ρ β α) (m : ρ → β) {r : ρ}
    (unwritten : ∀ w, .write r w ∉ (p.onMemory m).1) : (p.onMemory m).2.2 r = m r :=
  onMemory_final p m (fun w mem => absurd mem (unwritten w)) (.inl rfl)

@[simp] theorem onMemory_load_bind (r : ρ) (f : β → RegisterProgram ρ β γ) (m : ρ → β) :
    (load r >>= f).onMemory m =
      (.read r (m r) :: ((f (m r)).onMemory m).1, ((f (m r)).onMemory m).2) := rfl

@[simp] theorem onMemory_pure (a : α) (m : ρ → β) :
    (pure a : RegisterProgram ρ β α).onMemory m = ([], a, m) := rfl

/-- A program that never reads what it has written reads the memory it began with. -/
theorem onMemory_read (p : RegisterProgram ρ β α) (m : ρ → β) {r : ρ} {v : β}
    (first : ReadsFirst (p.onMemory m).1) (mem : .read r v ∈ (p.onMemory m).1) : v = m r := by
  induction p generalizing m with
  | ret a => simp [onMemory] at mem
  | write r' v' p ih =>
    obtain ⟨later, first⟩ := List.pairwise_cons.mp first
    have mem : .read r v ∈ (p.onMemory (Function.update m r' v')).1 := by
      simpa [onMemory] using mem
    have other : r ≠ r' := by
      rintro rfl
      exact later _ mem r v' v rfl rfl
    rw [ih _ first mem, Function.update_of_ne other]
  | read r' k ih =>
    obtain ⟨-, first⟩ := List.pairwise_cons.mp first
    rcases List.mem_cons.mp mem with now | mem
    · cases now
      rfl
    · exact ih _ m first mem

end Memory

/-! ## Copies -/

section Copies

variable (destination source : ι → ρ)

def copyOne (i : ι) : RegisterProgram ρ β PUnit := do
  let v ← load (source i)
  store (destination i) v

/-- The accesses of one copy. -/
def copied (c : ι × β) : List (Access ρ β) :=
  [.read (source c.1) c.2, .write (destination c.1) c.2]

theorem makes_copies (is : List ι) (t : List (Access ρ β)) (u : PUnit) :
    Makes (is.forM (copyOne destination source)) t u ↔ ∃ values : List β,
      values.length = is.length ∧ t = (is.zip values).flatMap (copied destination source) := by
  induction is generalizing t with
  | nil => simp [List.forM, makes_pure]
  | cons i is ih =>
    change Makes (copyOne destination source i >>= fun _ => is.forM _) t u ↔ _
    simp only [copyOne, makes_bind, makes_load, makes_store, ih]
    constructor
    · rintro ⟨_, _, _, rfl, ⟨_, v, _, rfl, rfl, rfl⟩, values, length, rfl⟩
      exact ⟨v :: values, by simp [length], rfl⟩
    · rintro ⟨values, length, rfl⟩
      obtain ⟨v, values, rfl⟩ := List.exists_cons_of_length_eq_add_one length
      exact ⟨_, ⟨⟩, _, rfl, ⟨_, v, _, rfl, rfl, rfl⟩, values, by simpa using length, rfl⟩

variable {destination source} {is : List ι} {t : List (Access ρ β)} {u : PUnit}

@[simp] theorem write_mem_copied {c : ι × β} {r : ρ} {v : β} :
    .write r v ∈ copied destination source c ↔ r = destination c.1 ∧ v = c.2 := by
  simp [copied]

@[simp] theorem read_mem_copied {c : ι × β} {r : ρ} {v : β} :
    .read r v ∈ copied destination source c ↔ r = source c.1 ∧ v = c.2 := by
  simp [copied]

theorem mem_copies {r : ρ} {v : β} (h : Makes (is.forM (copyOne destination source)) t u)
    (mem : .write r v ∈ t) : ∃ i ∈ is, r = destination i ∧ .read (source i) v ∈ t := by
  obtain ⟨values, -, rfl⟩ := (makes_copies ..).mp h
  obtain ⟨⟨i, w⟩, paired, here⟩ := List.mem_flatMap.mp mem
  obtain ⟨rfl, rfl⟩ := write_mem_copied.mp here
  exact ⟨i, (List.of_mem_zip paired).1, rfl, List.mem_flatMap.mpr ⟨(i, v), paired, by simp⟩⟩

theorem copies_write {i : ι} (h : Makes (is.forM (copyOne destination source)) t u) (mem : i ∈ is) :
    ∃ v, .write (destination i) v ∈ t := by
  obtain ⟨values, length, rfl⟩ := (makes_copies ..).mp h
  rw [← List.map_fst_zip (Nat.le_of_eq length.symm), List.mem_map] at mem
  obtain ⟨⟨i, v⟩, paired, rfl⟩ := mem
  exact ⟨v, List.mem_flatMap.mpr ⟨(i, v), paired, by simp⟩⟩

theorem readsFirst_copies (h : Makes (is.forM (copyOne destination source)) t u) :
    ReadsFirst t ↔ is.Pairwise fun i j => destination i ≠ source j := by
  obtain ⟨values, length, rfl⟩ := (makes_copies ..).mp h
  conv_rhs => rw [← List.map_fst_zip (Nat.le_of_eq length.symm), List.pairwise_map]
  rw [ReadsFirst, List.pairwise_flatMap]
  constructor
  · rintro ⟨-, later⟩
    apply later.imp
    intro c d apart same
    exact apart (.write (destination c.1) c.2) (by simp) (.read (source d.1) d.2) (by simp)
      _ _ _ rfl (by rw [same])
  · intro later
    constructor
    · intro c _
      simp [copied]
    · apply later.imp
      intro c d apart a left b right r v w write read
      subst write read
      exact apart ((write_mem_copied.mp left).1.symm.trans (read_mem_copied.mp right).1)

/-- Copies that never read what they have written move all elements at once. -/
theorem copies_final [DecidableEq ρ] {p : RegisterProgram ρ β α} {m : ρ → β}
    (h : Makes (is.forM (copyOne destination source)) (p.onMemory m).1 u)
    (apart : is.Pairwise fun i j => destination i ≠ source j)
    (injective : ∀ i ∈ is, ∀ j ∈ is, destination i = destination j → i = j) :
    (∀ i ∈ is, (p.onMemory m).2.2 (destination i) = m (source i)) ∧
      ∀ r, (∀ i ∈ is, destination i ≠ r) → (p.onMemory m).2.2 r = m r := by
  have first := (readsFirst_copies h).mpr apart
  constructor
  · intro i mem
    have only : ∀ w, .write (destination i) w ∈ (p.onMemory m).1 → w = m (source i) := by
      intro w written
      obtain ⟨j, mem', same, read⟩ := mem_copies h written
      obtain rfl := injective i mem j mem' same
      exact onMemory_read p m first read
    obtain ⟨v, written⟩ := copies_write h mem
    obtain rfl := only v written
    exact onMemory_final p m only (.inr written)
  · intro r outside
    apply onMemory_frame
    intro w written
    obtain ⟨i, mem, rfl, -⟩ := mem_copies h written
    exact outside i mem rfl

theorem copies_cons [DecidableEq ρ] (i : ι) (is : List ι) (m : ρ → β) :
    (((i :: is).forM (copyOne destination source)).onMemory m).2.2 =
      ((is.forM (copyOne destination source)).onMemory
        (Function.update m (destination i) (m (source i)))).2.2 := rfl

/-- Copies in a memory that holds one value everywhere change nothing. -/
theorem copies_const [DecidableEq ρ] (is : List ι) (v : β) :
    ((is.forM (copyOne destination source)).onMemory fun _ => v).2.2 = fun _ => v := by
  induction is with
  | nil => rfl
  | cons i is ih =>
    rw [copies_cons, Function.update_eq_self (destination i) fun _ => v]
    exact ih

end Copies

/-! ## Counting loops -/

section Loops

variable {w : Nat}

theorem toNat_succ {index length : BitVec w} (below : index < length) :
    (index + 1).toNat = index.toNat + 1 := by
  have fits := length.isLt
  have below := BitVec.lt_def.mp below
  rw [BitVec.toNat_add, BitVec.ofNat_eq_ofNat, BitVec.toNat_ofNat, Nat.add_mod_mod]
  exact Nat.mod_eq_of_lt (Nat.lt_of_le_of_lt below fits)

theorem toNat_pred {length : BitVec w} (some : length ≠ 0) :
    length.toNat = (length - 1).toNat + 1 := by
  have fits := length.isLt
  have positive : length.toNat ≠ 0 := BitVec.toNat_ne.mp some
  have one : (1 : BitVec w).toNat = 1 :=
    Nat.mod_eq_of_lt (Nat.lt_of_le_of_lt (Nat.one_le_iff_ne_zero.mpr positive) fits)
  rw [BitVec.toNat_sub_of_le, one]
  · omega
  · rw [BitVec.le_def, one]
    omega

variable (body : BitVec w → RegisterProgram ρ β PUnit)

/-- `for (; index < length; ++index)`. -/
def countUp (length index : BitVec w) : RegisterProgram ρ β PUnit :=
  if below : index < length then do
    body index
    countUp length (index + 1)
  else pure ⟨⟩
termination_by length.toNat - index.toNat
decreasing_by
  rw [toNat_succ below]
  have := BitVec.lt_def.mp below
  omega

/-- `while (length != 0) { --length; … }`. -/
def countDown (length : BitVec w) : RegisterProgram ρ β PUnit :=
  if some : length ≠ 0 then do
    body (length - 1)
    countDown (length - 1)
  else pure ⟨⟩
termination_by length.toNat
decreasing_by
  rw [toNat_pred some]
  omega

/-- The words from a word up to a bound, in increasing order. -/
def wordsFrom (length index : BitVec w) : List (BitVec w) :=
  (List.range' index.toNat (length.toNat - index.toNat)).map (BitVec.ofNat w)

theorem wordsFrom_of_lt {index length : BitVec w} (below : index < length) :
    wordsFrom length index = index :: wordsFrom length (index + 1) := by
  have some := BitVec.lt_def.mp below
  rw [wordsFrom, wordsFrom, toNat_succ below, show length.toNat - index.toNat =
    length.toNat - (index.toNat + 1) + 1 by omega, List.range'_succ, List.map_cons,
    BitVec.ofNat_toNat, BitVec.setWidth_eq]

theorem wordsFrom_of_not_lt {index length : BitVec w} (done : ¬index < length) :
    wordsFrom length index = [] := by
  have := mt BitVec.lt_def.mpr done
  rw [wordsFrom, show length.toNat - index.toNat = 0 by omega]
  rfl

theorem wordsFrom_pred {length : BitVec w} (some : length ≠ 0) :
    wordsFrom length 0 = wordsFrom (length - 1) 0 ++ [length - 1] := by
  simp only [wordsFrom, toNat_pred some, BitVec.ofNat_eq_ofNat, BitVec.toNat_zero, Nat.sub_zero,
    List.range'_concat, List.map_append, List.map_cons, List.map_nil, Nat.one_mul, Nat.zero_add]
  rw [BitVec.ofNat_toNat, BitVec.setWidth_eq]

theorem mem_wordsFrom {length index i : BitVec w} :
    i ∈ wordsFrom length index ↔ index ≤ i ∧ i < length := by
  rw [wordsFrom, List.mem_map, BitVec.le_def, BitVec.lt_def]
  constructor
  · rintro ⟨n, within, rfl⟩
    rw [List.mem_range'_1] at within
    have fits := length.isLt
    rw [BitVec.toNat_ofNat, Nat.mod_eq_of_lt (by omega)]
    omega
  · rintro ⟨least, below⟩
    refine ⟨i.toNat, ?_, by rw [BitVec.ofNat_toNat, BitVec.setWidth_eq]⟩
    rw [List.mem_range'_1]
    omega

theorem mem_wordsFrom_zero {length i : BitVec w} : i ∈ wordsFrom length 0 ↔ i < length := by
  rw [mem_wordsFrom, BitVec.le_def]
  simp

/-- The earlier of two words in the list is the smaller one. -/
theorem wordsFrom_pairwise {R : BitVec w → BitVec w → Prop} {length index : BitVec w} :
    (wordsFrom length index).Pairwise R ↔ ∀ i j, index ≤ i → i < j → j < length → R i j := by
  induction index using countUp.induct length with
  | case1 index below ih =>
    have next : ∀ i, index + 1 ≤ i ↔ index < i := by
      intro i
      rw [BitVec.le_def, toNat_succ below, BitVec.lt_def]
      exact Nat.succ_le_iff
    rw [wordsFrom_of_lt below, List.pairwise_cons, ih]
    constructor
    · rintro ⟨first, later⟩ i j least less within
      by_cases here : i = index
      · subst here
        exact first j (mem_wordsFrom.mpr ⟨(next j).mpr less, within⟩)
      · exact later i j ((next i).mpr (BitVec.lt_of_le_ne least (Ne.symm here))) less within
    · intro every
      constructor
      · intro j mem
        obtain ⟨least, within⟩ := mem_wordsFrom.mp mem
        exact every index j (BitVec.le_refl _) ((next j).mp least) within
      · intro i j least less within
        exact every i j (BitVec.le_of_lt ((next i).mp least)) less within
  | case2 index done =>
    rw [wordsFrom_of_not_lt done]
    simp only [List.Pairwise.nil, true_iff]
    intro i j least less within
    exact absurd (Nat.lt_of_le_of_lt least (BitVec.lt_trans less within)) done

theorem countUp_eq (length index : BitVec w) :
    countUp body length index = (wordsFrom length index).forM body := by
  induction index using countUp.induct length with
  | case1 index below ih =>
    rw [countUp, dif_pos below, ih, wordsFrom_of_lt below]
    rfl
  | case2 index done =>
    rw [countUp, dif_neg done, wordsFrom_of_not_lt done]
    rfl

theorem countDown_eq (length : BitVec w) :
    countDown body length = (wordsFrom length 0).reverse.forM body := by
  induction length using countDown.induct with
  | case1 length some ih =>
    rw [countDown, dif_pos some, ih, wordsFrom_pred some, List.reverse_concat]
    rfl
  | case2 length none =>
    obtain rfl := not_not.mp none
    rw [countDown, dif_neg none, wordsFrom_of_not_lt (by simp)]
    rfl

end Loops

end RegisterProgram
