import MspmBaremetal.Transition
import Mathlib.Logic.Function.Basic

/-!
# Stores with latched readers

What a double buffer is for, with no memory and no counters: a store keeps one
current image, a reader latches the image that is current when it begins, and
everything it reads until it releases the latch comes from that image.
`read_latched` and `read_newest` are the laws every implementation inherits by
simulation.
-/

namespace MspmBaremetal

/-- The current image, and the image each reader holds. Images are read one
place at a time. -/
structure LatchedStore (ι Q V : Type*) where
  current : Q → V
  held : ι → Option (Q → V)

inductive LatchEvent (ι Q V : Type*) where
  | stored (image : Q → V)
  | latched (i : ι)
  | released (i : ι)
  | read (i : ι) (place : Q) (value : V)

inductive LatchChoice (ι Q V : Type*) where
  | store (image : Q → V)
  | latch (i : ι)
  | release (i : ι)
  | read (i : ι) (place : Q)

namespace LatchedStore

variable {ι Q V : Type*} [DecidableEq ι]

def start (image : Q → V) : LatchedStore ι Q V := ⟨image, fun _ => none⟩

def store (t : LatchedStore ι Q V) (image : Q → V) : LatchedStore ι Q V := { t with current := image }

def latch (t : LatchedStore ι Q V) (i : ι) : LatchedStore ι Q V :=
  { t with held := Function.update t.held i (some t.current) }

def release (t : LatchedStore ι Q V) (i : ι) : LatchedStore ι Q V :=
  { t with held := Function.update t.held i none }

def machine (ι Q V : Type*) [DecidableEq ι] :
    Machine (LatchedStore ι Q V) (LatchChoice ι Q V) (LatchEvent ι Q V) where
  step t
    | .store image => some (t.store image, [.stored image])
    | .latch i =>
      match t.held i with
      | none => some (t.latch i, [.latched i])
      | some _ => none
    | .release i =>
      match t.held i with
      | none => none
      | some _ => some (t.release i, [.released i])
    | .read i place =>
      match t.held i with
      | none => none
      | some image => some (t, [.read i place (image place)])

/-- What one step of the store can do. -/
inductive Effect (t : LatchedStore ι Q V) : LatchEvent ι Q V → LatchedStore ι Q V → Prop
  | stored (image : Q → V) : Effect t (.stored image) (t.store image)
  | latched (i : ι) (free : t.held i = none) : Effect t (.latched i) (t.latch i)
  | released (i : ι) (image : Q → V) (h : t.held i = some image) : Effect t (.released i) (t.release i)
  | read (i : ι) (place : Q) (image : Q → V) (h : t.held i = some image) :
    Effect t (.read i place (image place)) t

variable {t t' : LatchedStore ι Q V} {image₀ : Q → V} {tr : List (LatchEvent ι Q V)}

theorem step_effect {es : List (LatchEvent ι Q V)} {c : LatchChoice ι Q V}
    (h : (machine ι Q V).step t c = some (t', es)) : ∃ e, es = [e] ∧ Effect t e t' := by
  cases c with
  | store image =>
    cases h
    exact ⟨_, rfl, .stored image⟩
  | latch i =>
    simp only [machine] at h
    split at h <;> cases h
    exact ⟨_, rfl, .latched i (by assumption)⟩
  | release i =>
    simp only [machine] at h
    split at h <;> cases h
    exact ⟨_, rfl, .released i _ (by assumption)⟩
  | read i place =>
    simp only [machine] at h
    split at h <;> cases h
    exact ⟨_, rfl, .read i place _ (by assumption)⟩

theorem effect_step {e : LatchEvent ι Q V} (h : Effect t e t') :
    ∃ c, (machine ι Q V).step t c = some (t', [e]) := by
  cases h with
  | stored image => exact ⟨.store image, rfl⟩
  | latched i free => exact ⟨.latch i, by simp [machine, free]⟩
  | released i image h => exact ⟨.release i, by simp [machine, h]⟩
  | read i place image h => exact ⟨.read i place, by simp [machine, h]⟩

/-! ## What a trace says -/

/-- The image stored last. -/
def newest (image₀ : Q → V) (tr : List (LatchEvent ι Q V)) : Q → V :=
  tr.foldl (fun image e => match e with | .stored image' => image' | _ => image) image₀

/-- No event of `tr` latches or releases for `i`. -/
def Undisturbed (i : ι) (tr : List (LatchEvent ι Q V)) : Prop :=
  ∀ e ∈ tr, e ≠ .latched i ∧ e ≠ .released i

theorem current_eq (h : (machine ι Q V).Run (start image₀) tr t) :
    t.current = newest image₀ tr := by
  induction h with
  | start => rfl
  | next _ step ih =>
    obtain ⟨e, rfl, effect⟩ := step_effect step
    simp only [newest, List.foldl_append] at ih ⊢
    rw [← ih]
    cases effect <;> rfl

/-- What a reader holds is the image that was newest when it latched. -/
theorem held_origin (h : (machine ι Q V).Run (start image₀) tr t) {i : ι} {image : Q → V}
    (held : t.held i = some image) :
    ∃ pre mid, tr = pre ++ .latched i :: mid ∧ Undisturbed i mid := by
  induction h with
  | start => simp [start] at held
  | @next tr u _ _ t run step ih =>
    obtain ⟨e, rfl, effect⟩ := step_effect step
    have keep : e ≠ .latched i → e ≠ .released i → u.held i = some image →
        ∃ pre mid, tr ++ [e] = pre ++ .latched i :: mid ∧ Undisturbed i mid := by
      intro hl hr held
      obtain ⟨pre, mid, rfl, quiet⟩ := ih held
      refine ⟨pre, mid ++ [e], by simp, ?_⟩
      intro e' he'
      rcases List.mem_append.mp he' with old | new
      · exact quiet e' old
      · rw [List.mem_singleton.mp new]
        exact ⟨hl, hr⟩
    cases effect with
    | stored image' => exact keep (by simp) (by simp) held
    | latched j free =>
      by_cases hj : j = i
      · subst hj
        exact ⟨tr, [], rfl, by simp [Undisturbed]⟩
      · refine keep (by simp [hj]) (by simp) ?_
        simpa [latch, Function.update_of_ne (Ne.symm hj)] using held
    | released j image' hh =>
      by_cases hj : j = i
      · subst hj
        simp [release] at held
      · refine keep (by simp) (by simp [hj]) ?_
        simpa [release, Function.update_of_ne (Ne.symm hj)] using held
    | read j place image' hh => exact keep (by simp) (by simp) held

/-- A latch is kept until the reader releases it. -/
theorem held_newest (h : (machine ι Q V).Run (start image₀) tr t) {i : ι}
    {pre mid : List (LatchEvent ι Q V)} (htr : tr = pre ++ .latched i :: mid)
    (quiet : Undisturbed i mid) : t.held i = some (newest image₀ pre) := by
  induction h generalizing mid with
  | start => simp at htr
  | @next tr u _ _ t run step ih =>
    obtain ⟨e, rfl, effect⟩ := step_effect step
    rcases List.eq_nil_or_concat mid with rfl | ⟨mid, e', rfl⟩
    · obtain ⟨rfl, rfl⟩ : tr = pre ∧ e = .latched i := by simpa using htr
      cases effect
      simp [latch, current_eq run]
    · obtain ⟨rfl, rfl⟩ : tr = pre ++ .latched i :: mid ∧ e = e' := by
        rw [List.concat_eq_append, ← List.cons_append, ← List.append_assoc] at htr
        obtain ⟨earlier, last⟩ := List.append_inj' htr rfl
        exact ⟨earlier, List.head_eq_of_cons_eq last⟩
      have before := ih rfl fun x hx => quiet x (by simp [hx])
      obtain ⟨hl, hr⟩ := quiet e (by simp)
      cases effect with
      | stored | read => exact before
      | latched j free =>
        have hj : i ≠ j := fun same => hl (by rw [same])
        simpa [latch, Function.update_of_ne hj] using before
      | released j image hh =>
        have hj : i ≠ j := fun same => hr (by rw [same])
        simpa [release, Function.update_of_ne hj] using before

theorem read_held (h : (machine ι Q V).Run (start image₀) tr t) {before post : List (LatchEvent ι Q V)}
    {i : ι} {place : Q} {value : V} (htr : tr = before ++ .read i place value :: post) :
    ∃ u image, (machine ι Q V).Run (start image₀) before u ∧ u.held i = some image ∧
      value = image place := by
  obtain ⟨before', u, c, es, u', l, r, run, step, hes, rfl⟩ := h.split htr
  obtain ⟨e, rfl, effect⟩ := step_effect step
  obtain ⟨rfl, rfl⟩ : l = [] ∧ e = .read i place value := by
    cases l with
    | nil => exact ⟨rfl, by simpa using (List.cons.inj hes).1⟩
    | cons x l => simp at hes
  cases effect with
  | read _ _ image held => exact ⟨u, image, by simpa using run, held, rfl⟩

/-- Every read happens under a latch. -/
theorem read_latched (h : (machine ι Q V).Run (start image₀) tr t)
    {before post : List (LatchEvent ι Q V)} {i : ι} {place : Q} {value : V}
    (htr : tr = before ++ .read i place value :: post) :
    ∃ pre mid, before = pre ++ .latched i :: mid ∧ Undisturbed i mid := by
  obtain ⟨u, image, run, held, -⟩ := read_held h htr
  exact held_origin run held

/-- Everything read under one latch comes from the image that was newest when
it was taken. -/
theorem read_newest (h : (machine ι Q V).Run (start image₀) tr t)
    {pre mid post : List (LatchEvent ι Q V)} {i : ι} {place : Q} {value : V}
    (htr : tr = pre ++ .latched i :: mid ++ .read i place value :: post)
    (quiet : Undisturbed i mid) : value = newest image₀ pre place := by
  obtain ⟨u, image, run, held, rfl⟩ := read_held h htr
  rw [held_newest run rfl quiet] at held
  rw [Option.some.inj held]

end LatchedStore

end MspmBaremetal
