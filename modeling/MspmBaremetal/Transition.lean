import Mathlib.Data.List.Basic

/-!
# Machines that emit events

Generic results about a machine whose partial step takes a scheduling choice
and emits events:

* `Run`: the traces a machine can emit from a state, with the state reached;
* `Run.invariant`: what holds at the start and is kept by every step holds of
  every run;
* `exec`: an executable run along a list of choices, which `exec_run` shows is
  one of those runs;
* `restrict`: the machine without the steps a guard forbids;
* `Simulation.run`: a machine whose steps are matched by an abstract one emits
  only traces the abstract one can emit.
-/

namespace MspmBaremetal

universe u v w x y

/-- An element of two lists in a row is in one of them. -/
theorem append_eq_split {α : Type*} {a b pre post : List α} {x : α} (h : a ++ b = pre ++ x :: post) :
    (∃ l, pre = a ++ l ∧ b = l ++ x :: post) ∨ ∃ r, a = pre ++ x :: r ∧ post = r ++ b := by
  rcases List.append_eq_append_iff.mp h with ⟨l, hpre, hb⟩ | ⟨r, ha, hpost⟩
  · exact .inl ⟨l, hpre, hb⟩
  · cases r with
    | nil => exact .inl ⟨[], by simpa using ha.symm, by simpa using hpost.symm⟩
    | cons y r =>
      obtain ⟨rfl, rest⟩ := List.cons.inj hpost
      exact .inr ⟨r, ha, rest⟩

/-- Nothing comes before the only element of a list. -/
theorem singleton_eq_split {α : Type*} {pre post : List α} {x y : α} (h : [y] = pre ++ x :: post) :
    pre = [] ∧ x = y := by
  cases pre with
  | nil => exact ⟨rfl, (List.cons.inj h).1.symm⟩
  | cons _ pre => simp at h

/-- One scheduling choice `a` in state `s` either cannot be taken, or leads to
one state and emits the listed events. -/
structure Machine (S : Type u) (A : Type v) (E : Type w) where
  step : S → A → Option (S × List E)

namespace Machine

variable {S : Type u} {A : Type v} {E : Type w} {T : Type x} {B : Type y}

/-- `M.Run s tr t`: some sequence of choices leads from `s` to `t` emitting `tr`. -/
inductive Run (M : Machine S A E) (s : S) : List E → S → Prop
  | start : Run M s [] s
  | next {tr t a es t'} : Run M s tr t → M.step t a = some (t', es) → Run M s (tr ++ es) t'

theorem Run.invariant {M : Machine S A E} {s : S} {P : List E → S → Prop} (h0 : P [] s)
    (hstep : ∀ tr t a es t', P tr t → M.step t a = some (t', es) → P (tr ++ es) t')
    {tr : List E} {t : S} (h : M.Run s tr t) : P tr t := by
  induction h with
  | start => exact h0
  | next _ step ih => exact hstep _ _ _ _ _ ih step

/-- Every event of a run was emitted by one of its steps. -/
theorem Run.split {M : Machine S A E} {s : S} {tr : List E} {t : S} (h : M.Run s tr t)
    {pre post : List E} {e : E} (htr : tr = pre ++ e :: post) :
    ∃ before t₁ a es t₂ l r, M.Run s before t₁ ∧ M.step t₁ a = some (t₂, es) ∧
      es = l ++ e :: r ∧ pre = before ++ l := by
  induction h generalizing post with
  | start => simp at htr
  | @next tr t a es t' run step ih =>
    rcases append_eq_split htr with ⟨l, hpre, hes⟩ | ⟨r, htr, -⟩
    · exact ⟨tr, t, a, es, t', l, post, run, step, hes, hpre⟩
    · exact ih htr

/-- Run the listed choices in order, as long as each can be taken. -/
def exec (M : Machine S A E) (s : S) : List A → Option (S × List E)
  | [] => some (s, [])
  | a :: as => do
    let (t, es) ← M.step s a
    let (u, fs) ← M.exec t as
    return (u, es ++ fs)

theorem exec_cons {M : Machine S A E} {s t u : S} {a : A} {as : List A} {es fs : List E}
    (hs : M.step s a = some (t, es)) (h : M.exec t as = some (u, fs)) :
    M.exec s (a :: as) = some (u, es ++ fs) := by
  simp [exec, hs, h]

theorem Run.cons {M : Machine S A E} {s t u : S} {a : A} {es fs : List E}
    (hs : M.step s a = some (t, es)) (h : M.Run t fs u) : M.Run s (es ++ fs) u := by
  induction h with
  | start => simpa using Run.next .start hs
  | next _ step ih => simpa only [List.append_assoc] using Run.next ih step

theorem Run.trans {M : Machine S A E} {s t u : S} {es fs : List E} (h : M.Run s es t)
    (h' : M.Run t fs u) : M.Run s (es ++ fs) u := by
  induction h' with
  | start => simpa using h
  | next _ step ih => simpa only [List.append_assoc] using ih.next step

theorem exec_run {M : Machine S A E} {s t : S} {as : List A} {tr : List E}
    (h : M.exec s as = some (t, tr)) : M.Run s tr t := by
  induction as generalizing s tr with
  | nil =>
    simp only [exec, Option.some.injEq, Prod.mk.injEq] at h
    obtain ⟨rfl, rfl⟩ := h
    exact .start
  | cons a as ih =>
    simp only [exec, Option.bind_eq_bind, Option.bind_eq_some_iff, Option.pure_def,
      Option.some.injEq, Prod.mk.injEq] at h
    obtain ⟨⟨t₁, es⟩, hs, ⟨u, fs⟩, hrest, rfl, rfl⟩ := h
    exact Run.cons hs (ih hrest)

/-- What an executed run shows, checked by computing it. -/
theorem exec_shows {O : Type*} (M : Machine S A E) (s : S) (as : List A) (observe : S × List E → O)
    (o : O) (h : (M.exec s as).map observe = some o) :
    ∃ t tr, M.Run s tr t ∧ observe (t, tr) = o := by
  obtain ⟨⟨t, tr⟩, hexec, shown⟩ := Option.map_eq_some_iff.mp h
  exact ⟨t, tr, exec_run hexec, shown⟩

/-- The events of an executed run, checked by computing them. -/
theorem exec_reaches (M : Machine S A E) (s : S) (as : List A) (tr : List E)
    (h : (M.exec s as).map Prod.snd = some tr) : ∃ t, M.Run s tr t := by
  obtain ⟨t, tr', run, rfl⟩ := M.exec_shows s as Prod.snd tr h
  exact ⟨t, run⟩

/-- The machine with only the steps the guard allows. -/
def restrict (M : Machine S A E) (guard : S → A → Bool) : Machine S A E where
  step s a := if guard s a then M.step s a else none

theorem restrict_step {M : Machine S A E} {guard : S → A → Bool} {s t : S} {a : A} {es : List E}
    (h : (M.restrict guard).step s a = some (t, es)) :
    guard s a = true ∧ M.step s a = some (t, es) := by
  simpa [restrict, Option.ite_none_right_eq_some] using h

/-- Every step of `M` between related states is matched by a step of `N` whose
events are the visible part of the events `M` emits, or emits nothing visible. -/
structure Simulation {F : Type*} (M : Machine S A E) (N : Machine T B F) (visible : E → Option F)
    (R : S → T → Prop) : Prop where
  step : ∀ {s a es s' t}, R s t → M.step s a = some (s', es) →
    (es.filterMap visible = [] ∧ R s' t) ∨
    ∃ b t', N.step t b = some (t', es.filterMap visible) ∧ R s' t'

theorem Simulation.run {F : Type*} {M : Machine S A E} {N : Machine T B F} {visible : E → Option F}
    {R : S → T → Prop} (sim : Simulation M N visible R) {s₀ : S} {t₀ : T} (h0 : R s₀ t₀)
    {tr : List E} {s : S} (h : M.Run s₀ tr s) :
    ∃ t, N.Run t₀ (tr.filterMap visible) t ∧ R s t := by
  induction h with
  | start => exact ⟨t₀, .start, h0⟩
  | next _ step ih =>
    obtain ⟨t, run, related⟩ := ih
    rcases sim.step related step with ⟨hidden, related'⟩ | ⟨b, t', hb, related'⟩
    · exact ⟨t, by simpa [hidden] using run, related'⟩
    · exact ⟨t', by simpa using run.next hb, related'⟩

end Machine

end MspmBaremetal
