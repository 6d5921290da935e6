import MspmBaremetal.MemoryProgram
import MspmBaremetal.Transition
import Mathlib.Data.List.Forall2

/-!
# Routines on one preemptive core

Code that calls routines, on one processor whose interrupts nest. A routine
makes its accesses one at a time and masks interrupts around those that belong
together. `atomic_traces` says that no interleaving can tell such routines from
routines that run in one step.
-/

namespace PreemptiveCore

open RegisterProgram MspmBaremetal

universe u

/-- Code that calls routines and goes on with what they return. -/
inductive Client (κ : Type*) (Result : κ → Type u) where
  | done
  | call (c : κ) (next : Result c → Client κ Result)

/-- Code between two calls, or inside one with the rest of its routine. -/
inductive Context (ρ : Type*) (β : Type u) (κ : Type*) (Result : κ → Type u) where
  | ready (client : Client κ Result)
  | inside (c : κ) (rest : RegisterProgram ρ β (Result c)) (next : Result c → Client κ Result)

/-- The memory and the contexts, the running one first. -/
structure Core (ρ : Type*) (β : Type u) (γ : Type*) where
  memory : ρ → β
  stack : List γ

inductive Event (κ : Type*) (Result : κ → Type u) where
  | returned (c : κ) (result : Result c)
  | entered (handler : Client κ Result)
  | left

/-- The running context goes on, or an interrupt is taken. -/
inductive Choice (κ : Type*) (Result : κ → Type u) where
  | go
  | interrupt (handler : Client κ Result)

variable {ρ κ : Type*} {β : Type u} {Result : κ → Type u}

/-- A routine that has returned hands its result to its caller. -/
def settle (c : κ) (rest : RegisterProgram ρ β (Result c)) (next : Result c → Client κ Result) :
    Context ρ β κ Result × List (Event κ Result) :=
  match rest with
  | .ret a => (.ready (next a), [.returned c a])
  | rest => (.inside c rest next, [])

variable [DecidableEq ρ]

/-- The running context's next access. -/
def advance (body : (c : κ) → RegisterProgram ρ β (Result c)) (m : ρ → β) :
    Context ρ β κ Result → Option ((ρ → β) × Context ρ β κ Result × List (Event κ Result))
  | .ready .done => none
  | .ready (.call c next) => some (m, settle c (body c) next)
  | .inside c (.ret a) next => some (m, settle c (.ret a) next)
  | .inside c (.write r v rest) next => some (Function.update m r v, settle c rest next)
  | .inside c (.read r k) next => some (m, settle c (k (m r)) next)

section Machines

variable [DecidableEq β] (mask : ρ) (enabled : β) (body : (c : κ) → RegisterProgram ρ β (Result c))

/-- Routines that make one access at a time; interrupts are taken while `mask`
holds `enabled`. -/
def interleaved : Machine (Core ρ β (Context ρ β κ Result)) (Choice κ Result) (Event κ Result) where
  step s
    | .interrupt handler =>
      if s.memory mask = enabled then some ({ s with stack := .ready handler :: s.stack },
        [.entered handler])
      else none
    | .go =>
      match s.stack with
      | [] => none
      | .ready .done :: rest => some ({ s with stack := rest }, [.left])
      | context :: rest =>
        (advance body s.memory context).map fun (memory, context, es) =>
          (⟨memory, context :: rest⟩, es)

end Machines

/-- Routines that run in one step; interrupts are taken at any time. -/
def atomic (body : (c : κ) → RegisterProgram ρ β (Result c)) :
    Machine (Core ρ β (Client κ Result)) (Choice κ Result) (Event κ Result) where
  step s
    | .interrupt handler => some ({ s with stack := handler :: s.stack }, [.entered handler])
    | .go =>
      match s.stack with
      | [] => none
      | .done :: rest => some ({ s with stack := rest }, [.left])
      | .call c next :: rest =>
        let (_, result, memory) := (body c).onMemory s.memory
        some (⟨memory, next result :: rest⟩, [.returned c result])

/-! ## Routines that mask interrupts around their accesses -/

section Guarded

variable {α : Type u} (mask : ρ) (enabled : β)

/-- Interrupts stay masked up to the last access, which unmasks them. -/
def MaskedUntilEnd : RegisterProgram ρ β α → (ρ → β) → Prop
  | .ret _, m => m mask = enabled
  | .write r v p, m => m mask ≠ enabled ∧ MaskedUntilEnd p (Function.update m r v)
  | .read r k, m => m mask ≠ enabled ∧ MaskedUntilEnd (k (m r)) m

/-- A routine that makes at most one access to what other code shares, or makes
them all with interrupts masked. -/
inductive Guarded : RegisterProgram ρ β α → Prop
  | ret (a : α) : Guarded (.ret a)
  | load (r : ρ) (result : β → α) : Guarded (.read r fun v => .ret (result v))
  | store (r : ρ) (v : β) (a : α) (other : r ≠ mask) : Guarded (.write r v (.ret a))
  | sense (k : β → RegisterProgram ρ β α) (rest : Guarded (k enabled)) : Guarded (.read mask k)
  | close (v : β) (p : RegisterProgram ρ β α)
      (rest : ∀ m : ρ → β, m mask = enabled →
        MaskedUntilEnd mask enabled p (Function.update m mask v)) :
      Guarded (.write mask v p)

variable {mask enabled}

theorem MaskedUntilEnd.unmasks {p : RegisterProgram ρ β α} {m : ρ → β}
    (h : MaskedUntilEnd mask enabled p m) : (p.onMemory m).2.2 mask = enabled := by
  induction p generalizing m with
  | ret a => exact h
  | write r v p ih => exact ih h.2
  | read r k ih => exact ih _ h.2

theorem Guarded.unmasks {p : RegisterProgram ρ β α} (h : Guarded mask enabled p) {m : ρ → β}
    (unmasked : m mask = enabled) : (p.onMemory m).2.2 mask = enabled := by
  induction h with
  | ret a => exact unmasked
  | load r result => exact unmasked
  | store r v a other => simpa [onMemory, Function.update_of_ne other.symm] using unmasked
  | sense k _ ih => simpa [onMemory, unmasked] using ih
  | close v p rest => exact (rest m unmasked).unmasks

end Guarded

/-! ## No interleaving tells them from routines that run in one step -/

section Simulation

variable {mask : ρ} {enabled : β} {body : (c : κ) → RegisterProgram ρ β (Result c)}

/-- A context that has made no access yet another context could tell. -/
inductive Parked (mask : ρ) (enabled : β) (body : (c : κ) → RegisterProgram ρ β (Result c)) :
    Context ρ β κ Result → Client κ Result → Prop
  | ready (client : Client κ Result) : Parked mask enabled body (.ready client) client
  | inside (c : κ) (rest : RegisterProgram ρ β (Result c)) (next : Result c → Client κ Result)
      (guarded : Guarded mask enabled rest)
      (same : ∀ m, m mask = enabled → (rest.onMemory m).2 = ((body c).onMemory m).2) :
      Parked mask enabled body (.inside c rest next) (.call c next)

theorem parked_map (t : List (Client κ Result)) :
    (t.map Context.ready).Forall₂ (Parked mask enabled body) t := by
  rw [List.forall₂_map_left_iff, List.forall₂_same]
  exact fun client _ => .ready client

/-- With interrupts masked, the running context is inside a routine that has
not happened yet for the others. -/
inductive Matches (mask : ρ) (enabled : β) (body : (c : κ) → RegisterProgram ρ β (Result c)) :
    Core ρ β (Context ρ β κ Result) → Core ρ β (Client κ Result) → Prop
  | unmasked (m : ρ → β) (s : List (Context ρ β κ Result)) (t : List (Client κ Result))
      (now : m mask = enabled) (parked : s.Forall₂ (Parked mask enabled body) t) :
      Matches mask enabled body ⟨m, s⟩ ⟨m, t⟩
  | masked (m m' : ρ → β) (c : κ) (rest : RegisterProgram ρ β (Result c))
      (next : Result c → Client κ Result) (s : List (Context ρ β κ Result))
      (t : List (Client κ Result)) (now : m mask ≠ enabled) (before : m' mask = enabled)
      (rested : MaskedUntilEnd mask enabled rest m)
      (same : (rest.onMemory m).2 = ((body c).onMemory m').2)
      (parked : s.Forall₂ (Parked mask enabled body) t) :
      Matches mask enabled body ⟨m, .inside c rest next :: s⟩ ⟨m', .call c next :: t⟩

/-- The atomic core does the routine now, or has not done it yet. -/
def Answered (mask : ρ) (enabled : β) (body : (c : κ) → RegisterProgram ρ β (Result c))
    (s : Core ρ β (Context ρ β κ Result)) (es : List (Event κ Result))
    (t : Core ρ β (Client κ Result)) : Prop :=
  es = [] ∧ Matches mask enabled body s t ∨
    ∃ t', (atomic body).step t .go = some (t', es) ∧ Matches mask enabled body s t'

variable {m m' : ρ → β} {c : κ} {rest : RegisterProgram ρ β (Result c)}
  {next : Result c → Client κ Result} {s : List (Context ρ β κ Result)} {t : List (Client κ Result)}

theorem answered_return {a : Result c} (now : m mask = enabled)
    (same : (a, m) = ((body c).onMemory m').2)
    (parked : s.Forall₂ (Parked mask enabled body) t) :
    Answered mask enabled body ⟨m, .ready (next a) :: s⟩ [.returned c a] ⟨m', .call c next :: t⟩ := by
  right
  refine ⟨⟨m, next a :: t⟩, ?_, .unmasked _ _ _ now (.cons (.ready _) parked)⟩
  simp only [atomic, ← same]

theorem answered_masked (before : m' mask = enabled) (rested : MaskedUntilEnd mask enabled rest m)
    (same : (rest.onMemory m).2 = ((body c).onMemory m').2)
    (parked : s.Forall₂ (Parked mask enabled body) t) :
    Answered mask enabled body ⟨m, (settle c rest next).1 :: s⟩ (settle c rest next).2
      ⟨m', .call c next :: t⟩ := by
  cases rest with
  | ret a => exact answered_return rested same parked
  | write r v p => exact .inl ⟨rfl, .masked _ _ _ _ _ _ _ rested.1 before rested same parked⟩
  | read r k => exact .inl ⟨rfl, .masked _ _ _ _ _ _ _ rested.1 before rested same parked⟩

theorem answered_guarded (now : m mask = enabled) (guarded : Guarded mask enabled rest)
    (same : ∀ m, m mask = enabled → (rest.onMemory m).2 = ((body c).onMemory m).2)
    (parked : s.Forall₂ (Parked mask enabled body) t) :
    Answered mask enabled body ⟨m, (settle c rest next).1 :: s⟩ (settle c rest next).2
      ⟨m, .call c next :: t⟩ := by
  have waiting := Parked.inside c rest next guarded same
  cases rest with
  | ret a => exact answered_return now (same m now) parked
  | write r v p => exact .inl ⟨rfl, .unmasked _ _ _ now (.cons waiting parked)⟩
  | read r k => exact .inl ⟨rfl, .unmasked _ _ _ now (.cons waiting parked)⟩

/-- One access of a guarded routine with interrupts unmasked. -/
theorem answered_access {out : (ρ → β) × Context ρ β κ Result × List (Event κ Result)}
    (now : m mask = enabled) (guarded : Guarded mask enabled rest)
    (same : ∀ m, m mask = enabled → (rest.onMemory m).2 = ((body c).onMemory m).2)
    (parked : s.Forall₂ (Parked mask enabled body) t)
    (access : advance body m (.inside c rest next) = some out) :
    Answered mask enabled body ⟨out.1, out.2.1 :: s⟩ out.2.2 ⟨m, .call c next :: t⟩ := by
  cases guarded with
  | ret a =>
    cases access
    exact answered_guarded now (.ret a) same parked
  | load r result =>
    cases access
    exact answered_return now (same m now) parked
  | store r v a other =>
    cases access
    apply answered_return _ (same m now) parked
    rwa [Function.update_of_ne other.symm]
  | sense k guarded =>
    cases access
    rw [now]
    apply answered_guarded now guarded _ parked
    intro m₂ now₂
    rw [← same m₂ now₂, onMemory, now₂]
  | close v p masked =>
    cases access
    exact answered_masked now (masked m now) (same m now) parked

theorem interleaved_simulation [DecidableEq β] (guarded : ∀ c, Guarded mask enabled (body c)) :
    (interleaved mask enabled body).Simulation (atomic body) some (Matches mask enabled body) where
  step {s a es s' t} related step := by
    rw [List.filterMap_some]
    cases a with
    | interrupt handler =>
      simp only [interleaved, Option.ite_none_right_eq_some, Option.some.injEq,
        Prod.mk.injEq] at step
      obtain ⟨now, rfl, rfl⟩ := step
      cases related with
      | unmasked m s t _ parked =>
        exact .inr ⟨.interrupt handler, _, rfl, .unmasked _ _ _ now (.cons (.ready _) parked)⟩
      | masked m m' c rest next s t masked => exact absurd now masked
    | go =>
      suffices Answered mask enabled body s' es t from this.imp_right fun ⟨t', h⟩ => ⟨.go, t', h⟩
      cases related with
      | masked m m' c rest next s t now before rested same parked =>
        cases rest with
        | ret a => exact absurd rested now
        | write r v p =>
          cases step
          exact answered_masked before rested.2 same parked
        | read r k =>
          cases step
          exact answered_masked before rested.2 same parked
      | unmasked m s t now parked =>
        cases parked with
        | nil => simp [interleaved] at step
        | @cons context client s t head parked =>
          cases head with
          | ready client =>
            cases client with
            | done =>
              cases step
              exact .inr ⟨_, rfl, .unmasked _ _ _ now parked⟩
            | call c next =>
              cases step
              exact answered_guarded now (guarded c) (fun _ _ => rfl) parked
          | inside c rest next rested same =>
            simp only [interleaved, Option.map_eq_some_iff] at step
            obtain ⟨out, access, step⟩ := step
            cases step
            exact answered_access now rested same parked access

/-- Left to itself, a routine makes its accesses up to its end. -/
theorem interleaved_return [DecidableEq β] (mask : ρ) (enabled : β)
    (body : (c : κ) → RegisterProgram ρ β (Result c)) (next : Result c → Client κ Result)
    (s : List (Context ρ β κ Result)) (p : RegisterProgram ρ β (Result c)) (m : ρ → β) :
    ∃ es, (settle c p next).2 ++ es = [.returned c (p.onMemory m).2.1] ∧
      (interleaved mask enabled body).Run ⟨m, (settle c p next).1 :: s⟩ es
        ⟨(p.onMemory m).2.2, .ready (next (p.onMemory m).2.1) :: s⟩ := by
  induction p generalizing m with
  | ret a => exact ⟨[], rfl, .start⟩
  | write r v p ih =>
    obtain ⟨es, rest, run⟩ := ih (Function.update m r v)
    exact ⟨_, rest, .cons (a := .go) rfl run⟩
  | read r k ih =>
    obtain ⟨es, rest, run⟩ := ih (m r) m
    exact ⟨_, rest, .cons (a := .go) rfl run⟩

theorem atomic_interleaved [DecidableEq β] (guarded : ∀ c, Guarded mask enabled (body c))
    (now : m mask = enabled) {tr : List (Event κ Result)} {u : Core ρ β (Client κ Result)}
    (h : (atomic body).Run ⟨m, t⟩ tr u) : u.memory mask = enabled ∧
      (interleaved mask enabled body).Run ⟨m, t.map .ready⟩ tr ⟨u.memory, u.stack.map .ready⟩ := by
  induction h with
  | start => exact ⟨now, .start⟩
  | @next tr u a es u' _ step ih =>
    obtain ⟨now, run⟩ := ih
    cases a with
    | interrupt handler =>
      cases step
      exact ⟨now, run.next (a := .interrupt handler) (by simp [interleaved, now])⟩
    | go =>
      obtain ⟨m, stack⟩ := u
      match stack with
      | [] => cases step
      | .done :: stack =>
        cases step
        exact ⟨now, run.next (a := .go) rfl⟩
      | .call c next :: stack =>
        cases step
        obtain ⟨es, whole, rest⟩ :=
          interleaved_return mask enabled body next (stack.map .ready) (body c) m
        refine ⟨(guarded c).unmasks now, ?_⟩
        rw [← whole]
        exact run.trans (.cons (a := .go) rfl rest)

/-- The traces of guarded routines are those of routines that run in one step. -/
theorem interleaved_traces [DecidableEq β] (guarded : ∀ c, Guarded mask enabled (body c))
    (now : m mask = enabled) (t : List (Client κ Result)) (tr : List (Event κ Result)) :
    (∃ s, (interleaved mask enabled body).Run ⟨m, t.map .ready⟩ tr s) ↔
      ∃ u, (atomic body).Run ⟨m, t⟩ tr u := by
  constructor
  · rintro ⟨s, run⟩
    obtain ⟨u, run, -⟩ := (interleaved_simulation guarded).run
      (.unmasked _ _ _ now (parked_map t)) run
    exact ⟨u, by simpa using run⟩
  · rintro ⟨u, run⟩
    exact ⟨_, (atomic_interleaved guarded now run).2⟩

end Simulation

/-! ## Sequential histories -/

section Legal

variable {spec : (c : κ) → (ρ → β) → Result c × (ρ → β)}

/-- The routines, one after the other in the order they returned, return these
results and leave this memory. -/
def Legal (spec : (c : κ) → (ρ → β) → Result c × (ρ → β)) :
    (ρ → β) → List (Event κ Result) → (ρ → β) → Prop
  | m, [], m' => m' = m
  | m, .returned c a :: tr, m' => a = (spec c m).1 ∧ Legal spec (spec c m).2 tr m'
  | m, .entered _ :: tr, m' => Legal spec m tr m'
  | m, .left :: tr, m' => Legal spec m tr m'

omit [DecidableEq ρ] in
theorem Legal.append {m m' m'' : ρ → β} {tr es : List (Event κ Result)} (h : Legal spec m tr m')
    (h' : Legal spec m' es m'') : Legal spec m (tr ++ es) m'' := by
  induction tr generalizing m with
  | nil =>
    cases h
    exact h'
  | cons e tr ih =>
    cases e with
    | returned c a => exact ⟨h.1, ih h.2⟩
    | entered handler => exact ih h
    | left => exact ih h

variable {mask : ρ} {enabled : β} {body : (c : κ) → RegisterProgram ρ β (Result c)} {m : ρ → β}
  {t : List (Client κ Result)} {tr : List (Event κ Result)}

theorem atomic_legal (guarded : ∀ c, Guarded mask enabled (body c))
    (agrees : ∀ c m, m mask = enabled → ((body c).onMemory m).2 = spec c m)
    (now : m mask = enabled) {u : Core ρ β (Client κ Result)} (h : (atomic body).Run ⟨m, t⟩ tr u) :
    u.memory mask = enabled ∧ Legal spec m tr u.memory := by
  induction h with
  | start => exact ⟨now, rfl⟩
  | @next tr u a es u' _ step ih =>
    obtain ⟨now, legal⟩ := ih
    cases a with
    | interrupt handler =>
      cases step
      exact ⟨now, legal.append rfl⟩
    | go =>
      obtain ⟨m, stack⟩ := u
      match stack with
      | [] => cases step
      | .done :: stack =>
        cases step
        exact ⟨now, legal.append rfl⟩
      | .call c next :: stack =>
        cases step
        have does := agrees c m now
        exact ⟨(guarded c).unmasks now, legal.append ⟨congrArg Prod.fst does, congrArg Prod.snd does⟩⟩

/-- What guarded routines return, in the order they return, is what they return
one after the other. -/
theorem interleaved_legal [DecidableEq β] (guarded : ∀ c, Guarded mask enabled (body c))
    (agrees : ∀ c m, m mask = enabled → ((body c).onMemory m).2 = spec c m)
    (now : m mask = enabled) {s : Core ρ β (Context ρ β κ Result)}
    (h : (interleaved mask enabled body).Run ⟨m, t.map .ready⟩ tr s) :
    ∃ m', Legal spec m tr m' ∧ (s.memory mask = enabled → s.memory = m') := by
  obtain ⟨u, run, related⟩ := (interleaved_simulation guarded).run
    (.unmasked _ _ _ now (parked_map t)) h
  rw [List.filterMap_some] at run
  refine ⟨u.memory, (atomic_legal guarded agrees now run).2, fun open' => ?_⟩
  cases related with
  | unmasked m s t => rfl
  | masked m m' c rest next s t masked => exact absurd open' masked

end Legal

/-! ## Critical sections -/

section Critical

variable {α : Type u} (mask : ρ)

omit [DecidableEq ρ] in
/-- The program makes no access to `r`. -/
def Avoids (r : ρ) : RegisterProgram ρ β α → Prop
  | .ret _ => True
  | .write r' _ p => r' ≠ r ∧ Avoids r p
  | .read r' k => r' ≠ r ∧ ∀ v, Avoids r (k v)

/-- Saves the mask, masks interrupts, and restores the mask in the end. -/
def critical (masked : β) (inner : RegisterProgram ρ β α) : RegisterProgram ρ β α := do
  let state ← load mask
  store mask masked
  let a ← inner
  store mask state
  pure a

variable {mask} {masked enabled : β}

theorem avoids_update {p : RegisterProgram ρ β α} (avoids : Avoids mask p) (m : ρ → β) (v : β) :
    (p.onMemory (Function.update m mask v)).2 =
      ((p.onMemory m).2.1, Function.update (p.onMemory m).2.2 mask v) := by
  induction p generalizing m with
  | ret a => rfl
  | write r w p ih =>
    simp only [onMemory, Function.update_comm avoids.1.symm, ih avoids.2]
  | read r k ih =>
    simp only [onMemory, Function.update_of_ne avoids.1, ih _ (avoids.2 _)]

theorem avoids_frame {p : RegisterProgram ρ β α} (avoids : Avoids mask p) (m : ρ → β) :
    (p.onMemory m).2.2 mask = m mask := by
  induction p generalizing m with
  | ret a => rfl
  | write r w p ih => exact (ih avoids.2 _).trans (Function.update_of_ne avoids.1.symm ..)
  | read r k ih => exact ih _ (avoids.2 _) m

/-- A critical section does what it encloses, and leaves the mask as it was. -/
theorem critical_onMemory {inner : RegisterProgram ρ β α} (avoids : Avoids mask inner)
    (m : ρ → β) : ((critical mask masked inner).onMemory m).2 = (inner.onMemory m).2 := by
  have after : ((critical mask masked inner).onMemory m).2 =
      ((inner.onMemory (Function.update m mask masked)).2.1,
        Function.update (inner.onMemory (Function.update m mask masked)).2.2 mask (m mask)) := by
    simp only [critical, onMemory_load_bind]
    change ((inner >>= fun a => store mask (m mask) >>= fun _ => pure a).onMemory
      (Function.update m mask masked)).2 = _
    rw [onMemory_bind]
    rfl
  rw [after, avoids_update avoids, Function.update_idem, ← avoids_frame avoids m,
    Function.update_eq_self]

theorem maskedUntilEnd_critical {inner : RegisterProgram ρ β α} (avoids : Avoids mask inner)
    {m : ρ → β} (now : m mask ≠ enabled) :
    MaskedUntilEnd mask enabled (inner >>= fun a => store mask enabled >>= fun _ => pure a) m := by
  change MaskedUntilEnd mask enabled (inner.bind _) m
  induction inner generalizing m with
  | ret a => exact ⟨now, Function.update_self ..⟩
  | write r v p ih =>
    refine ⟨now, ih avoids.2 ?_⟩
    rwa [Function.update_of_ne avoids.1.symm]
  | read r k ih => exact ⟨now, ih _ (avoids.2 _) now⟩

theorem guarded_critical {inner : RegisterProgram ρ β α} (avoids : Avoids mask inner)
    (masks : masked ≠ enabled) : Guarded mask enabled (critical mask masked inner) := by
  apply Guarded.sense
  apply Guarded.close
  intro m _
  apply maskedUntilEnd_critical avoids
  rwa [Function.update_self]

end Critical

end PreemptiveCore
