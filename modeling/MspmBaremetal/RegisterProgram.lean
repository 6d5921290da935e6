import Mathlib.Data.Stream.Init

/-!
# Programs over memory-mapped registers

A driver reads and writes registers and computes in between. What the hardware
answers to a read is not the program's to say: `Makes` relates a program to
every trace of accesses it can make, `run` executes it on one stream of answers.
-/

namespace RegisterProgram

/-- One access to a register; a read with what the hardware answered. -/
inductive Access (ρ β : Type*) where
  | read (reg : ρ) (value : β)
  | write (reg : ρ) (value : β)
  deriving DecidableEq, Repr

end RegisterProgram

inductive RegisterProgram (ρ β : Type*) (α : Type*) where
  | ret (value : α)
  | write (reg : ρ) (value : β) (next : RegisterProgram ρ β α)
  | read (reg : ρ) (next : β → RegisterProgram ρ β α)

namespace RegisterProgram

universe u

variable {ρ : Type*} {β α γ σ : Type u}

def bind : RegisterProgram ρ β α → (α → RegisterProgram ρ β γ) → RegisterProgram ρ β γ
  | .ret a, f => f a
  | .write r v p, f => .write r v (p.bind f)
  | .read r k, f => .read r fun v => (k v).bind f

instance : Monad (RegisterProgram ρ β) where
  pure := .ret
  bind := bind

/-- A single write, and a single read. -/
def store (reg : ρ) (value : β) : RegisterProgram ρ β PUnit := .write reg value (.ret ⟨⟩)

def load (reg : ρ) : RegisterProgram ρ β β := .read reg .ret

/-- Executes a program on a stream of answers to its reads. -/
def run : RegisterProgram ρ β α → Stream' β → List (Access ρ β) × α × Stream' β
  | .ret a, s => ([], a, s)
  | .write r v p, s =>
    let (trace, out) := p.run s
    (.write r v :: trace, out)
  | .read r k, s =>
    let (trace, out) := (k s.head).run s.tail
    (.read r s.head :: trace, out)

/-- The program, on some hardware, makes these accesses and returns this value. -/
def Makes : RegisterProgram ρ β α → List (Access ρ β) → α → Prop
  | .ret a, t, b => t = [] ∧ b = a
  | .write r v p, t, b => ∃ t', t = .write r v :: t' ∧ p.Makes t' b
  | .read r k, t, b => ∃ v t', t = .read r v :: t' ∧ (k v).Makes t' b

@[simp] theorem makes_pure (a b : α) (t : List (Access ρ β)) :
    Makes (pure a) t b ↔ t = [] ∧ b = a := Iff.rfl

@[simp] theorem makes_store (r : ρ) (v : β) (t : List (Access ρ β)) (u : PUnit) :
    Makes (store r v) t u ↔ t = [.write r v] := by
  simp [store, Makes]

@[simp] theorem makes_load (r : ρ) (t : List (Access ρ β)) (v : β) :
    Makes (load r) t v ↔ t = [.read r v] := by
  simp only [load, Makes]
  constructor
  · rintro ⟨w, t', rfl, rfl, rfl⟩
    rfl
  · rintro rfl
    exact ⟨v, [], rfl, rfl, rfl⟩

/-- A sequence makes the accesses of its first part, then those of its second. -/
theorem makes_bind (p : RegisterProgram ρ β α) (f : α → RegisterProgram ρ β γ)
    (t : List (Access ρ β)) (c : γ) :
    Makes (p >>= f) t c ↔ ∃ t₁ a t₂, t = t₁ ++ t₂ ∧ p.Makes t₁ a ∧ (f a).Makes t₂ c := by
  change (p.bind f).Makes t c ↔ _
  induction p generalizing t with
  | ret a =>
    constructor
    · exact fun h => ⟨[], a, t, rfl, ⟨rfl, rfl⟩, h⟩
    · rintro ⟨t₁, b, t₂, rfl, ⟨rfl, rfl⟩, h⟩
      exact h
  | write r v p ih =>
    simp only [bind, Makes, ih]
    constructor
    · rintro ⟨_, rfl, t₁, a, t₂, rfl, hp, hf⟩
      exact ⟨.write r v :: t₁, a, t₂, rfl, ⟨t₁, rfl, hp⟩, hf⟩
    · rintro ⟨_, a, t₂, rfl, ⟨t₁, rfl, hp⟩, hf⟩
      exact ⟨t₁ ++ t₂, rfl, t₁, a, t₂, rfl, hp, hf⟩
  | read r k ih =>
    simp only [bind, Makes, ih]
    constructor
    · rintro ⟨v, _, rfl, t₁, a, t₂, rfl, hp, hf⟩
      exact ⟨.read r v :: t₁, a, t₂, rfl, ⟨v, t₁, rfl, hp⟩, hf⟩
    · rintro ⟨_, a, t₂, rfl, ⟨v, t₁, rfl, hp⟩, hf⟩
      exact ⟨v, t₁ ++ t₂, rfl, t₁, a, t₂, rfl, hp, hf⟩

@[simp] theorem makes_store_bind (r : ρ) (v : β) (f : PUnit → RegisterProgram ρ β γ)
    (t : List (Access ρ β)) (c : γ) :
    Makes (store r v >>= f) t c ↔ ∃ t', t = .write r v :: t' ∧ (f ⟨⟩).Makes t' c := Iff.rfl

@[simp] theorem makes_load_bind (r : ρ) (f : β → RegisterProgram ρ β γ) (t : List (Access ρ β))
    (c : γ) : Makes (load r >>= f) t c ↔ ∃ v t', t = .read r v :: t' ∧ (f v).Makes t' c := Iff.rfl

/-- A sequence executes its second part on the answers that its first part leaves. -/
theorem run_bind (p : RegisterProgram ρ β α) (f : α → RegisterProgram ρ β γ) (s : Stream' β) :
    (p >>= f).run s = ((p.run s).1 ++ ((f (p.run s).2.1).run (p.run s).2.2).1,
      ((f (p.run s).2.1).run (p.run s).2.2).2) := by
  change (p.bind f).run s = _
  induction p generalizing s with
  | ret a => rfl
  | write r v p ih => simp only [bind, run, ih, List.cons_append]
  | read r k ih => simp only [bind, run, ih, List.cons_append]

/-- A program that has read nothing leaves all the answers. -/
theorem run_unread (p : RegisterProgram ρ β α) (s : Stream' β)
    (unread : ∀ a ∈ (p.run s).1, ∃ r v, a = .write r v) : (p.run s).2.2 = s := by
  induction p generalizing s with
  | ret a => rfl
  | write r v p ih => exact ih s fun a mem => unread a (List.mem_cons_of_mem _ mem)
  | read r k ih =>
    obtain ⟨r', v, written⟩ := unread _ List.mem_cons_self
    cases written

/-- Every execution is one the relation allows. -/
theorem run_makes (p : RegisterProgram ρ β α) (s : Stream' β) :
    p.Makes (p.run s).1 (p.run s).2.1 := by
  induction p generalizing s with
  | ret a => exact ⟨rfl, rfl⟩
  | write r v p ih => exact ⟨_, rfl, ih s⟩
  | read r k ih => exact ⟨_, _, rfl, ih s.head s.tail⟩

/-- A polling loop: `body` either leaves it with a result or goes on from a new
state, at most `limit` times. -/
def poll (body : σ → RegisterProgram ρ β (α ⊕ σ)) : Nat → σ → RegisterProgram ρ β (α ⊕ σ)
  | 0, s => pure (.inr s)
  | limit + 1, s => do
    match ← body s with
    | .inl a => pure (.inl a)
    | .inr s => poll body limit s

theorem makes_poll_from (body : σ → RegisterProgram ρ β (α ⊕ σ)) (P : List (Access ρ β) → σ → Prop)
    (turn : ∀ t s t' s', P t s → (body s).Makes t' (.inr s') → P (t ++ t') s')
    {limit : Nat} {s : σ} {t₀ t : List (Access ρ β)} {out : α ⊕ σ} (start : P t₀ s)
    (h : (poll body limit s).Makes t out) :
    match out with
    | .inr s' => P (t₀ ++ t) s'
    | .inl a => ∃ t₁ s₁ t₂, t = t₁ ++ t₂ ∧ P (t₀ ++ t₁) s₁ ∧ (body s₁).Makes t₂ (.inl a) := by
  induction limit generalizing s t₀ t with
  | zero =>
    obtain ⟨rfl, rfl⟩ := h
    simpa using start
  | succ limit ih =>
    rw [poll, makes_bind] at h
    obtain ⟨t₁, b, t₂, rfl, hb, h⟩ := h
    cases b with
    | inl a =>
      obtain ⟨rfl, rfl⟩ := h
      exact ⟨[], s, t₁, by simp, by simpa using start, hb⟩
    | inr s' =>
      have next := ih (turn t₀ s t₁ s' start hb) h
      cases out with
      | inr s'' => simpa [List.append_assoc] using next
      | inl a =>
        obtain ⟨u₁, s₁, u₂, rfl, hP, hlast⟩ := next
        exact ⟨t₁ ++ u₁, s₁, u₂, by simp, by simpa [List.append_assoc] using hP, hlast⟩

/-- The rule of the polling loop: what every turn that goes on preserves holds
when the loop gives up, and before the turn that leaves it. -/
theorem makes_poll (body : σ → RegisterProgram ρ β (α ⊕ σ)) (P : List (Access ρ β) → σ → Prop)
    (turn : ∀ t s t' s', P t s → (body s).Makes t' (.inr s') → P (t ++ t') s')
    {limit : Nat} {s : σ} {t : List (Access ρ β)} {out : α ⊕ σ} (start : P [] s)
    (h : (poll body limit s).Makes t out) :
    match out with
    | .inr s' => P t s'
    | .inl a => ∃ t₁ s₁ t₂, t = t₁ ++ t₂ ∧ P t₁ s₁ ∧ (body s₁).Makes t₂ (.inl a) :=
  makes_poll_from body P turn start h

/-- One store for each element of a list. -/
theorem makes_forM_store (reg : γ → ρ) (f : γ → β) (l : List γ) (t : List (Access ρ β)) (u : PUnit) :
    Makes (l.forM fun i => store (reg i) (f i)) t u ↔ t = l.map fun i => .write (reg i) (f i) := by
  induction l generalizing t with
  | nil => simp [List.forM]
  | cons i l ih =>
    change Makes (store (reg i) (f i) >>= fun _ => l.forM fun i => store (reg i) (f i)) t u ↔ _
    simp only [makes_bind, makes_store, ih, List.map_cons]
    constructor
    · rintro ⟨_, _, _, rfl, rfl, rfl⟩
      rfl
    · rintro rfl
      exact ⟨_, ⟨⟩, _, rfl, rfl, rfl⟩

/-- One load for each element of a list, each with an update of a state. -/
theorem makes_foldlM_load (reg : ρ) (update : σ → γ → β → σ) (l : List γ) (s : σ)
    (t : List (Access ρ β)) (out : σ) :
    Makes (l.foldlM (fun s i => do
      let value ← load reg
      pure (update s i value)) s) t out ↔
      ∃ values : List β, values.length = l.length ∧ t = values.map (.read reg) ∧
        out = (l.zip values).foldl (fun s p => update s p.1 p.2) s := by
  induction l generalizing s t with
  | nil => simp [and_comm]
  | cons i l ih =>
    simp only [List.foldlM_cons, makes_bind, makes_load, makes_pure, ih]
    constructor
    · rintro ⟨_, _, _, rfl, ⟨_, v, _, rfl, rfl, rfl, rfl⟩, values, length, rfl, rfl⟩
      exact ⟨v :: values, by simp [length], by simp, rfl⟩
    · rintro ⟨values, length, rfl, rfl⟩
      obtain ⟨v, values, rfl⟩ := List.exists_cons_of_length_eq_add_one length
      exact ⟨[.read reg v], _, values.map (.read reg), rfl, ⟨_, v, [], by simp, rfl, rfl, rfl⟩,
        values, by simpa using length, rfl, rfl⟩

/-- The values read from one register, in order. -/
def readsOf [DecidableEq ρ] (r : ρ) (t : List (Access ρ β)) : List β :=
  t.filterMap fun
    | .read r' v => if r' = r then some v else none
    | .write _ _ => none

/-- The values written to one register, in order. -/
def writesOf [DecidableEq ρ] (r : ρ) (t : List (Access ρ β)) : List β :=
  t.filterMap fun
    | .write r' v => if r' = r then some v else none
    | .read _ _ => none

section Projections

variable [DecidableEq ρ] (r : ρ)

@[simp] theorem readsOf_nil : readsOf r ([] : List (Access ρ β)) = [] := rfl

@[simp] theorem readsOf_append (t u : List (Access ρ β)) :
    readsOf r (t ++ u) = readsOf r t ++ readsOf r u := List.filterMap_append

@[simp] theorem readsOf_read (r' : ρ) (v : β) (t : List (Access ρ β)) :
    readsOf r (.read r' v :: t) = if r' = r then v :: readsOf r t else readsOf r t := by
  by_cases h : r' = r <;> simp [readsOf, h]

@[simp] theorem readsOf_write (r' : ρ) (v : β) (t : List (Access ρ β)) :
    readsOf r (.write r' v :: t) = readsOf r t := rfl

@[simp] theorem writesOf_nil : writesOf r ([] : List (Access ρ β)) = [] := rfl

@[simp] theorem writesOf_append (t u : List (Access ρ β)) :
    writesOf r (t ++ u) = writesOf r t ++ writesOf r u := List.filterMap_append

@[simp] theorem writesOf_write (r' : ρ) (v : β) (t : List (Access ρ β)) :
    writesOf r (.write r' v :: t) = if r' = r then v :: writesOf r t else writesOf r t := by
  by_cases h : r' = r <;> simp [writesOf, h]

@[simp] theorem writesOf_read (r' : ρ) (v : β) (t : List (Access ρ β)) :
    writesOf r (.read r' v :: t) = writesOf r t := rfl

theorem writesOf_map (f : γ → β) (l : List γ) :
    writesOf r (l.map fun x => Access.write r (f x)) = l.map f := by
  induction l with
  | nil => rfl
  | cons x l ih => simp [ih]

theorem readsOf_map_write (r' : ρ) (f : γ → β) (l : List γ) :
    readsOf r (l.map fun x => Access.write r' (f x)) = [] := by
  induction l with
  | nil => rfl
  | cons x l ih => simpa using ih

theorem writesOf_map_read (r' : ρ) (l : List β) :
    writesOf r (l.map (Access.read r')) = [] := by
  induction l with
  | nil => rfl
  | cons v l ih => simpa using ih

theorem readsOf_map (l : List β) : readsOf r (l.map (Access.read r)) = l := by
  induction l with
  | nil => rfl
  | cons v l ih => simp [ih]

end Projections

/-! ## A register that reads back what was written to it -/

section Readback

variable [DecidableEq ρ] (r₀ : ρ)

/-- Executes a program on hardware whose register `r₀` holds what was last
written to it; the other reads are answered from the stream. -/
def runReadback : RegisterProgram ρ β α → β → Stream' β → List (Access ρ β) × α × β × Stream' β
  | .ret a, held, s => ([], a, held, s)
  | .write r v p, held, s =>
    let (trace, out) := p.runReadback (if r = r₀ then v else held) s
    (.write r v :: trace, out)
  | .read r k, held, s =>
    if r = r₀ then
      let (trace, out) := (k held).runReadback held s
      (.read r held :: trace, out)
    else
      let (trace, out) := (k s.head).runReadback held s.tail
      (.read r s.head :: trace, out)

theorem runReadback_bind (p : RegisterProgram ρ β α) (f : α → RegisterProgram ρ β γ) (held : β)
    (s : Stream' β) : (p >>= f).runReadback r₀ held s =
      let first := p.runReadback r₀ held s
      let second := (f first.2.1).runReadback r₀ first.2.2.1 first.2.2.2
      (first.1 ++ second.1, second.2) := by
  change (p.bind f).runReadback r₀ held s = _
  induction p generalizing held s with
  | ret a => rfl
  | write r v p ih => simp only [bind, runReadback, ih, List.cons_append]
  | read r k ih =>
    simp only [bind, runReadback]
    split
    · simp only [ih, List.cons_append]
    · simp only [ih, List.cons_append]

theorem runReadback_makes (p : RegisterProgram ρ β α) (held : β) (s : Stream' β) :
    p.Makes (p.runReadback r₀ held s).1 (p.runReadback r₀ held s).2.1 := by
  induction p generalizing held s with
  | ret a => exact ⟨rfl, rfl⟩
  | write r v p ih => exact ⟨_, rfl, ih _ s⟩
  | read r k ih =>
    simp only [runReadback]
    split
    · exact ⟨_, _, rfl, ih held held s⟩
    · exact ⟨_, _, rfl, ih s.head held s.tail⟩

/-- A program that does not read the register runs as on any other hardware. -/
theorem runReadback_eq_run (p : RegisterProgram ρ β α) (held : β) (s : Stream' β)
    (unread : readsOf r₀ (p.run s).1 = []) : p.runReadback r₀ held s =
      ((p.run s).1, (p.run s).2.1, (writesOf r₀ (p.run s).1).getLast?.getD held, (p.run s).2.2) := by
  induction p generalizing held s with
  | ret a => rfl
  | write r v p ih =>
    simp only [run, readsOf_write] at unread
    simp only [runReadback, run, ih _ s unread, writesOf_write]
    split
    · rw [List.getLast?_cons]
      rfl
    · rfl
  | read r k ih =>
    simp only [run, readsOf_read] at unread
    split at unread
    · cases unread
    next other =>
      simp only [runReadback, run, if_neg other, ih _ _ _ unread, writesOf_read]

end Readback

end RegisterProgram
