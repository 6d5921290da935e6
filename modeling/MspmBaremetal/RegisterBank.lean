import MspmBaremetal.RegisterProgram
import Mathlib.Logic.Function.Basic

/-!
# Programs on a bank of registers

A register holds what was last written to it, or it shows a status that the
hardware chooses at every read:

* `onBank`: executes a program on such registers, which `onBank_makes` shows is
  one of its behaviours;
* `poll_onBank`: a loop that polls one status ends within its limit exactly if
  the status passes within it;
* `within`: a driver's program among the registers of a whole device.
-/

namespace RegisterProgram

universe u

variable {ρ ι : Type*} {β α γ : Type u}

section Bank

variable [DecidableEq ρ] (status : ρ → Bool)

/-- The status registers answer from the stream, the others from the bank. -/
def onBank : RegisterProgram ρ β α → (ρ → β) → Stream' β →
    List (Access ρ β) × α × (ρ → β) × Stream' β
  | .ret a, bank, s => ([], a, bank, s)
  | .write r v p, bank, s =>
    let (trace, out) := p.onBank (Function.update bank r v) s
    (.write r v :: trace, out)
  | .read r k, bank, s =>
    if status r then
      let (trace, out) := (k s.head).onBank bank s.tail
      (.read r s.head :: trace, out)
    else
      let (trace, out) := (k (bank r)).onBank bank s
      (.read r (bank r) :: trace, out)

theorem onBank_bind (p : RegisterProgram ρ β α) (f : α → RegisterProgram ρ β γ) (bank : ρ → β)
    (s : Stream' β) : (p >>= f).onBank status bank s =
      let first := p.onBank status bank s
      let second := (f first.2.1).onBank status first.2.2.1 first.2.2.2
      (first.1 ++ second.1, second.2) := by
  change (p.bind f).onBank status bank s = _
  induction p generalizing bank s with
  | ret a => rfl
  | write r v p ih => simp only [bind, onBank, ih, List.cons_append]
  | read r k ih =>
    simp only [bind, onBank]
    split
    · simp only [ih, List.cons_append]
    · simp only [ih, List.cons_append]

theorem onBank_makes (p : RegisterProgram ρ β α) (bank : ρ → β) (s : Stream' β) :
    p.Makes (p.onBank status bank s).1 (p.onBank status bank s).2.1 := by
  induction p generalizing bank s with
  | ret a => exact ⟨rfl, rfl⟩
  | write r v p ih => exact ⟨_, rfl, ih _ s⟩
  | read r k ih =>
    simp only [onBank]
    split
    · exact ⟨_, _, rfl, ih s.head bank s.tail⟩
    · exact ⟨_, _, rfl, ih (bank r) bank s⟩

@[simp] theorem onBank_pure (a : α) (bank : ρ → β) (s : Stream' β) :
    (pure a : RegisterProgram ρ β α).onBank status bank s = ([], a, bank, s) := rfl

end Bank

/-! ## Polling one status -/

section Poll

variable {β : Type}

/-- One turn of a loop that waits until a status passes a test. -/
def await (r : ρ) (test : β → Bool) (_ : Unit) : RegisterProgram ρ β (Unit ⊕ Unit) := do
  let v ← load r
  pure (if test v then .inl () else .inr ())

theorem poll_onBank [DecidableEq ρ] {status : ρ → Bool} {r : ρ} (shown : status r = true)
    (test : β → Bool) (limit : Nat) (bank : ρ → β) (s : Stream' β) :
    ∃ t out rest, (poll (await r test) limit ()).onBank status bank s = (t, out, bank, rest) ∧
      (out.isLeft = true ↔ ∃ k < limit, test (s.get k) = true) := by
  induction limit generalizing s with
  | zero => exact ⟨[], .inr (), s, rfl, by simp⟩
  | succ limit ih =>
    have turn : (await r test ()).onBank status bank s =
        ([.read r s.head], if test s.head then .inl () else .inr (), bank, s.tail) := by
      change (RegisterProgram.read r _).onBank status bank s = _
      rw [onBank, if_pos shown]
      rfl
    by_cases passes : test s.head = true
    · refine ⟨[.read r s.head] ++ [], .inl (), s.tail, ?_, ?_⟩
      · rw [poll, onBank_bind, turn, if_pos passes]
        rfl
      · exact ⟨fun _ => ⟨0, Nat.succ_pos limit, passes⟩, fun _ => rfl⟩
    · obtain ⟨t, out, rest, ran, later⟩ := ih s.tail
      refine ⟨[.read r s.head] ++ t, out, rest, ?_, later.trans ?_⟩
      · rw [poll, onBank_bind, turn, if_neg passes]
        exact congrArg (fun o => ([.read r s.head] ++ o.1, o.2)) ran
      · constructor
        · rintro ⟨k, below, found⟩
          exact ⟨k + 1, Nat.succ_lt_succ below, found⟩
        · rintro ⟨k, below, found⟩
          cases k with
          | zero => exact absurd found passes
          | succ k => exact ⟨k, Nat.lt_of_succ_lt_succ below, found⟩

end Poll

/-! ## A driver among others -/

section Within

/-- The accesses of a driver, as the whole device sees them. -/
def Access.within (place : ρ → ι) : Access ρ β → Access ι β
  | .read r v => .read (place r) v
  | .write r v => .write (place r) v

def within (place : ρ → ι) : RegisterProgram ρ β α → RegisterProgram ι β α
  | .ret a => .ret a
  | .write r v p => .write (place r) v (p.within place)
  | .read r k => .read (place r) fun v => (k v).within place

theorem makes_within (place : ρ → ι) (p : RegisterProgram ρ β α) (t : List (Access ι β)) (a : α) :
    (p.within place).Makes t a ↔ ∃ t₀, t = t₀.map (.within place) ∧ p.Makes t₀ a := by
  induction p generalizing t with
  | ret b =>
    simp only [within, Makes]
    constructor
    · rintro ⟨rfl, rfl⟩
      exact ⟨[], rfl, rfl, rfl⟩
    · rintro ⟨t₀, rfl, rfl, rfl⟩
      exact ⟨rfl, rfl⟩
  | write r v p ih =>
    simp only [within, Makes, ih]
    constructor
    · rintro ⟨_, rfl, t₀, rfl, made⟩
      exact ⟨.write r v :: t₀, rfl, t₀, rfl, made⟩
    · rintro ⟨_, rfl, t₀, rfl, made⟩
      exact ⟨_, rfl, t₀, rfl, made⟩
  | read r k ih =>
    simp only [within, Makes, ih]
    constructor
    · rintro ⟨v, _, rfl, t₀, rfl, made⟩
      exact ⟨.read r v :: t₀, rfl, v, t₀, rfl, made⟩
    · rintro ⟨_, rfl, v, t₀, rfl, made⟩
      exact ⟨v, _, rfl, t₀, rfl, made⟩

section Projections

variable [DecidableEq ι] {place : ρ → ι}

/-- A driver's registers are only accessed by the driver. -/
theorem readsOf_within_of_ne {r : ι} (other : ∀ r', place r' ≠ r) (t : List (Access ρ β)) :
    readsOf r (t.map (.within place)) = [] := by
  induction t with
  | nil => rfl
  | cons a t ih =>
    cases a with
    | read r' v => rw [List.map_cons, Access.within, readsOf_read, if_neg (other r'), ih]
    | write r' v => exact ih

theorem writesOf_within_of_ne {r : ι} (other : ∀ r', place r' ≠ r) (t : List (Access ρ β)) :
    writesOf r (t.map (.within place)) = [] := by
  induction t with
  | nil => rfl
  | cons a t ih =>
    cases a with
    | read r' v => exact ih
    | write r' v => rw [List.map_cons, Access.within, writesOf_write, if_neg (other r'), ih]

theorem writesOf_within [DecidableEq ρ] (injective : Function.Injective place) (r : ρ) (t : List (Access ρ β)) :
    writesOf (place r) (t.map (.within place)) = writesOf r t := by
  induction t with
  | nil => rfl
  | cons a t ih =>
    cases a with
    | read r' v => exact ih
    | write r' v =>
      rw [List.map_cons, Access.within, writesOf_write, writesOf_write, ih]
      simp only [injective.eq_iff]

end Projections

end Within

end RegisterProgram
