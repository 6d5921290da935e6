import MspmBaremetal.Transition

/-!
# Bounded FIFOs

What a bounded queue is for, with no memory and no indices: a push is accepted
while there is room and turned away otherwise, every push turned away is
reported as refused once, and a pop takes the oldest item. `accepted_eq`,
`full_eq` and `dropped_eq` are the laws every implementation inherits by
simulation.
-/

namespace MspmBaremetal

/-- A queue that never holds more than `cap` items, with the pushes it turned
away but has not reported yet and the number it has reported. -/
structure Fifo (α : Type*) (cap : Nat) where
  items : List α
  bounded : items.length ≤ cap
  turnedAway : List α
  dropped : Nat

inductive FifoEvent (α : Type*) where
  | accepted (a : α)
  | full (a : α)
  | refused (a : α)
  | popped (a : α)
  | empty
  deriving DecidableEq, Repr

inductive FifoChoice (α : Type*) where
  | push (a : α)
  | report
  | pop

namespace Fifo

variable {α : Type*} {cap : Nat}

def empty (α : Type*) (cap : Nat) : Fifo α cap := ⟨[], Nat.zero_le _, [], 0⟩

def push (q : Fifo α cap) (a : α) (room : q.items.length < cap) : Fifo α cap :=
  { q with items := q.items ++ [a], bounded := by rw [List.length_append]; exact room }

def turnAway (q : Fifo α cap) (a : α) : Fifo α cap :=
  { q with turnedAway := q.turnedAway ++ [a] }

def report (q : Fifo α cap) : Fifo α cap :=
  { q with turnedAway := q.turnedAway.tail, dropped := q.dropped + 1 }

def pop (q : Fifo α cap) : Fifo α cap :=
  { q with items := q.items.tail, bounded := Nat.le_trans (by simp) q.bounded }

def machine (α : Type*) (cap : Nat) : Machine (Fifo α cap) (FifoChoice α) (FifoEvent α) where
  step q
    | .push a =>
      if room : q.items.length < cap then some (q.push a room, [.accepted a])
      else some (q.turnAway a, [.full a])
    | .report =>
      match q.turnedAway with
      | [] => none
      | a :: _ => some (q.report, [.refused a])
    | .pop =>
      match q.items with
      | [] => some (q, [.empty])
      | a :: _ => some (q.pop, [.popped a])

/-- What one step of the queue can do. -/
inductive Effect (q : Fifo α cap) : List (FifoEvent α) → Fifo α cap → Prop
  | accepted (a : α) (room : q.items.length < cap) : Effect q [.accepted a] (q.push a room)
  | full (a : α) (noRoom : q.items.length = cap) : Effect q [.full a] (q.turnAway a)
  | refused (a : α) (rest : List α) (h : q.turnedAway = a :: rest) : Effect q [.refused a] q.report
  | popped (a : α) (rest : List α) (h : q.items = a :: rest) : Effect q [.popped a] q.pop
  | empty (h : q.items = []) : Effect q [.empty] q

theorem step_effect {q q' : Fifo α cap} {es : List (FifoEvent α)} {c : FifoChoice α}
    (h : (machine α cap).step q c = some (q', es)) : Effect q es q' := by
  have := q.bounded
  cases c with
  | push a =>
    simp only [machine] at h
    split at h
    · cases h; exact .accepted a _
    · cases h; exact .full a (by omega)
  | report =>
    simp only [machine] at h
    split at h
    · cases h
    · cases h; exact .refused _ _ (by assumption)
  | pop =>
    simp only [machine] at h
    split at h
    · cases h; exact .empty (by assumption)
    · cases h; exact .popped _ _ (by assumption)

theorem effect_step {q q' : Fifo α cap} {es : List (FifoEvent α)} (h : Effect q es q') :
    ∃ c, (machine α cap).step q c = some (q', es) := by
  cases h with
  | accepted a room => exact ⟨.push a, by simp [machine, room]⟩
  | full a noRoom => exact ⟨.push a, by simp [machine, noRoom]⟩
  | refused a rest h => exact ⟨.report, by simp [machine, h]⟩
  | popped a rest h => exact ⟨.pop, by simp [machine, h]⟩
  | empty h => exact ⟨.pop, by simp [machine, h]⟩

/-! ## What the queue's events say -/

def accepted (tr : List (FifoEvent α)) : List α :=
  tr.filterMap fun | .accepted a => some a | _ => none

def full (tr : List (FifoEvent α)) : List α :=
  tr.filterMap fun | .full a => some a | _ => none

def refused (tr : List (FifoEvent α)) : List α :=
  tr.filterMap fun | .refused a => some a | _ => none

def popped (tr : List (FifoEvent α)) : List α :=
  tr.filterMap fun | .popped a => some a | _ => none

theorem accepted_append (l r : List (FifoEvent α)) :
    accepted (l ++ r) = accepted l ++ accepted r := List.filterMap_append

theorem popped_append (l r : List (FifoEvent α)) : popped (l ++ r) = popped l ++ popped r :=
  List.filterMap_append

theorem refused_append (l r : List (FifoEvent α)) : refused (l ++ r) = refused l ++ refused r :=
  List.filterMap_append

/-- The items offered to the queue, in order, with what became of each. -/
def decided (tr : List (FifoEvent α)) : List (α × Bool) :=
  tr.filterMap fun | .accepted a => some (a, true) | .refused a => some (a, false) | _ => none

theorem decided_append (l r : List (FifoEvent α)) : decided (l ++ r) = decided l ++ decided r :=
  List.filterMap_append

theorem accepted_decided (tr : List (FifoEvent α)) :
    accepted tr = ((decided tr).filter Prod.snd).map Prod.fst := by
  induction tr with
  | nil => rfl
  | cons e tr ih => cases e <;> simpa [accepted, decided] using ih

theorem decided_length (tr : List (FifoEvent α)) :
    (decided tr).length = (accepted tr).length + (refused tr).length := by
  induction tr with
  | nil => rfl
  | cons e tr ih =>
    simp only [decided, accepted, refused] at ih
    cases e <;> simp [accepted, decided, refused, ih] <;> omega

variable {q₀ q : Fifo α cap} {tr : List (FifoEvent α)}

theorem run_extend {q' : Fifo α cap} {es : List (FifoEvent α)} (h : (machine α cap).Run q₀ tr q)
    (effect : es = [] ∧ q' = q ∨ Effect q es q') : (machine α cap).Run q₀ (tr ++ es) q' := by
  rcases effect with ⟨rfl, rfl⟩ | effect
  · simpa using h
  · obtain ⟨c, hc⟩ := effect_step effect
    exact h.next hc

/-- Only accepting and popping change the items. -/
theorem items_kept {q' : Fifo α cap} {es : List (FifoEvent α)}
    (effect : es = [] ∧ q' = q ∨ Effect q es q') (ha : accepted es = []) (hp : popped es = []) :
    q'.items = q.items := by
  rcases effect with ⟨-, rfl⟩ | effect
  · rfl
  · cases effect with
    | accepted | popped => simp [accepted, popped] at ha hp
    | full | refused | empty => rfl

/-- Items leave in the order they were accepted: none lost, none repeated. -/
theorem accepted_eq (h : (machine α cap).Run q₀ tr q) :
    q₀.items ++ accepted tr = popped tr ++ q.items := by
  induction h with
  | start => simp [accepted, popped]
  | next _ step ih =>
    simp only [accepted, popped, List.filterMap_append, ← List.append_assoc] at ih ⊢
    rw [ih]
    cases step_effect step with
    | accepted | full | refused | empty => simp [push, turnAway, report]
    | popped a rest hq => simp [pop, hq]

/-- Every refusal reports one push that found the queue full, in order. -/
theorem full_eq (h : (machine α cap).Run q₀ tr q) :
    q₀.turnedAway ++ full tr = refused tr ++ q.turnedAway := by
  induction h with
  | start => simp [full, refused]
  | next _ step ih =>
    simp only [full, refused, List.filterMap_append, ← List.append_assoc] at ih ⊢
    rw [ih]
    cases step_effect step with
    | accepted | full | popped | empty => simp [push, turnAway, pop]
    | refused a rest hq => simp [report, hq]

theorem dropped_eq (h : (machine α cap).Run q₀ tr q) :
    q.dropped = q₀.dropped + (refused tr).length := by
  induction h with
  | start => simp [refused]
  | next _ step ih =>
    simp only [refused, List.filterMap_append, List.length_append] at ih ⊢
    cases step_effect step with
    | accepted | full | popped | empty => simpa [push, turnAway, pop] using ih
    | refused a rest hq => simp [report, ih]; omega

end Fifo

end MspmBaremetal
