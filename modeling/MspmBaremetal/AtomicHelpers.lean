import MspmBaremetal.PreemptiveCore

/-!
# Atomic operations on a core without exclusive accesses

`arch_critical.h` and `arch_atomic_cm0.c`: critical sections on PRIMASK, and
the two operations the compiler calls for C11 read-modify-writes of a word.
-/

namespace MspmBaremetal.AtomicHelpers

open RegisterProgram PreemptiveCore

abbrev Word := BitVec 32

/-- An aligned word, by its address over four. -/
abbrev Address := BitVec 30

inductive Place where
  | primask
  | word (address : Address)
  deriving DecidableEq, Repr

abbrev ArchProgram := RegisterProgram Place Word

def archCriticalEnter : ArchProgram Word := do
  let state ← load .primask
  store .primask 1
  pure state

def archCriticalExit (state : Word) : ArchProgram Unit := store .primask state

/-- `__atomic_compare_exchange_4`; a null pointer is `none`. -/
def compareExchange4 (object expected : Option Address) (desired : Word) : ArchProgram Bool :=
  match object, expected with
  | some target, some expectedValue => do
    let criticalState ← archCriticalEnter
    let observed ← load (.word target)
    let wanted ← load (.word expectedValue)
    let exchanged ← if observed = wanted then do
        store (.word target) desired
        pure true
      else do
        store (.word expectedValue) observed
        pure false
    archCriticalExit criticalState
    pure exchanged
  | _, _ => pure false

/-- `__atomic_fetch_sub_4`. -/
def fetchSub4 (object : Option Address) (operand : Word) : ArchProgram Word :=
  match object with
  | some target => do
    let criticalState ← archCriticalEnter
    let previous ← load (.word target)
    store (.word target) (previous - operand)
    archCriticalExit criticalState
    pure previous
  | none => pure 0

/-- What code on the core does with a word. -/
inductive Operation where
  | compareExchange (object expected : Option Address) (desired : Word)
  | fetchSub (object : Option Address) (operand : Word)
  | loadWord (address : Address)
  | storeWord (address : Address) (value : Word)
  deriving DecidableEq, Repr

abbrev Operation.Result : Operation → Type
  | .compareExchange .. => Bool
  | .fetchSub .. => Word
  | .loadWord _ => Word
  | .storeWord .. => Unit

def Operation.body : (op : Operation) → ArchProgram op.Result
  | .compareExchange object expected desired => compareExchange4 object expected desired
  | .fetchSub object operand => fetchSub4 object operand
  | .loadWord address => load (.word address)
  | .storeWord address value => store (.word address) value

/-- What C11 says the operation does, in one step. -/
def Operation.atomically : (op : Operation) → (Place → Word) → op.Result × (Place → Word)
  | .compareExchange (some object) (some expected) desired, m =>
    if m (.word object) = m (.word expected) then
      (true, Function.update m (.word object) desired)
    else (false, Function.update m (.word expected) (m (.word object)))
  | .compareExchange none _ _, m => (false, m)
  | .compareExchange (some _) none _, m => (false, m)
  | .fetchSub (some object) operand, m =>
    (m (.word object), Function.update m (.word object) (m (.word object) - operand))
  | .fetchSub none _, m => (0, m)
  | .loadWord address, m => (m (.word address), m)
  | .storeWord address value, m => ((), Function.update m (.word address) value)

/-- What the compare-exchange encloses. -/
def exchange (target expectedValue : Address) (desired : Word) : ArchProgram Bool := do
  let observed ← load (.word target)
  let wanted ← load (.word expectedValue)
  if observed = wanted then
    store (.word target) desired
    pure true
  else
    store (.word expectedValue) observed
    pure false

theorem avoids_exchange (target expectedValue : Address) (desired : Word) :
    Avoids .primask (exchange target expectedValue desired) := by
  refine ⟨nofun, fun observed => ⟨nofun, fun wanted => ?_⟩⟩
  change Avoids _ (if observed = wanted then _ else _)
  split
  · exact ⟨nofun, trivial⟩
  · exact ⟨nofun, trivial⟩

theorem compareExchange4_critical (target expectedValue : Address) (desired : Word) :
    compareExchange4 (some target) (some expectedValue) desired =
      critical .primask 1 (exchange target expectedValue desired) := by
  apply congrArg (RegisterProgram.read _)
  funext state
  apply congrArg (fun p => RegisterProgram.write _ _ (RegisterProgram.read _ p))
  funext observed
  apply congrArg (RegisterProgram.read _)
  funext wanted
  change (if observed = wanted then _ else _) = RegisterProgram.bind (if _ then _ else _) _
  split
  · rfl
  · rfl

def subtract (target : Address) (operand : Word) : ArchProgram Word := do
  let previous ← load (.word target)
  store (.word target) (previous - operand)
  pure previous

theorem avoids_subtract (target : Address) (operand : Word) :
    Avoids .primask (subtract target operand) :=
  ⟨nofun, fun _ => ⟨nofun, trivial⟩⟩

theorem fetchSub4_critical (target : Address) (operand : Word) :
    fetchSub4 (some target) operand = critical .primask 1 (subtract target operand) := rfl

/-- Left alone, with interrupts masked or not, each operation does what C11 says. -/
theorem body_atomically (op : Operation) (m : Place → Word) :
    (op.body.onMemory m).2 = op.atomically m := by
  match op with
  | .compareExchange (some target) (some expectedValue) desired =>
    rw [Operation.body, compareExchange4_critical, critical_onMemory (avoids_exchange ..)]
    simp only [exchange, onMemory_load_bind, Operation.atomically]
    split
    · rfl
    · rfl
  | .compareExchange none _ _ => rfl
  | .compareExchange (some _) none _ => rfl
  | .fetchSub (some target) operand =>
    rw [Operation.body, fetchSub4_critical, critical_onMemory (avoids_subtract ..)]
    rfl
  | .fetchSub none _ => rfl
  | .loadWord address => rfl
  | .storeWord address value => rfl

theorem one_ne_zero : (1 : Word) ≠ 0 := by decide

theorem body_guarded (op : Operation) : Guarded .primask 0 op.body := by
  match op with
  | .compareExchange (some target) (some expectedValue) desired =>
    rw [Operation.body, compareExchange4_critical]
    exact guarded_critical (avoids_exchange ..) one_ne_zero
  | .compareExchange none _ _ => exact .ret _
  | .compareExchange (some _) none _ => exact .ret _
  | .fetchSub (some target) operand => exact guarded_critical (avoids_subtract ..) one_ne_zero
  | .fetchSub none _ => exact .ret _
  | .loadWord address => exact .load _ id
  | .storeWord address value => exact .store _ _ _ nofun

/-- The core, with the main loop and the interrupts taken on top of it; each
access is a step. -/
abbrev core := interleaved Place.primask 0 Operation.body

/-- The same with each operation a step. -/
abbrev atomicCore := atomic Operation.body

variable {m : Place → Word} {codes : List (Client Operation Operation.Result)}
  {tr : List (Event Operation Operation.Result)}

/-- However interrupts nest, what the main loop and all handlers see is what
they see when the operations are atomic: C11's operations one after the other,
in the order they return, whose memory is there whenever interrupts are unmasked. -/
theorem operations_linearize (unmasked : m .primask = 0) :
    ((∃ s, core.Run ⟨m, codes.map .ready⟩ tr s) ↔ ∃ t, atomicCore.Run ⟨m, codes⟩ tr t) ∧
      ∀ s, core.Run ⟨m, codes.map .ready⟩ tr s →
        ∃ m', Legal Operation.atomically m tr m' ∧ (s.memory .primask = 0 → s.memory = m') := by
  constructor
  · exact interleaved_traces body_guarded unmasked codes tr
  · intro s run
    exact interleaved_legal body_guarded (fun op m _ => body_atomically op m) unmasked run

/-- Takes one from word 0, which holds five. -/
def takeOne : Client Operation Operation.Result :=
  .call (.fetchSub (some 0) 1) fun _ => .done

def five : Place → Word := Function.update (fun _ => 0) (.word 0) 5

/-- A handler takes one between the main loop's reading of PRIMASK and its
masking. -/
def interruptedTrace : List (Event Operation Operation.Result) :=
  [.entered takeOne, .returned (.fetchSub (some 0) 1) (5 : Word), .left,
    .returned (.fetchSub (some 0) 1) (4 : Word)]

def interruptedChoices : List (Choice Operation Operation.Result) :=
  [.go, .go, .interrupt takeOne, .go, .go, .go, .go, .go, .go, .go, .go, .go, .go, .go]

theorem interrupted_run : ∃ s, core.Run ⟨five, [takeOne].map .ready⟩ interruptedTrace s :=
  core.exec_reaches ⟨five, [takeOne].map .ready⟩ interruptedChoices _ rfl

theorem operations_linearize_interrupted :
    (∃ t, atomicCore.Run ⟨five, [takeOne]⟩ interruptedTrace t) ∧
      ∃ m', Legal Operation.atomically five interruptedTrace m' := by
  obtain ⟨traces, linearize⟩ := @operations_linearize five [takeOne] interruptedTrace rfl
  obtain ⟨s, run⟩ := interrupted_run
  obtain ⟨m', legal, -⟩ := linearize s run
  exact ⟨traces.mp ⟨s, run⟩, m', legal⟩

/-! ## Counting down -/

/-- The operation may store to the word, other than by subtracting. -/
def Operation.stores (address : Address) : Operation → Bool
  | .compareExchange object expected _ => object = some address || expected = some address
  | .fetchSub .. => false
  | .loadWord _ => false
  | .storeWord other _ => other = address

/-- What the fetch-subtracts that returned took from the word. -/
def subtracted (address : Address) : List (Event Operation Operation.Result) → Word
  | [] => 0
  | .returned (.fetchSub object operand) _ :: tr =>
    (if object = some address then operand else 0) + subtracted address tr
  | _ :: tr => subtracted address tr

theorem subtracted_cons (address : Address) (e : Event Operation Operation.Result)
    (tr : List (Event Operation Operation.Result)) :
    subtracted address (e :: tr) = subtracted address [e] + subtracted address tr := by
  match e with
  | .returned (.fetchSub ..) _ => simp [subtracted]
  | .returned (.compareExchange ..) _ => simp [subtracted]
  | .returned (.loadWord _) _ => simp [subtracted]
  | .returned (.storeWord ..) _ => simp [subtracted]
  | .entered _ => simp [subtracted]
  | .left => simp [subtracted]

theorem atomically_subtracts {address : Address} {op : Operation}
    (quiet : op.stores address = false) (m : Place → Word) (a : op.Result) :
    (op.atomically m).2 (.word address) =
      m (.word address) - subtracted address [.returned op a] := by
  match op with
  | .compareExchange (some object) (some expected) desired =>
    simp only [Operation.stores, Bool.or_eq_false_iff, decide_eq_false_iff_not,
      Option.some.injEq] at quiet
    simp only [Operation.atomically, subtracted]
    split
    · simp [Function.update_of_ne, Ne.symm quiet.1]
    · simp [Function.update_of_ne, Ne.symm quiet.2]
  | .compareExchange none _ _ => simp [Operation.atomically, subtracted]
  | .compareExchange (some _) none _ => simp [Operation.atomically, subtracted]
  | .fetchSub (some object) operand =>
    by_cases same : object = address
    · subst same
      simp [Operation.atomically, subtracted]
    · simp [Operation.atomically, subtracted, same, Ne.symm same]
  | .fetchSub none _ => simp [Operation.atomically, subtracted]
  | .loadWord _ => simp [Operation.atomically, subtracted]
  | .storeWord other value =>
    have other : address ≠ other := by simpa [Operation.stores, eq_comm] using quiet
    simp [Operation.atomically, subtracted, other]

theorem legal_counts {m' : Place → Word} (address : Address)
    (quiet : ∀ op a, .returned op a ∈ tr → op.stores address = false)
    (legal : Legal Operation.atomically m tr m') :
    m' (.word address) = m (.word address) - subtracted address tr ∧
      ∀ pre post x a, tr = pre ++ .returned (.fetchSub (some address) x) a :: post →
        a = m (.word address) - subtracted address pre := by
  induction tr generalizing m with
  | nil =>
    cases legal
    simp [subtracted]
  | cons e tr ih =>
    have later : ∀ op a, .returned op a ∈ tr → op.stores address = false :=
      fun op a mem => quiet op a (List.mem_cons_of_mem _ mem)
    -- the memory after the event, in which the rest is legal
    obtain ⟨m₁, rest, now⟩ : ∃ m₁, Legal Operation.atomically m₁ tr m' ∧
        m₁ (.word address) = m (.word address) - subtracted address [e] := by
      match e with
      | .returned op a =>
        exact ⟨_, legal.2, atomically_subtracts (quiet op a List.mem_cons_self) m a⟩
      | .entered _ => exact ⟨m, legal, by simp [subtracted]⟩
      | .left => exact ⟨m, legal, by simp [subtracted]⟩
    obtain ⟨final, returned⟩ := ih later rest
    constructor
    · rw [final, now, subtracted_cons address e tr, BitVec.sub_sub]
    · intro pre post x a whole
      cases pre with
      | nil =>
        obtain ⟨rfl, rfl⟩ := List.cons.inj whole
        have now : a = m (.word address) := legal.1
        simpa [subtracted] using now
      | cons e' pre =>
        obtain ⟨rfl, tail⟩ := List.cons.inj whole
        rw [returned pre post x a tail, now, subtracted_cons address e pre, BitVec.sub_sub]

/-- A word the code otherwise only reads loses exactly what the fetch-subtracts
on it took, whichever contexts they ran in, and each returned what was left. -/
theorem fetchSub_counts (unmasked : m .primask = 0)
    {s : Core Place Word (Context Place Word Operation Operation.Result)}
    (run : core.Run ⟨m, codes.map .ready⟩ tr s) (address : Address)
    (quiet : ∀ op a, .returned op a ∈ tr → op.stores address = false) :
    (s.memory .primask = 0 →
      s.memory (.word address) = m (.word address) - subtracted address tr) ∧
    ∀ pre post x a, tr = pre ++ .returned (.fetchSub (some address) x) a :: post →
      a = m (.word address) - subtracted address pre := by
  obtain ⟨m', legal, final⟩ :=
    interleaved_legal body_guarded (fun op m _ => body_atomically op m) unmasked run
  obtain ⟨left, returned⟩ := legal_counts address quiet legal
  exact ⟨fun open' => by rw [final open', left], returned⟩

theorem fetchSub_counts_interrupted :
    ∃ s, core.Run ⟨five, [takeOne].map .ready⟩ interruptedTrace s ∧
      s.memory .primask = 0 ∧ s.memory (.word 0) = 5 - 2 := by
  obtain ⟨s, _, run, shown⟩ := core.exec_shows ⟨five, [takeOne].map .ready⟩ interruptedChoices
    (fun reached => (reached.2, reached.1.memory .primask)) (interruptedTrace, 0) rfl
  obtain ⟨rfl, unmasked⟩ := Prod.mk.inj shown
  have quiet : ∀ op a, .returned op a ∈ interruptedTrace → op.stores 0 = false := by
    intro op a mem
    simp only [interruptedTrace, List.mem_cons] at mem
    rcases mem with h | h | h | h | h
    all_goals cases h
    all_goals rfl
  exact ⟨s, run, unmasked, (fetchSub_counts rfl run 0 quiet).1 unmasked⟩

end MspmBaremetal.AtomicHelpers
