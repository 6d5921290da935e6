import MspmBaremetal.Regmap
import MspmBaremetal.CommandQueue

/-!
# Command delivery

A register map whose read-write pages enqueue into command queues, and one
consumer for each queue. The register map's caller runs
`lib_regmap_command_queue_enqueue` to its end before it makes another call; the
consumers and the publishers interleave with it access by access.
-/

namespace MspmBaremetal.Delivery

open Regmap (Call World)

variable {σ κ : Type*}

structure System (σ κ : Type*) where
  world : World Unit σ κ
  queues : κ → CommandQueue
  /-- The enqueue in progress. -/
  enqueue : Option (κ × CommandQueue.Producer)
  consumers : κ → CommandQueue.Consumer

inductive Event (σ κ : Type*) where
  | called (call : Call)
  | map (event : Regmap.Event Unit σ κ)
  | queue (k : κ) (event : FifoEvent Command)
  /-- `lib_regmap_write_current` returned. -/
  | returned (result : WriteResult)

inductive Choice (σ κ : Type*) where
  | call (call : Call)
  | reader (spurious : Bool)
  | publish (s : σ) (data : Option (Nat → BitVec 8)) (length : BitVec 16)
  | publisher (s : σ) (spurious : Bool)
  | enqueue
  | pop (k : κ)
  | consumer (k : κ)

/-- The enqueue that a byte offered to a callback begins. The pointer it leaves
behind is private to the caller, so it has already advanced. -/
def begun (es : List (Regmap.Event Unit σ κ)) : Option (κ × CommandQueue.Producer) :=
  es.findSome? fun
    | .offered _ k address value => some (k, .loadWriteIndex ⟨address, value⟩)
    | _ => none

/-- What `lib_regmap_write_current` returns for a byte that no callback gets. -/
def unanswered (es : List (Regmap.Event Unit σ κ)) : List WriteResult :=
  es.filterMap fun
    | .ignored .. => some .ignored
    | _ => none

/-- What it returns after its callback. -/
def answer (queued : Bool) : WriteResult := if queued then .queued else .rejected

variable [DecidableEq σ]

/-- A step of the register map's caller. -/
def System.onMap (s : System σ κ) (choice : Regmap.Choice Unit σ) :
    Option (System σ κ × List (Event σ κ)) :=
  match s.enqueue with
  | some _ => none
  | none =>
    ((Regmap.machine Unit σ κ).step s.world choice).bind fun (world, es) =>
      some ({ s with world, enqueue := begun es },
        es.map .map ++ (unanswered es).map .returned)

/-- A step of a publisher. -/
def System.onPublisher (s : System σ κ) (choice : Regmap.Choice Unit σ) :
    Option (System σ κ × List (Event σ κ)) :=
  ((Regmap.machine Unit σ κ).step s.world choice).bind fun (world, es) =>
    some ({ s with world }, es.map .map)

/-- What follows an access of an enqueue. -/
def afterEnqueue (k : κ) : CommandQueue.Producer → Option (κ × CommandQueue.Producer)
  | .returned _ => none
  | p => some (k, p)

def machine (σ κ : Type*) [DecidableEq σ] [DecidableEq κ] :
    Machine (System σ κ) (Choice σ κ) (Event σ κ) where
  step s
    | .call c => (s.onMap (.call () c)).bind fun (t, es) => some (t, .called c :: es)
    | .reader spurious => s.onMap (.reader () spurious)
    | .publish snapshot data length => s.onPublisher (.publish snapshot data length)
    | .publisher snapshot spurious => s.onPublisher (.publisher snapshot spurious)
    | .enqueue =>
      s.enqueue.bind fun (k, p) => (p.step (s.queues k)).bind fun (queue, p, es) =>
        some ({ s with queues := Function.update s.queues k queue, enqueue := afterEnqueue k p },
          es.map (.queue k) ++ (p.result.map answer).toList.map .returned)
    | .pop k =>
      match s.consumers k with
      | .idle | .returned _ =>
        some ({ s with consumers := Function.update s.consumers k .loadReadIndex }, [])
      | _ => none
    | .consumer k =>
      ((s.consumers k).step (s.queues k)).bind fun (queue, c, es) =>
        some ({ s with queues := Function.update s.queues k queue,
                       consumers := Function.update s.consumers k c }, es.map (.queue k))

/-! ## What the calls write -/

omit [DecidableEq σ]

/-- The pointer of a register map and the bytes written through it so far. -/
structure Wire where
  pointer : BitVec 16
  writes : List Command

def Wire.call (wire : Wire) : Call → Wire
  | .setAddress address => { wire with pointer := address }
  | .beginRead | .endRead => wire
  | .readCurrent => { wire with pointer := wire.pointer + 1 }
  | .writeCurrent value =>
    { pointer := wire.pointer + 1, writes := wire.writes ++ [⟨wire.pointer, value⟩] }

def wireOf (calls : List Call) : Wire := calls.foldl Wire.call ⟨0, []⟩

/-- The byte a register map's event delivers or drops. -/
def writeOf : Regmap.Event Unit σ κ → Option Command
  | .offered _ _ address value | .ignored _ address value => some ⟨address, value⟩
  | _ => none

/-- The call that is not done yet when its caller stands at `reader`. -/
def Waits : Regmap.Reader → List Call → Prop
  | .idle, calls => calls = []
  | .release .return, calls => calls = [.beginRead] ∨ calls = [.endRead]
  | .release (.setAddress address), calls => calls = [.setAddress address]
  | .release (.acquire _), calls | .load _, calls | .exchange _ _, calls | .fetch, calls =>
    calls = [.readCurrent]
  | .release (.writeCurrent value), calls => calls = [.writeCurrent value]

/-- A call `c`, begun or going on at the pointer of `r`, gets to `next`: either
it is done, or it has changed nothing and waits. -/
structure Performs (r : Regmap σ κ) (c : Call)
    (next : Regmap σ κ × Regmap.Reader × List (Regmap.Event Unit σ κ)) : Prop where
  pages : next.1.pages = r.pages
  outcome : (next.2.1 = .idle ∧
      (⟨next.1.currentAddress, next.2.2.filterMap writeOf⟩ : Wire) =
        Wire.call ⟨r.currentAddress, []⟩ c) ∨
    (Waits next.2.1 [c] ∧ next.1.currentAddress = r.currentAddress ∧ next.2.2.filterMap writeOf = [])
  /-- A byte is offered to the callback of the page it was written to. -/
  targets : ∀ e ∈ next.2.2, ∀ command, writeOf e = some command →
    ∀ k, (∃ i, e = .offered i k command.address command.value) ↔ r.target command.address = some k

variable {r : Regmap σ κ}

theorem readUnmapped_performs (r : Regmap σ κ) :
    Performs r .readCurrent (Regmap.readUnmapped () r) where
  pages := rfl
  outcome := .inl ⟨rfl, rfl⟩
  targets := by simp [Regmap.readUnmapped, writeOf]

theorem write_performs (r : Regmap σ κ) (value : BitVec 8) :
    Performs r (.writeCurrent value) (Regmap.write () r value) where
  pages := rfl
  outcome := by
    refine .inl ⟨rfl, ?_⟩
    simp only [Regmap.write]
    split <;> rfl
  targets := by
    intro e he command hc k
    simp only [Regmap.write, List.mem_singleton] at he
    subst he
    split at hc
    · rename_i target offered
      cases hc
      simp [offered]
    · rename_i none
      cases hc
      simp [none]

theorem proceed_performs {c : Call} {rest : Regmap.Rest} (waits : Waits (.release rest) [c]) :
    Performs r c (Regmap.proceed () r rest) := by
  cases rest with
  | «return» =>
    refine ⟨rfl, .inl ⟨rfl, ?_⟩, by simp [Regmap.proceed]⟩
    rcases waits with same | same <;> cases same <;> rfl
  | setAddress address =>
    cases waits
    exact ⟨rfl, .inl ⟨rfl, rfl⟩, by simp [Regmap.proceed]⟩
  | acquire page =>
    cases waits
    cases page with
    | none => exact readUnmapped_performs r
    | some page =>
      simp only [Regmap.proceed]
      split
      · exact readUnmapped_performs r
      · exact ⟨rfl, .inr ⟨rfl, rfl, rfl⟩, by simp⟩
  | writeCurrent value =>
    cases waits
    exact write_performs r value

theorem endRead_performs {c : Call} {rest : Regmap.Rest} (waits : Waits (.release rest) [c]) :
    Performs r c (Regmap.endRead () r rest) := by
  unfold Regmap.endRead
  split
  · exact proceed_performs waits
  · exact ⟨rfl, .inr ⟨waits, rfl, rfl⟩, by simp⟩

theorem call_performs (r : Regmap σ κ) (c : Call) : Performs r c (Regmap.call () r c) := by
  cases c with
  | setAddress | writeCurrent => exact endRead_performs rfl
  | beginRead => exact endRead_performs (.inl rfl)
  | endRead => exact endRead_performs (.inr rfl)
  | readCurrent =>
    simp only [Regmap.call]
    split
    · split
      · exact ⟨rfl, .inr ⟨rfl, rfl, rfl⟩, by simp⟩
      · exact readUnmapped_performs r
    · exact endRead_performs rfl

theorem call_step_performs [DecidableEq σ] {w w' : World Unit σ κ} {c : Call}
    {es : List (Regmap.Event Unit σ κ)}
    (step : (Regmap.machine Unit σ κ).step w (.call () c) = some (w', es)) :
    w.reader () = .idle ∧ Performs (w.regmap ()) c (w'.regmap (), w'.reader (), es) := by
  have performs := call_performs (w.regmap ()) c
  simp only [Regmap.machine] at step
  split at step
  · rename_i idle
    generalize Regmap.call () (w.regmap ()) c = next at step performs
    cases step
    exact ⟨idle, by simpa using performs⟩
  · cases step

theorem tryAcquire_performs (r : Regmap σ κ) (p : Nat) (s : σ) (state : BitVec 32) :
    Performs r .readCurrent (Regmap.tryAcquire () r p s state) := by
  unfold Regmap.tryAcquire
  split
  · exact ⟨rfl, .inl ⟨rfl, rfl⟩, by simp [Regmap.readUnmapped, writeOf]⟩
  · exact ⟨rfl, .inr ⟨rfl, rfl, rfl⟩, by simp⟩

theorem target_congr {r' : Regmap σ κ} (pages : r'.pages = r.pages) : r'.target = r.target := by
  funext address
  simp only [Regmap.target, Regmap.findPage, pages]

theorem reader_performs [DecidableEq σ] {w w' : World Unit σ κ} {c : Call} {spurious : Bool}
    {es : List (Regmap.Event Unit σ κ)} (waits : Waits (w.reader ()) [c])
    (step : Regmap.Reader.step w () spurious = some (w', es)) :
    Performs (w.regmap ()) c (w'.regmap (), w'.reader (), es) := by
  cases Regmap.Reader.step_moves step with
  | released rest p s position latched target next goesOn =>
    subst goesOn
    rw [position] at waits
    have next := proceed_performs (r := { w.regmap () with
      latchedPage := none, latchedBuffer := false }) waits
    refine ⟨by simpa using next.pages, ?_, ?_⟩
    · rw [List.filterMap_cons_none (by rfl)]
      simpa using next.outcome
    · intro e he command hc k
      rcases List.mem_cons.mp he with rfl | he
      · cases hc
      · exact next.targets e he command hc k
  | tried p s position =>
    obtain rfl : c = .readCurrent := by
      rcases position with position | ⟨state, position⟩ <;> rw [position] at waits <;> cases waits <;> rfl
    simpa using tryAcquire_performs (w.regmap ()) p s (w.heap s).state
  | acquired p s position =>
    rw [position] at waits
    cases waits
    exact ⟨by simp, .inr ⟨by simp [Waits], by simp, rfl⟩, by simp [writeOf]⟩
  | fetched p s page position =>
    rw [position] at waits
    cases waits
    exact ⟨by simp, .inl ⟨by simp, by simp [writeOf, Wire.call]⟩, by simp [writeOf]⟩

theorem publisher_frame [DecidableEq σ] {w w' : World Unit σ κ} {s : σ} {spurious : Bool}
    {es : List (Regmap.Event Unit σ κ)}
    (step : Regmap.Publisher.step w s spurious = some (w', es)) :
    w'.regmap = w.regmap ∧ w'.reader = w.reader ∧ ∀ e ∈ es, writeOf e = none := by
  cases Regmap.Publisher.step_moves step with
  | refused | turned | published => exact ⟨rfl, rfl, by simp [Regmap.World.reject, writeOf]⟩
  | loaded | copied | retried => exact ⟨rfl, rfl, by simp⟩

end MspmBaremetal.Delivery
