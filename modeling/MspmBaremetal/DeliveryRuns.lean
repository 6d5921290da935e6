import MspmBaremetal.Delivery

/-!
# Delivery is ordered, complete and free of duplicates

`commands_delivered`: whatever the preemption, each queue gets the bytes written
to its pages in wire order, each with the pointer it was written at, what its
consumer pops is what it accepted, and every write returns what became of its byte.
-/

namespace MspmBaremetal.Delivery

open Regmap (Call World)

variable {σ κ : Type*} [DecidableEq κ]

/-! ## What a trace says -/

/-- The calls begun so far. -/
def calls (tr : List (Event σ κ)) : List Call :=
  tr.filterMap fun | .called c => some c | _ => none

def mapEvents (tr : List (Event σ κ)) : List (Regmap.Event Unit σ κ) :=
  tr.filterMap fun | .map e => some e | _ => none

def queueEvents (k : κ) (tr : List (Event σ κ)) : List (FifoEvent Command) :=
  tr.filterMap fun | .queue k' e => if k' = k then some e else none | _ => none

/-- The bytes offered to the callback of queue `k`. -/
def offers (k : κ) (es : List (Regmap.Event Unit σ κ)) : List Command :=
  es.filterMap fun
    | .offered _ k' address value => if k' = k then some ⟨address, value⟩ else none
    | _ => none

def ignoredOf : Regmap.Event Unit σ κ → Option Command
  | .ignored _ address value => some ⟨address, value⟩
  | _ => none

/-- The bytes written, with what became of each. -/
def outcomes (tr : List (Event σ κ)) : List (Command × WriteResult) :=
  tr.filterMap fun
    | .map e => (ignoredOf e).map (·, .ignored)
    | .queue _ (.accepted c) => some (c, .queued)
    | .queue _ (.refused c) => some (c, .rejected)
    | _ => none

/-- What the writes returned. -/
def results (tr : List (Event σ κ)) : List WriteResult :=
  tr.filterMap fun | .returned result => some result | _ => none

omit [DecidableEq κ] in
@[simp] theorem calls_append (l r : List (Event σ κ)) : calls (l ++ r) = calls l ++ calls r :=
  List.filterMap_append

omit [DecidableEq κ] in
@[simp] theorem mapEvents_append (l r : List (Event σ κ)) :
    mapEvents (l ++ r) = mapEvents l ++ mapEvents r := List.filterMap_append

@[simp] theorem queueEvents_append (k : κ) (l r : List (Event σ κ)) :
    queueEvents k (l ++ r) = queueEvents k l ++ queueEvents k r := List.filterMap_append

@[simp] theorem offers_append (k : κ) (l r : List (Regmap.Event Unit σ κ)) :
    offers k (l ++ r) = offers k l ++ offers k r := List.filterMap_append

omit [DecidableEq κ] in
@[simp] theorem outcomes_append (l r : List (Event σ κ)) :
    outcomes (l ++ r) = outcomes l ++ outcomes r := List.filterMap_append

omit [DecidableEq κ] in
@[simp] theorem results_append (l r : List (Event σ κ)) :
    results (l ++ r) = results l ++ results r := List.filterMap_append

omit [DecidableEq κ] in
@[simp] theorem calls_map (es : List (Regmap.Event Unit σ κ)) : calls (es.map .map) = [] := by
  simp [calls, List.filterMap_map]

omit [DecidableEq κ] in
@[simp] theorem mapEvents_map (es : List (Regmap.Event Unit σ κ)) :
    mapEvents (es.map .map) = es := by
  simp [mapEvents, List.filterMap_map]

@[simp] theorem queueEvents_map (k : κ) (es : List (Regmap.Event Unit σ κ)) :
    queueEvents k (es.map .map) = [] := by
  simp [queueEvents, List.filterMap_map]

omit [DecidableEq κ] in
@[simp] theorem calls_queue (k : κ) (es : List (FifoEvent Command)) :
    calls (es.map (.queue k) : List (Event σ κ)) = [] := by
  simp [calls, List.filterMap_map]

omit [DecidableEq κ] in
@[simp] theorem mapEvents_queue (k : κ) (es : List (FifoEvent Command)) :
    mapEvents (es.map (.queue k) : List (Event σ κ)) = [] := by
  simp [mapEvents, List.filterMap_map]

@[simp] theorem queueEvents_queue (k k' : κ) (es : List (FifoEvent Command)) :
    queueEvents k (es.map (.queue k') : List (Event σ κ)) = if k' = k then es else [] := by
  by_cases hk : k' = k
  · simp [queueEvents, List.filterMap_map, hk]
  · simp [queueEvents, List.filterMap_map, hk]

omit [DecidableEq κ] in
@[simp] theorem calls_called (c : Call) (tr : List (Event σ κ)) :
    calls (.called c :: tr) = c :: calls tr := rfl

omit [DecidableEq κ] in
@[simp] theorem mapEvents_called (c : Call) (tr : List (Event σ κ)) :
    mapEvents (.called c :: tr) = mapEvents tr := rfl

@[simp] theorem queueEvents_called (k : κ) (c : Call) (tr : List (Event σ κ)) :
    queueEvents k (.called c :: tr) = queueEvents k tr := rfl

omit [DecidableEq κ] in
@[simp] theorem calls_returned (rs : List WriteResult) :
    calls (rs.map .returned : List (Event σ κ)) = [] := by
  simp [calls, List.filterMap_map]

omit [DecidableEq κ] in
@[simp] theorem mapEvents_returned (rs : List WriteResult) :
    mapEvents (rs.map .returned : List (Event σ κ)) = [] := by
  simp [mapEvents, List.filterMap_map]

@[simp] theorem queueEvents_returned (k : κ) (rs : List WriteResult) :
    queueEvents k (rs.map .returned : List (Event σ κ)) = [] := by
  simp [queueEvents, List.filterMap_map]

omit [DecidableEq κ] in
@[simp] theorem outcomes_returned (rs : List WriteResult) :
    outcomes (rs.map .returned : List (Event σ κ)) = [] := by
  simp [outcomes, List.filterMap_map]

omit [DecidableEq κ] in
@[simp] theorem results_returned (rs : List WriteResult) :
    results (rs.map .returned : List (Event σ κ)) = rs := by
  simp [results, List.filterMap_map]

omit [DecidableEq κ] in
@[simp] theorem outcomes_called (c : Call) (tr : List (Event σ κ)) :
    outcomes (.called c :: tr) = outcomes tr := rfl

omit [DecidableEq κ] in
@[simp] theorem results_called (c : Call) (tr : List (Event σ κ)) :
    results (.called c :: tr) = results tr := rfl

omit [DecidableEq κ] in
@[simp] theorem outcomes_map (es : List (Regmap.Event Unit σ κ)) :
    outcomes (es.map .map) = (es.filterMap ignoredOf).map (·, .ignored) := by
  simp [outcomes, List.filterMap_map, List.map_filterMap]

omit [DecidableEq κ] in
@[simp] theorem results_map (es : List (Regmap.Event Unit σ κ)) : results (es.map .map) = [] := by
  simp [results, List.filterMap_map]

omit [DecidableEq κ] in
/-- A queue decides what becomes of a byte. -/
@[simp] theorem outcomes_queue (k : κ) (es : List (FifoEvent Command)) :
    outcomes (es.map (.queue k) : List (Event σ κ)) =
      (Fifo.decided es).map fun d => (d.1, answer d.2) := by
  induction es with
  | nil => rfl
  | cons e es ih =>
    simp only [outcomes, Fifo.decided] at ih
    cases e <;> simp [outcomes, Fifo.decided, answer, ih]

omit [DecidableEq κ] in
@[simp] theorem results_queue (k : κ) (es : List (FifoEvent Command)) :
    results (es.map (.queue k) : List (Event σ κ)) = [] := by
  simp [results, List.filterMap_map]

omit [DecidableEq κ] in
/-- What a step writes is ignored, or an enqueue of it begins. -/
theorem begun_writes {es : List (Regmap.Event Unit σ κ)} (once : (es.filterMap writeOf).length ≤ 1) :
    es.filterMap ignoredOf ++ ((begun es).bind (·.2.command)).toList = es.filterMap writeOf := by
  induction es with
  | nil => rfl
  | cons e es ih =>
    have later : (es.filterMap writeOf).length ≤ 1 := by
      refine Nat.le_trans ?_ once
      exact ((List.sublist_cons_self e es).filterMap writeOf).length_le
    cases e with
    | offered i k address value =>
      have nothing : es.filterMap writeOf = [] := by simpa [writeOf] using once
      have fewer := ih later
      rw [nothing, List.append_eq_nil_iff] at fewer
      have wrote : writeOf (.offered i k address value : Regmap.Event Unit σ κ) =
          some ⟨address, value⟩ := rfl
      rw [List.filterMap_cons_some wrote, List.filterMap_cons_none rfl, nothing, fewer.1]
      rfl
    | ignored i address value =>
      have rest := ih later
      simp only [begun] at rest
      simp [ignoredOf, writeOf, begun, rest]
    | _ => exact ih later

/-- A step of the register map begins an enqueue of just what it offers. -/
theorem begun_offers {es : List (Regmap.Event Unit σ κ)} (once : (es.filterMap writeOf).length ≤ 1)
    (k : κ) : offers k es = (match begun es with
      | some (k', p) => if k' = k then p.command.toList else []
      | none => []) := by
  induction es with
  | nil => rfl
  | cons e es ih =>
    cases e with
    | offered i k' address value =>
      have nothing : es.filterMap writeOf = [] := by
        simpa [writeOf] using once
      have noOffer : offers k es = [] := by
        apply List.filterMap_eq_nil_iff.mpr
        intro e he
        have none := List.filterMap_eq_nil_iff.mp nothing e he
        cases e with
        | offered => simp [writeOf] at none
        | _ => rfl
      simp only [offers] at noOffer
      by_cases hk : k' = k
      · simp [offers, begun, noOffer, hk, CommandQueue.Producer.command]
      · simp [offers, begun, noOffer, hk]
    | ignored =>
      have fewer : (es.filterMap writeOf).length ≤ 1 := by
        simp only [List.filterMap_cons, writeOf, List.length_cons] at once
        omega
      simpa [offers, begun] using ih fewer
    | _ => exact ih once

/-! ## The queue of one page -/

/-- Where the enqueue into queue `k` stands; returned if there is none. -/
def System.producer (s : System σ κ) (k : κ) : CommandQueue.Producer :=
  match s.enqueue with
  | some (k', p) => if k' = k then p else .returned true
  | none => .returned true

/-- An enqueue that returned is over, whatever it returned. -/
def finished : CommandQueue.Producer → CommandQueue.Producer
  | .returned _ => .returned true
  | p => p

theorem finished_command (p : CommandQueue.Producer) : (finished p).command = p.command := by
  cases p <;> rfl

theorem finished_sane {cap : BitVec 32} {queue : CommandQueue} {q : Fifo Command cap.toNat}
    {p : CommandQueue.Producer} (h : p.Sane queue q) : (finished p).Sane queue q := by
  cases p <;> exact h

/-- Queue `k` holds `q`, and what was offered to it was accepted or refused in
order, but for the command of an enqueue in progress. -/
structure Inv (k : κ) (cap : BitVec 32) (tr : List (Event σ κ)) (s : System σ κ)
    (q : Fifo Command cap.toNat) : Prop where
  fifo : (Fifo.machine Command cap.toNat).Run (Fifo.empty _ _) (queueEvents k tr) q
  represents : CommandQueue.Represents cap 0 (s.queues k) q
  producer : (s.producer k).Sane (s.queues k) q
  consumer : (s.consumers k).Sane (s.queues k) q
  offered : (Fifo.decided (queueEvents k tr)).map Prod.fst ++ (s.producer k).command.toList =
    offers k (mapEvents tr)

variable {k : κ} {cap : BitVec 32} {tr es : List (Event σ κ)} {s t : System σ κ}
  {q : Fifo Command cap.toNat}

/-- The register map's caller begins an enqueue, or none. -/
theorem Inv.map (h : Inv k cap tr s q) (idle : s.enqueue = none) (world : World Unit σ κ)
    {es : List (Regmap.Event Unit σ κ)} (once : (es.filterMap writeOf).length ≤ 1) :
    Inv k cap (tr ++ es.map .map) { s with world := world, enqueue := begun es } q where
  fifo := by simpa using h.fifo
  represents := h.represents
  producer := by
    have none : q.turnedAway = [] := by
      have sane := h.producer
      rw [System.producer, idle] at sane
      exact sane
    have fresh : ∀ c, begun es = some c → ∃ k' command, c = (k', .loadWriteIndex command) := by
      intro c hc
      obtain ⟨e, -, he⟩ := List.exists_of_findSome?_eq_some hc
      cases e with
      | offered i k' address value => exact ⟨k', ⟨address, value⟩, by simpa using he.symm⟩
      | _ => simp at he
    cases hb : begun es with
    | none => exact none
    | some c =>
      obtain ⟨k', command, rfl⟩ := fresh c hb
      simp only [System.producer]
      split
      · exact none
      · exact none
  consumer := h.consumer
  offered := by
    have before := h.offered
    simp only [System.producer, idle, CommandQueue.Producer.command, Option.toList_none,
      List.append_nil] at before
    simp only [queueEvents_append, queueEvents_map, List.append_nil, mapEvents_append,
      mapEvents_map, offers_append, before, begun_offers once]
    congr 1
    cases hb : begun es with
    | none => rfl
    | some c =>
      simp only [System.producer]
      split <;> rfl

/-- A publisher's step does not reach the queues. -/
theorem Inv.publisher (h : Inv k cap tr s q) {world : World Unit σ κ}
    {es : List (Regmap.Event Unit σ κ)} (nothing : ∀ e ∈ es, writeOf e = none) :
    Inv k cap (tr ++ es.map .map) { s with world := world } q where
  fifo := by simpa using h.fifo
  represents := h.represents
  producer := h.producer
  consumer := h.consumer
  offered := by
    have noOffer : offers k es = [] := by
      apply List.filterMap_eq_nil_iff.mpr
      intro e he
      have none := nothing e he
      cases e with
      | offered => simp [writeOf] at none
      | _ => rfl
    simpa [noOffer, System.producer] using h.offered

/-- An access of an enqueue. -/
theorem Inv.enqueue (h : Inv k cap tr s q) {k' : κ} {p p' : CommandQueue.Producer}
    {queue : CommandQueue} {es : List (FifoEvent Command)} (busy : s.enqueue = some (k', p))
    (step : p.step (s.queues k') = some (queue, p', es)) :
    ∃ q', Inv k cap (tr ++ es.map (.queue k'))
      { s with queues := Function.update s.queues k' queue, enqueue := afterEnqueue k' p' } q' := by
  have next : ∀ c, (System.mk s.world (Function.update s.queues k' queue) (afterEnqueue k' p')
      s.consumers).producer c = if k' = c then finished p' else .returned true := by
    intro c
    cases p' <;> simp [System.producer, afterEnqueue, finished]
  by_cases hk : k' = k
  · subst hk
    have hp : p.Sane (s.queues k') q := by simpa [System.producer, busy] using h.producer
    obtain ⟨q', effect, represents, hp', hc'⟩ :=
      CommandQueue.Producer.step_spec h.represents hp h.consumer step
    obtain ⟨c, hcommand, ends⟩ :=
      CommandQueue.Producer.step_ends h.represents.hasStorage h.represents.power step
    refine ⟨q', ?_⟩
    exact
      { fifo := by simpa using Fifo.run_extend h.fifo effect
        represents := by simpa using represents
        producer := by
          rw [next k', if_pos rfl]
          simpa using finished_sane hp'
        consumer := by simpa using hc'
        offered := by
          have before := h.offered
          simp only [System.producer, busy, if_true, hcommand, Option.toList_some] at before
          rw [next k', if_pos rfl, finished_command]
          simp only [queueEvents_append, queueEvents_queue, if_true, mapEvents_append,
            mapEvents_queue, List.append_nil, Fifo.decided_append, List.map_append, ← before]
          rcases ends with ⟨hc, undecided⟩ | ⟨rfl, rfl⟩ | ⟨rfl, rfl⟩
          · simp [undecided, hc]
          · simp [Fifo.decided, CommandQueue.Producer.command]
          · simp [Fifo.decided, CommandQueue.Producer.command] }
  · refine ⟨q, ?_⟩
    have elsewhere : s.producer k = .returned true := by simp [System.producer, busy, hk]
    exact
      { fifo := by simpa [hk] using h.fifo
        represents := by simpa [Ne.symm hk] using h.represents
        producer := by
          rw [next k, if_neg hk]
          simpa [Ne.symm hk, elsewhere] using h.producer
        consumer := by simpa [Ne.symm hk] using h.consumer
        offered := by
          rw [next k, if_neg hk]
          simpa [hk, elsewhere] using h.offered }

/-- An access of a pop. -/
theorem Inv.consume (h : Inv k cap tr s q) {k' : κ} {c' : CommandQueue.Consumer}
    {queue : CommandQueue} {es : List (FifoEvent Command)}
    (step : (s.consumers k').step (s.queues k') = some (queue, c', es)) :
    ∃ q', Inv k cap (tr ++ es.map (.queue k'))
      { s with queues := Function.update s.queues k' queue,
               consumers := Function.update s.consumers k' c' } q' := by
  by_cases hk : k' = k
  · subst hk
    obtain ⟨q', effect, represents, hp', hc'⟩ :=
      CommandQueue.Consumer.step_spec h.represents h.producer h.consumer step
    have undecided := CommandQueue.Consumer.step_undecided step
    refine ⟨q', ?_⟩
    exact
      { fifo := by simpa using Fifo.run_extend h.fifo effect
        represents := by simpa using represents
        producer := by simpa [System.producer] using hp'
        consumer := by simpa using hc'
        offered := by
          simpa [Fifo.decided_append, undecided, System.producer] using h.offered }
  · exact ⟨q,
      { fifo := by simpa [hk] using h.fifo
        represents := by simpa [Ne.symm hk] using h.represents
        producer := by simpa [Ne.symm hk, System.producer] using h.producer
        consumer := by simpa [Ne.symm hk] using h.consumer
        offered := by simpa [hk, System.producer] using h.offered }⟩

/-! ## The wire -/

/-- The calls in `done` have moved the pointer and written what the trace says;
the call in `waiting`, if any, has done nothing yet. -/
structure Wired (r₀ : Regmap σ κ) (tr : List (Event σ κ)) (s : System σ κ)
    (done waiting : List Call) : Prop where
  calls : calls tr = done ++ waiting
  waits : Waits (s.world.reader ()) waiting
  wire : (⟨(s.world.regmap ()).currentAddress, (mapEvents tr).filterMap writeOf⟩ : Wire) =
    wireOf done
  pages : (s.world.regmap ()).pages = r₀.pages
  offers : ∀ k, offers k (mapEvents tr) =
    ((mapEvents tr).filterMap writeOf).filter fun c => r₀.target c.address = some k

theorem Wire.call_writes (pointer : BitVec 16) (writes : List Command) (c : Call) :
    Wire.call ⟨pointer, writes⟩ c =
      ⟨(Wire.call ⟨pointer, []⟩ c).pointer, writes ++ (Wire.call ⟨pointer, []⟩ c).writes⟩ := by
  cases c <;> simp [Wire.call]

omit [DecidableEq κ] in
theorem Performs.once {r : Regmap σ κ} {c : Call}
    {next : Regmap σ κ × Regmap.Reader × List (Regmap.Event Unit σ κ)} (h : Performs r c next) :
    (next.2.2.filterMap writeOf).length ≤ 1 := by
  rcases h.outcome with ⟨-, done⟩ | ⟨-, -, nothing⟩
  · rw [show next.2.2.filterMap writeOf = (Wire.call ⟨r.currentAddress, []⟩ c).writes from
      congrArg Wire.writes done]
    cases c <;> simp [Wire.call]
  · simp [nothing]

theorem offers_targets {r : Regmap σ κ} {es : List (Regmap.Event Unit σ κ)}
    (targets : ∀ e ∈ es, ∀ command, writeOf e = some command → ∀ k,
      (∃ i, e = .offered i k command.address command.value) ↔ r.target command.address = some k)
    (k : κ) :
    offers k es = (es.filterMap writeOf).filter fun c => r.target c.address = some k := by
  induction es with
  | nil => rfl
  | cons e es ih =>
    have rest := ih fun e he => targets e (by simp [he])
    simp only [offers] at rest
    cases e with
    | offered i k' address value =>
      have this := targets (.offered i k' address value) (by simp) ⟨address, value⟩ rfl
      have hit := (this k').mp ⟨i, rfl⟩
      by_cases hk : k' = k
      · subst hk
        simp [offers, writeOf, rest, hit]
      · simp [offers, writeOf, rest, hit, hk]
    | ignored i address value =>
      have this := targets (.ignored i address value) (by simp) ⟨address, value⟩ rfl k
      have miss : r.target address ≠ some k := fun hit => by
        obtain ⟨j, same⟩ := this.mpr hit
        cases same
      simp [offers, writeOf, rest, miss]
    | _ => exact rest

variable {r₀ : Regmap σ κ} {done waiting : List Call}

theorem Wired.performs (h : Wired r₀ tr s done waiting) {c : Call} {world : World Unit σ κ}
    {enqueue : Option (κ × CommandQueue.Producer)} {es : List (Regmap.Event Unit σ κ)}
    (performs : Performs (s.world.regmap ()) c (world.regmap (), world.reader (), es))
    {tr' : List (Event σ κ)} (called : Delivery.calls tr' = done ++ [c])
    (events : mapEvents tr' = mapEvents tr ++ es) :
    ∃ done' waiting', Wired r₀ tr' { s with world := world, enqueue := enqueue } done' waiting' := by
  have offers' : ∀ k, Delivery.offers k (mapEvents tr') =
      ((mapEvents tr').filterMap writeOf).filter fun c => r₀.target c.address = some k := by
    intro k
    have here := offers_targets performs.targets k
    rw [target_congr h.pages] at here
    rw [events, offers_append, h.offers k, here, List.filterMap_append, List.filter_append]
  have wire := h.wire
  rcases performs.outcome with ⟨idle, outcome⟩ | ⟨waits, still, nothing⟩
  · have atRest : Waits (world.reader ()) [] := by
      rw [show world.reader () = .idle from idle]
      rfl
    refine ⟨done ++ [c], [], by simpa using called, atRest, ?_, performs.pages.trans h.pages,
      offers'⟩
    · rw [wireOf, List.foldl_append, ← wireOf, ← wire, List.foldl_cons, List.foldl_nil,
        Wire.call_writes, ← outcome, events, List.filterMap_append]
  · refine ⟨done, [c], called, waits, ?_, performs.pages.trans h.pages, offers'⟩
    rw [← wire, events, List.filterMap_append, nothing, List.append_nil]
    exact congrArg (Wire.mk · _) still

theorem waits_one {reader : Regmap.Reader} (h : Waits reader waiting) (busy : reader ≠ .idle) :
    ∃ c, waiting = [c] := by
  cases reader with
  | idle => exact absurd rfl busy
  | release rest =>
    cases rest with
    | «return» => rcases h with h | h <;> exact ⟨_, h⟩
    | _ => exact ⟨_, h⟩
  | _ => exact ⟨_, h⟩

/-! ## Every run -/

variable [DecidableEq σ] {caps : κ → BitVec 32}

/-- The command of the enqueue in progress. -/
def System.pending (s : System σ κ) : List Command := (s.enqueue.bind (·.2.command)).toList

/-- The writes, but for the one of an enqueue in progress, have returned what
became of their bytes. -/
structure Answered (tr : List (Event σ κ)) (s : System σ κ) : Prop where
  writes : (outcomes tr).map Prod.fst ++ s.pending = (mapEvents tr).filterMap writeOf
  results : results tr = (outcomes tr).map Prod.snd

omit [DecidableEq κ] [DecidableEq σ] in
theorem Answered.map (h : Answered tr s) (idle : s.enqueue = none) (world : World Unit σ κ)
    {es : List (Regmap.Event Unit σ κ)} (once : (es.filterMap writeOf).length ≤ 1) :
    Answered (tr ++ (es.map .map ++ (unanswered es).map .returned))
      { s with world := world, enqueue := begun es } where
  writes := by
    have before := h.writes
    rw [System.pending, idle, Option.bind_none, Option.toList_none, List.append_nil] at before
    simp [before, ← begun_writes once, System.pending, Function.comp_def]
  results := by
    have same : unanswered es = (es.filterMap ignoredOf).map fun _ => .ignored := by
      rw [unanswered, List.map_filterMap]
      congr 1
      funext e
      cases e <;> rfl
    rw [results_append, results_append, results_map, results_returned, List.nil_append, h.results,
      outcomes_append, outcomes_append, outcomes_map, outcomes_returned, List.append_nil,
      List.map_append, same, List.map_map]
    rfl

omit [DecidableEq κ] [DecidableEq σ] in
/-- An enqueue returns what the queue decides. -/
theorem Answered.enqueue (h : Answered tr s) {k : κ} {p p' : CommandQueue.Producer}
    (busy : s.enqueue = some (k, p)) {c : Command} (command : p.command = some c)
    {es : List (FifoEvent Command)} (ends : p'.command = some c ∧ Fifo.decided es = [] ∨
      p' = .returned true ∧ es = [.accepted c] ∨ p' = .returned false ∧ es = [.refused c])
    (queues : κ → CommandQueue) :
    Answered (tr ++ (es.map (.queue k) ++ (p'.result.map answer).toList.map .returned))
      { s with queues := queues, enqueue := afterEnqueue k p' } := by
  have writes := h.writes
  rw [System.pending, busy, Option.bind_some, command] at writes
  have decides : outcomes (tr ++ (es.map (.queue k) ++ (p'.result.map answer).toList.map .returned)) =
      outcomes tr ++ (Fifo.decided es).map fun d => (d.1, answer d.2) := by simp
  have quiet : mapEvents (tr ++ (es.map (.queue k) ++ (p'.result.map answer).toList.map .returned)) =
      mapEvents tr := by simp
  have returns : Delivery.results (tr ++ (es.map (.queue k) ++ (p'.result.map answer).toList.map .returned)) =
      Delivery.results tr ++ (p'.result.map answer).toList := by simp
  rcases ends with ⟨going, undecided⟩ | ⟨rfl, rfl⟩ | ⟨rfl, rfl⟩
  · have unfinished : p'.result = none ∧ afterEnqueue k p' = some (k, p') := by
      cases p' with
      | returned => cases going
      | _ => exact ⟨rfl, rfl⟩
    refine ⟨?_, ?_⟩
    · rw [decides, quiet, undecided]
      simpa [unfinished, System.pending, going] using writes
    · rw [decides, returns, undecided]
      simpa [unfinished] using h.results
  all_goals
    refine ⟨?_, ?_⟩
    · rw [decides, quiet]
      simpa [Fifo.decided, System.pending, afterEnqueue] using writes
    · rw [decides, returns]
      simp [Fifo.decided, CommandQueue.Producer.result, h.results]

/-- What a run with trace `tr` has led to. -/
structure Reached (r₀ : Regmap σ κ) (caps : κ → BitVec 32) (tr : List (Event σ κ))
    (s : System σ κ) : Prop where
  queue : ∀ k, ∃ q, Inv k (caps k) tr s q
  wire : ∃ done waiting, Wired r₀ tr s done waiting
  answered : Answered tr s

theorem Reached.call (h : Reached r₀ caps tr s) (idle : s.enqueue = none) {c : Call}
    {world : World Unit σ κ} {es : List (Regmap.Event Unit σ κ)}
    (step : (Regmap.machine Unit σ κ).step s.world (.call () c) = some (world, es)) :
    Reached r₀ caps (tr ++ .called c :: (es.map .map ++ (unanswered es).map .returned))
      { s with world := world, enqueue := begun es } := by
  obtain ⟨atRest, performs⟩ := call_step_performs step
  obtain ⟨done, waiting, wired⟩ := h.wire
  obtain rfl : waiting = [] := by
    have waits := wired.waits
    rw [atRest] at waits
    exact waits
  have old := wired.calls
  rw [List.append_nil] at old
  refine ⟨?_, wired.performs performs (by simp [old]) (by simp), ?_⟩
  · intro k
    obtain ⟨q, inv⟩ := h.queue k
    have next := inv.map idle world performs.once
    exact ⟨q, { next with
      fifo := by simpa using next.fifo
      offered := by simpa using next.offered }⟩
  · have next := h.answered.map idle world performs.once
    exact ⟨by simpa using next.writes, by simpa using next.results⟩

theorem Reached.reader (h : Reached r₀ caps tr s) (idle : s.enqueue = none) {spurious : Bool}
    {world : World Unit σ κ} {es : List (Regmap.Event Unit σ κ)}
    (step : (Regmap.machine Unit σ κ).step s.world (.reader () spurious) = some (world, es)) :
    Reached r₀ caps (tr ++ (es.map .map ++ (unanswered es).map .returned))
      { s with world := world, enqueue := begun es } := by
  obtain ⟨done, waiting, wired⟩ := h.wire
  have busy : s.world.reader () ≠ .idle := by
    intro atRest
    simp [Regmap.machine, Regmap.Reader.step, atRest] at step
  obtain ⟨c, rfl⟩ := waits_one wired.waits busy
  have performs := reader_performs wired.waits step
  refine ⟨?_, wired.performs performs (by simpa using wired.calls) (by simp),
    h.answered.map idle world performs.once⟩
  intro k
  obtain ⟨q, inv⟩ := h.queue k
  have next := inv.map idle world performs.once
  exact ⟨q, { next with
    fifo := by simpa using next.fifo
    offered := by simpa using next.offered }⟩

omit [DecidableEq σ] in
theorem Reached.publisher (h : Reached r₀ caps tr s) {world : World Unit σ κ}
    {es : List (Regmap.Event Unit σ κ)} (regmap : world.regmap = s.world.regmap)
    (reader : world.reader = s.world.reader) (nothing : ∀ e ∈ es, writeOf e = none) :
    Reached r₀ caps (tr ++ es.map .map) { s with world := world } := by
  obtain ⟨done, waiting, wired⟩ := h.wire
  have noWrite : es.filterMap writeOf = [] := List.filterMap_eq_nil_iff.mpr nothing
  refine ⟨?_, ⟨done, waiting, ?_⟩, ?_⟩
  · intro k
    obtain ⟨q, inv⟩ := h.queue k
    exact ⟨q, inv.publisher nothing⟩
  · exact
      { calls := by simpa using wired.calls
        waits := by simpa [reader] using wired.waits
        wire := by simpa [regmap, noWrite] using wired.wire
        pages := by simpa [regmap] using wired.pages
        offers := by
          intro k
          have none : offers k es = [] := by
            rw [offers_targets (r := r₀) (fun e he command hc => by simp [nothing e he] at hc) k,
              noWrite]
            rfl
          simpa [none, noWrite] using wired.offers k }
  · have ignored : es.filterMap ignoredOf = [] := by
      apply List.filterMap_eq_nil_iff.mpr
      intro e he
      have none := nothing e he
      cases e with
      | ignored => simp [writeOf] at none
      | _ => rfl
    exact ⟨by simpa [noWrite, ignored, System.pending] using h.answered.writes,
      by simpa [ignored] using h.answered.results⟩

omit [DecidableEq σ] in
/-- A step on the queues' side leaves the wire alone. -/
theorem Wired.queue (h : Wired r₀ tr s done waiting) {queues : κ → CommandQueue}
    {enqueue : Option (κ × CommandQueue.Producer)} {consumers : κ → CommandQueue.Consumer}
    {tr' : List (Event σ κ)} (called : Delivery.calls tr' = Delivery.calls tr)
    (events : mapEvents tr' = mapEvents tr) :
    Wired r₀ tr' { s with queues := queues, enqueue := enqueue, consumers := consumers }
      done waiting where
  calls := called.trans h.calls
  waits := h.waits
  wire := events ▸ h.wire
  pages := h.pages
  offers := events ▸ h.offers

theorem reached_step (h : Reached r₀ caps tr s) {choice : Choice σ κ}
    (step : (machine σ κ).step s choice = some (t, es)) : Reached r₀ caps (tr ++ es) t := by
  obtain ⟨done, waiting, wired⟩ := h.wire
  cases choice with
  | call c =>
    simp only [machine, System.onMap] at step
    split at step
    · simp at step
    · simp only [Option.bind_eq_some_iff, Option.some.injEq, Prod.mk.injEq] at step
      obtain ⟨⟨u, fs⟩, ⟨⟨world, ms⟩, step, rfl, rfl⟩, rfl, rfl⟩ := step
      exact h.call (by assumption) step
  | reader spurious =>
    simp only [machine, System.onMap] at step
    split at step
    · simp at step
    · simp only [Option.bind_eq_some_iff, Option.some.injEq, Prod.mk.injEq] at step
      obtain ⟨⟨world, ms⟩, step, rfl, rfl⟩ := step
      exact h.reader (by assumption) step
  | publish snapshot data length =>
    simp only [machine, System.onPublisher, Option.bind_eq_some_iff, Option.some.injEq,
      Prod.mk.injEq] at step
    obtain ⟨⟨world, ms⟩, step, rfl, rfl⟩ := step
    simp only [Regmap.machine] at step
    split at step <;> cases step
    exact h.publisher rfl rfl (by simp)
  | publisher snapshot spurious =>
    simp only [machine, System.onPublisher, Option.bind_eq_some_iff, Option.some.injEq,
      Prod.mk.injEq] at step
    obtain ⟨⟨world, ms⟩, step, rfl, rfl⟩ := step
    obtain ⟨regmap, reader, nothing⟩ := publisher_frame step
    exact h.publisher regmap reader nothing
  | enqueue =>
    simp only [machine, Option.bind_eq_some_iff, Option.some.injEq, Prod.mk.injEq] at step
    obtain ⟨⟨k', p⟩, busy, ⟨queue, p', fs⟩, step, rfl, rfl⟩ := step
    refine ⟨?_, ⟨done, waiting, wired.queue (by simp) (by simp)⟩, ?_⟩
    · intro k
      obtain ⟨q, inv⟩ := h.queue k
      obtain ⟨q', next⟩ := inv.enqueue busy step
      exact ⟨q', { next with
        fifo := by simpa using next.fifo
        offered := by simpa using next.offered }⟩
    · obtain ⟨q, inv⟩ := h.queue k'
      obtain ⟨c, command, ends⟩ :=
        CommandQueue.Producer.step_ends inv.represents.hasStorage inv.represents.power step
      exact h.answered.enqueue busy command ends _
  | pop k' =>
    simp only [machine] at step
    have next : Reached r₀ caps tr
        { s with consumers := Function.update s.consumers k' .loadReadIndex } := by
      refine ⟨?_, ⟨done, waiting, wired.queue rfl rfl⟩, ⟨h.answered.writes, h.answered.results⟩⟩
      intro k
      obtain ⟨q, inv⟩ := h.queue k
      refine ⟨q, { inv with consumer := ?_ }⟩
      by_cases hk : k = k'
      · subst hk
        simp [CommandQueue.Consumer.Sane]
      · simpa [hk] using inv.consumer
    split at step
    · cases step
      simpa using next
    · cases step
      simpa using next
    · cases step
  | consumer k' =>
    simp only [machine, Option.bind_eq_some_iff, Option.some.injEq, Prod.mk.injEq] at step
    obtain ⟨⟨queue, c', fs⟩, step, rfl, rfl⟩ := step
    refine ⟨?_, ⟨done, waiting, wired.queue (by simp) (by simp)⟩, ?_⟩
    · intro k
      obtain ⟨q, inv⟩ := h.queue k
      exact inv.consume step
    · have undecided := CommandQueue.Consumer.step_undecided step
      exact ⟨by simpa [undecided, System.pending] using h.answered.writes,
        by simpa [undecided] using h.answered.results⟩

/-- A register map and its queues as initialised, with equal queue indices and
no call in progress. -/
def System.start (world : World Unit σ κ) (queues : κ → CommandQueue) (index : κ → BitVec 32) :
    System σ κ where
  world
  queues k := { queues k with writeIndex := index k, readIndex := index k }
  enqueue := none
  consumers _ := .idle

theorem run_reached {world : World Unit σ κ} {given : Option (Regmap σ κ)}
    {pages : Option (List (Page σ κ))} {queues : κ → CommandQueue} {index : κ → BitVec 32}
    (hmap : Regmap.init world.heap given pages = some (world.regmap ()))
    (idle : world.reader () = .idle)
    (hqueues : ∀ k, ∃ given storage, CommandQueue.init given storage (caps k) = some (queues k))
    (run : (machine σ κ).Run (.start world queues index) tr s) :
    Reached (world.regmap ()) caps tr s := by
  refine Machine.Run.invariant (P := fun tr s => Reached (world.regmap ()) caps tr s) ?_ ?_ run
  · refine ⟨?_, ?_, rfl, rfl⟩
    · intro k
      obtain ⟨given, storage, hqueue⟩ := hqueues k
      exact ⟨Fifo.empty _ _,
        { fifo := .start
          represents := CommandQueue.init_represents hqueue (index k)
          producer := rfl
          consumer := trivial
          offered := rfl }⟩
    · refine ⟨[], [], ?_⟩
      have zero : (world.regmap ()).currentAddress = 0 := by
        simp only [Regmap.init] at hmap
        split at hmap
        · split at hmap
          · rw [← Option.some.inj hmap]
          · cases hmap
        · cases hmap
      exact
        { calls := rfl
          waits := by simp [System.start, idle, Waits]
          wire := by simp [System.start, zero, mapEvents, wireOf]
          pages := rfl
          offers := fun k => rfl }
  · intro tr s choice es t reached step
    exact reached_step reached step

/-- What became of the bytes written to queue `k`'s pages in a run with trace
`tr` that reached `s`, from the register map `r₀`. -/
structure Delivers (r₀ : Regmap σ κ) (cap : BitVec 32) (tr : List (Event σ κ)) (s : System σ κ)
    (k : κ) : Prop where
  order : Fifo.accepted (queueEvents k tr) =
    Fifo.popped (queueEvents k tr) ++ (s.queues k).queued
  /-- The queue accepted or refused what it was offered, in order, but for the
  command of an enqueue in progress. -/
  decided : (Fifo.decided (queueEvents k tr)).map Prod.fst ++ (s.producer k).command.toList =
    offers k (mapEvents tr)
  accepted : Fifo.accepted (queueEvents k tr) =
    ((Fifo.decided (queueEvents k tr)).filter Prod.snd).map Prod.fst
  /-- It was offered what the calls wrote to its pages, each byte at the pointer
  it was written at; the last call may not have got there yet. -/
  wire : ∃ done waiting, calls tr = done ++ waiting ∧ Waits (s.world.reader ()) waiting ∧
    (s.world.regmap ()).currentAddress = (wireOf done).pointer ∧
    (outcomes tr).map Prod.fst ++ s.pending = (wireOf done).writes ∧
    offers k (mapEvents tr) =
      (wireOf done).writes.filter fun c => r₀.target c.address = some k
  /-- The writes return what became of their bytes, in wire order. -/
  results : results tr = (outcomes tr).map Prod.snd
  enqueueReturns : ∀ p queue p' es, s.enqueue = some (k, p) →
    p.step (s.queues k) = some (queue, p', es) →
      ∃ c, p.command = some c ∧ Fifo.decided es = p'.result.toList.map (c, ·)
  popReturns : ∀ queue c' es, (s.consumers k).step (s.queues k) = some (queue, c', es) →
    es = c'.result.toList.map (·.elim .empty .popped)
  refusedWhenFull : ∃ pending, Fifo.full (queueEvents k tr) =
    Fifo.refused (queueEvents k tr) ++ pending ∧ pending.length ≤ 1
  fullOnlyAtCapacity : ∀ choice t es c, (machine σ κ).step s choice = some (t, es) →
    .queue k (.full c) ∈ es → (s.queues k).queued.length = cap.toNat ∧
      ∃ w, s.enqueue = some (k, .loadReadIndex c w)
  count : BitVec.ofNat 32 (offers k (mapEvents tr)).length =
    BitVec.ofNat 32 (Fifo.popped (queueEvents k tr)).length +
      ((s.queues k).writeIndex - (s.queues k).readIndex) + (s.queues k).droppedCount +
      BitVec.ofNat 32 (s.producer k).command.toList.length

theorem Inv.full (h : Inv k cap tr s q) {choice : Choice σ κ} {c : Command}
    (step : (machine σ κ).step s choice = some (t, es)) (full : .queue k (.full c) ∈ es) :
    q.items.length = cap.toNat ∧ ∃ w, s.enqueue = some (k, .loadReadIndex c w) := by
  cases choice with
  | call call =>
    simp only [machine, System.onMap] at step
    split at step
    · simp at step
    · simp only [Option.bind_eq_some_iff, Option.some.injEq, Prod.mk.injEq] at step
      obtain ⟨⟨u, fs⟩, ⟨⟨world, ms⟩, -, -, rfl⟩, -, rfl⟩ := step
      simp at full
  | reader spurious =>
    simp only [machine, System.onMap] at step
    split at step
    · simp at step
    · simp only [Option.bind_eq_some_iff, Option.some.injEq, Prod.mk.injEq] at step
      obtain ⟨⟨world, ms⟩, -, -, rfl⟩ := step
      simp at full
  | publish | publisher =>
    simp only [machine, System.onPublisher, Option.bind_eq_some_iff, Option.some.injEq,
      Prod.mk.injEq] at step
    obtain ⟨⟨world, ms⟩, -, -, rfl⟩ := step
    simp at full
  | enqueue =>
    simp only [machine, Option.bind_eq_some_iff, Option.some.injEq, Prod.mk.injEq] at step
    obtain ⟨⟨k', p⟩, busy, ⟨queue, p', fs⟩, step, rfl, rfl⟩ := step
    obtain ⟨he, rfl⟩ : .full c ∈ fs ∧ k' = k := by simpa using full
    have hp : p.Sane (s.queues k') q := by simpa [System.producer, busy] using h.producer
    obtain ⟨w, rfl⟩ := CommandQueue.Producer.step_full step he
    obtain ⟨q', hidden | effect, -⟩ :=
      CommandQueue.Producer.step_spec h.represents hp h.consumer step
    · simp [hidden.1] at he
    · cases effect with
      | full a noRoom => exact ⟨noRoom, w, busy⟩
      | _ => simp at he
  | pop k' =>
    simp only [machine] at step
    split at step <;> cases step <;> simp at full
  | consumer k' =>
    simp only [machine, Option.bind_eq_some_iff, Option.some.injEq, Prod.mk.injEq] at step
    obtain ⟨⟨queue, c', fs⟩, step, rfl, rfl⟩ := step
    obtain ⟨e, he, same⟩ := List.mem_map.mp full
    cases same
    rcases CommandQueue.Consumer.step_events step with rfl | rfl | ⟨command, rfl⟩ <;> simp at he

/-- **Command delivery is ordered, complete and free of duplicates.** For every
accepted page table, whatever is called and however the queues' consumers and
the publishers are interleaved with it. -/
theorem commands_delivered {world : World Unit σ κ} {given : Option (Regmap σ κ)}
    {pages : Option (List (Page σ κ))} {queues : κ → CommandQueue}
    (hmap : Regmap.init world.heap given pages = some (world.regmap ()))
    (idle : world.reader () = .idle)
    (hqueues : ∀ k, ∃ given storage, CommandQueue.init given storage (caps k) = some (queues k))
    (index : κ → BitVec 32) (run : (machine σ κ).Run (.start world queues index) tr s) (k : κ) :
    Delivers (world.regmap ()) (caps k) tr s k := by
  have reached := run_reached hmap idle hqueues run
  obtain ⟨q, inv⟩ := reached.queue k
  obtain ⟨done, waiting, wired⟩ := reached.wire
  have order := Fifo.accepted_eq inv.fifo
  have full := Fifo.full_eq inv.fifo
  have dropped := Fifo.dropped_eq inv.fifo
  simp only [Fifo.empty, List.nil_append, Nat.zero_add] at order full dropped
  have power := inv.represents.power
  refine ⟨?_, inv.offered, Fifo.accepted_decided _, ?_, reached.answered.results, ?_, ?_,
    ⟨q.turnedAway, full, ?_⟩, ?_, ?_⟩
  · rw [inv.represents.queued_eq, order]
  · refine ⟨done, waiting, wired.calls, wired.waits, congrArg Wire.pointer wired.wire, ?_, ?_⟩
    · rw [reached.answered.writes, ← wired.wire]
    · rw [wired.offers k, ← wired.wire]
  · exact fun _ _ _ _ _ => CommandQueue.Producer.step_returns inv.represents.hasStorage power
  · exact fun _ _ _ => CommandQueue.Consumer.step_ends inv.represents.hasStorage power
  · exact inv.producer.turnedAway
  · intro choice t es c step found
    rw [inv.represents.queued_eq]
    exact inv.full step found
  · have lengths := congrArg List.length inv.offered
    have accepted := congrArg List.length order
    simp only [List.length_append, List.length_map, Fifo.decided_length] at lengths accepted
    have stored : (s.queues k).writeIndex - (s.queues k).readIndex =
        BitVec.ofNat 32 q.items.length := by
      rw [← inv.represents.holds.length_eq, BitVec.ofNat_toNat, BitVec.setWidth_eq]
    rw [stored, inv.represents.dropped, dropped, show (0 : BitVec 32) = BitVec.ofNat 32 0 from rfl,
      ← BitVec.ofNat_add, ← BitVec.ofNat_add, ← BitVec.ofNat_add, ← BitVec.ofNat_add]
    exact congrArg _ (by omega)

/-- A register map with one read-write page of two bytes. -/
def controlPage : World Unit Unit Unit where
  heap _ := { buffers := fun _ => ⟨true, fun _ => 0⟩, length := 2, state := 0,
              publishRejectedCount := 0 }
  regmap _ := ⟨[⟨0x0200, 2, .readWrite, some (), some ()⟩], 0, none, false⟩
  reader _ := .idle
  publisher _ := .idle

/-- A queue of one slot. -/
def oneSlot : CommandQueue :=
  { hasStorage := true, storage := fun _ => ⟨0, 0⟩, capacity := 1, writeIndex := 0, readIndex := 0,
    droppedCount := 0 }

/-- One slot, with indices about to wrap: the second byte finds it taken and is
refused, though its consumer empties the slot before the refusal. -/
theorem commands_delivered_wrapped :
    ∃ s tr, (machine Unit Unit).Run (.start controlPage (fun _ => oneSlot) fun _ => 0xFFFFFFFF) tr s ∧
      queueEvents () tr = [.accepted ⟨0x0200, 0xa1⟩, .full ⟨0x0201, 0xa2⟩,
        .popped ⟨0x0200, 0xa1⟩, .refused ⟨0x0201, 0xa2⟩] ∧
      results tr = [.queued, .rejected] ∧ Delivers (controlPage.regmap ()) 1 tr s () := by
  obtain ⟨s, tr, run, shown⟩ := Machine.exec_shows (machine Unit Unit)
    (.start controlPage (fun _ => oneSlot) fun _ => 0xFFFFFFFF)
    [.call (.setAddress 0x0200), .call (.writeCurrent 0xa1), .enqueue, .enqueue, .enqueue, .enqueue,
      .enqueue, .call (.writeCurrent 0xa2), .enqueue, .enqueue, .pop (), .consumer (), .consumer (),
      .consumer (), .consumer (), .consumer (), .enqueue, .enqueue]
    (fun reached => (queueEvents () reached.2, results reached.2))
    ([.accepted ⟨0x0200, 0xa1⟩, .full ⟨0x0201, 0xa2⟩, .popped ⟨0x0200, 0xa1⟩,
      .refused ⟨0x0201, 0xa2⟩], [.queued, .rejected]) (by decide +kernel)
  obtain ⟨events, returned⟩ := Prod.mk.inj shown
  have hmap : Regmap.init controlPage.heap (some (controlPage.regmap ()))
      (some [⟨0x0200, 2, .readWrite, some (), some ()⟩]) = some (controlPage.regmap ()) := rfl
  have hqueue : CommandQueue.init (some oneSlot) (some fun _ => ⟨0, 0⟩) 1 = some oneSlot := rfl
  have hqueues : ∀ k : Unit, ∃ given storage, CommandQueue.init given storage
      ((fun _ => 1 : Unit → BitVec 32) k) = some oneSlot := fun _ => ⟨_, _, hqueue⟩
  exact ⟨s, tr, run, events, returned,
    commands_delivered hmap rfl hqueues (fun _ => 0xFFFFFFFF) run ()⟩

end MspmBaremetal.Delivery
