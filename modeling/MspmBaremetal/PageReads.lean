import MspmBaremetal.TargetEngine

/-!
# Reading a page that nobody publishes to

A controller addresses a byte of such a page and reads on inside the page, while
other snapshots are published between any two of the engine's calls.
-/

namespace MspmBaremetal

namespace TargetEngine

variable {σ κ : Type*}

/-- The calls that a write of an address and a read of `n` bytes lead to: no
`queue_write` is reached, so its answers do not matter. -/
def readTransaction (address : BitVec 16) (answer : Bool) (n : Nat) : List Call :=
  .beginReceive :: .receive ((address >>> 8).setWidth 8) answer ::
    .receive (address.setWidth 8) answer :: .beginTransmit ::
    (List.replicate n .transmit ++ [.end])

/-- The engine calls among the steps. -/
def calls (choices : List (Choice σ)) : List Call :=
  choices.filterMap fun
    | .call call => some call
    | .publish .. => none

/-- What the controller reads. -/
def transmitted (es : List (Event σ κ)) : List (BitVec 8) :=
  es.filterMap fun
    | .transmitted value => some value
    | _ => none

/-- No step publishes snapshot `s`. -/
def Leaves (s : σ) (choices : List (Choice σ)) : Prop :=
  ∀ s' data length, .publish s' data length ∈ choices → s' ≠ s

variable [DecidableEq σ]

/-- Page `p` of the engine's table shows `image` from both buffers. -/
structure ShowsPage (others : σ → Bool → Nat) (pages : List (Page σ κ)) (p : Nat) (page : Page σ κ)
    (s : σ) (image : Nat → BitVec 8) (engine : TargetEngine σ κ) : Prop where
  inv : Inv others engine
  table : engine.regmap.regmap.pages = pages
  here : pages[p]? = some page
  snapshot : page.snapshot = some s
  bytes : ∀ b, ∀ i < page.length.toNat, ((engine.regmap.heap s).buffers b).bytes i = image i

variable {others : σ → Bool → Nat} {pages : List (Page σ κ)} {p : Nat} {page : Page σ κ} {s : σ}
  {image : Nat → BitVec 8} {engine : TargetEngine σ κ}

theorem ShowsPage.call (h : ShowsPage others pages p page s image engine) (call : Call) :
    ShowsPage others pages p page s image (engine.call call).1 := by
  obtain ⟨inv, same⟩ := h.inv.call call
  refine ⟨inv, same.pages.trans h.table, h.here, h.snapshot, ?_⟩
  intro b i inside
  rw [same.buffers]
  exact h.bytes b i inside

theorem publish_other {s' : σ} (other : s' ≠ s) (d : Device σ κ) (data : Option (Nat → BitVec 8))
    (length : BitVec 16) :
    (d.publish s' data length).1.heap s = d.heap s ∧
      (d.publish s' data length).1.regmap = d.regmap := by
  unfold Device.publish
  split <;> simp [Device.store, Function.update_of_ne other.symm]

theorem ShowsPage.publish (h : ShowsPage others pages p page s image engine) {s' : σ} (other : s' ≠ s)
    (data : Option (Nat → BitVec 8)) (length : BitVec 16) :
    ShowsPage others pages p page s image
      { engine with regmap := (engine.regmap.publish s' data length).1 } := by
  obtain ⟨heap, regmap⟩ := publish_other other engine.regmap data length
  refine ⟨h.inv.publish s' data length, ?_, h.here, h.snapshot, ?_⟩
  · rw [regmap]
    exact h.table
  · intro b i inside
    rw [heap]
    exact h.bytes b i inside

/-- Where the transaction stands: the calls to come, and what they will transmit. -/
inductive Stage (address : BitVec 16) (answer : Bool) (n : Nat) (bytes : Nat → BitVec 8) :
    TargetEngine σ κ → List Call → List (BitVec 8) → Prop
  | start (e : TargetEngine σ κ) :
      Stage address answer n bytes e (readTransaction address answer n)
        ((List.range n).map bytes)
  | high (e : TargetEngine σ κ) (receiving : e.direction = .receive) (none : e.addressByteCount = 0) :
      Stage address answer n bytes e ((readTransaction address answer n).drop 1)
        ((List.range n).map bytes)
  | low (e : TargetEngine σ κ) (receiving : e.direction = .receive) (one : e.addressByteCount = 1)
      (pending : e.pendingAddress = ((address >>> 8).setWidth 8).zeroExtend 16 <<< 8) :
      Stage address answer n bytes e ((readTransaction address answer n).drop 2)
        ((List.range n).map bytes)
  | addressed (e : TargetEngine σ κ) (here : e.regmap.regmap.currentAddress = address) :
      Stage address answer n bytes e ((readTransaction address answer n).drop 3)
        ((List.range n).map bytes)
  | reading (k : Nat) (e : TargetEngine σ κ) (inside : k ≤ n) (sending : e.direction = .transmit)
      (reached : e.regmap.regmap.currentAddress = address + BitVec.ofNat 16 k) :
      Stage address answer n bytes e (List.replicate (n - k) .transmit ++ [.end])
        ((List.range' k (n - k)).map bytes)
  | done (e : TargetEngine σ κ) : Stage address answer n bytes e [] []

variable {address : BitVec 16} {answer : Bool} {n : Nat} {bytes : Nat → BitVec 8}
  {script : List Call} {out : List (BitVec 8)}

omit [DecidableEq σ] in
theorem Stage.relocate (h : Stage address answer n bytes engine script out) {regmap : Device σ κ}
    (same : regmap.regmap = engine.regmap.regmap) :
    Stage address answer n bytes { engine with regmap } script out := by
  cases h with
  | start => exact .start _
  | high _ receiving none => exact .high _ receiving none
  | low _ receiving one pending => exact .low _ receiving one pending
  | addressed _ here => exact .addressed _ (by rw [same, here])
  | reading k _ inside sending reached => exact .reading k _ inside sending (by rw [same, reached])
  | done => exact .done _

omit [DecidableEq σ] in
@[simp] theorem transmitted_regmap (es : List (Regmap.Event Unit σ κ)) :
    transmitted (es.map .regmap) = [] := by
  induction es with
  | nil => rfl
  | cons e es ih => exact ih

omit [DecidableEq σ] in
@[simp] theorem transmitted_append (es fs : List (Event σ κ)) :
    transmitted (es ++ fs) = transmitted es ++ transmitted fs := List.filterMap_append

theorem address_of_bytes (address : BitVec 16) :
    ((address >>> 8).setWidth 8).zeroExtend 16 <<< 8 ||| (address.setWidth 8).zeroExtend 16 =
      address := by
  apply BitVec.eq_of_getLsbD_eq
  intro i hi
  simp only [BitVec.zeroExtend_eq_setWidth, BitVec.getLsbD_or, BitVec.getLsbD_shiftLeft,
    BitVec.getLsbD_setWidth, BitVec.getLsbD_ushiftRight]
  grind

/-- A byte read inside the page. -/
theorem ShowsPage.read (h : ShowsPage others pages p page s image engine)
    (found : engine.regmap.regmap.findPage engine.regmap.regmap.currentAddress = some p)
    (sending : engine.direction = .transmit) :
    transmitted (engine.call .transmit).2 =
        [image (engine.regmap.regmap.currentAddress.toNat - page.firstAddress.toNat)] ∧
      (engine.call .transmit).1.direction = .transmit ∧
      (engine.call .transmit).1.regmap.regmap.currentAddress =
        engine.regmap.regmap.currentAddress + 1 := by
  obtain ⟨page', s', here, snapshot, contains, read⟩ := h.inv.sound.readCurrent_fetched found
  rw [h.table, h.here, Option.some.injEq] at here
  subst here
  rw [h.snapshot, Option.some.injEq] at snapshot
  subst snapshot
  simp only [Page.contains, Bool.and_eq_true, decide_eq_true_eq] at contains
  obtain ⟨-, -, regmap⟩ := h.inv.sound.readCurrent
  rw [transmit_read sending]
  refine ⟨?_, sending, ?_⟩
  · simp only [read, transmitted_append, transmitted_regmap, List.nil_append]
    rw [h.bytes _ _ (by omega)]
    rfl
  · rw [regmap]
    exact congrArg (· + 1) h.inv.sound.relatch.address

/-- One call of the transaction. -/
theorem Stage.call (h : Stage address answer n
      (fun k => image ((address + BitVec.ofNat 16 k).toNat - page.firstAddress.toNat))
      engine script out)
    (shows : ShowsPage others pages p page s image engine)
    (lands : ∀ k < n, ∀ r : Regmap σ κ, r.pages = pages →
      r.findPage (address + BitVec.ofNat 16 k) = some p)
    {call : Call} {rest : List Call} (next : script = call :: rest) :
    ∃ out', out = transmitted (engine.call call).2 ++ out' ∧ Stage address answer n
      (fun k => image ((address + BitVec.ofNat 16 k).toNat - page.firstAddress.toNat))
      (engine.call call).1 rest out' := by
  cases h with
  | start =>
    obtain ⟨rfl, rfl⟩ := List.cons.inj next
    exact ⟨_, by simp [TargetEngine.call], .high _ rfl rfl⟩
  | high _ receiving none =>
    obtain ⟨rfl, rfl⟩ := List.cons.inj next
    have received : engine.receive ((address >>> 8).setWidth 8) answer =
        ({ engine with pendingAddress := ((address >>> 8).setWidth 8).zeroExtend 16 <<< 8,
                       addressByteCount := 1 }, [], true) := by
      simp [TargetEngine.receive, receiving, none]
    simp only [TargetEngine.call, received]
    exact ⟨_, rfl, .low _ receiving rfl rfl⟩
  | low _ receiving one pending =>
    obtain ⟨rfl, rfl⟩ := List.cons.inj next
    have received : engine.receive (address.setWidth 8) answer =
        ({ engine with regmap := (engine.regmap.setAddress address).1, pendingAddress := address,
                       addressByteCount := 2 }, (engine.regmap.setAddress address).2, true) := by
      simp [TargetEngine.receive, receiving, one, pending, address_of_bytes]
    simp only [TargetEngine.call, received, transmitted_append, transmitted_regmap]
    exact ⟨_, rfl, .addressed _ rfl⟩
  | addressed _ here =>
    obtain ⟨rfl, rfl⟩ := List.cons.inj next
    refine ⟨_, by simp [TargetEngine.call, List.range_eq_range'], .reading 0 _ (Nat.zero_le n) rfl ?_⟩
    have kept := (Device.endRead_regmap engine.regmap).2.1
    simpa [TargetEngine.call, beginTransmit, Device.beginRead, here] using kept
  | reading k _ inside sending reached =>
    by_cases last : k = n
    · subst last
      rw [Nat.sub_self] at next ⊢
      obtain ⟨rfl, rfl⟩ := List.cons.inj next
      exact ⟨[], by simp [TargetEngine.call], .done _⟩
    · have more : n - k = n - (k + 1) + 1 := by omega
      rw [more, List.replicate_succ] at next
      obtain ⟨rfl, rfl⟩ := List.cons.inj next
      have found := lands k (by omega) _ shows.table
      rw [← reached] at found
      obtain ⟨read, sending', advanced⟩ := shows.read found sending
      refine ⟨_, ?_, .reading (k + 1) _ (by omega) sending' ?_⟩
      · rw [read, more, List.range'_succ, List.map_cons, reached]
        rfl
      · rw [advanced, reached, BitVec.add_assoc, BitVec.ofNat_add]
        rfl
  | done => cases next

omit [DecidableEq σ] in
theorem Stage.finished (h : Stage address answer n bytes engine [] out) : out = [] := by
  generalize none : ([] : List Call) = script at h
  cases h with
  | done => rfl
  | reading k _ _ _ _ => simp at none
  | start | high | low | addressed => cases none

/-- Steps that leave the page's snapshot alone leave its bytes. -/
theorem ShowsPage.exec {choices : List (Choice σ)} (h : ShowsPage others pages p page s image engine)
    (leaves : Leaves s choices) {engine' : TargetEngine σ κ} {es : List (Event σ κ)}
    (run : (machine σ κ).exec engine choices = some (engine', es)) :
    ShowsPage others pages p page s image engine' := by
  induction choices generalizing engine es with
  | nil =>
    cases run
    exact h
  | cons choice choices ih =>
    have later : Leaves s choices :=
      fun s' data length mem => leaves s' data length (List.mem_cons_of_mem _ mem)
    simp only [Machine.exec, machine, Option.bind_eq_bind, Option.bind_eq_some_iff,
      Option.pure_def, Option.some.injEq, Prod.mk.injEq] at run
    cases choice with
    | call c =>
      obtain ⟨_, ⟨rfl, rfl⟩, _, rest, rfl, rfl⟩ := run
      exact ih (h.call c) later rest
    | publish s' data length =>
      obtain ⟨_, ⟨rfl, rfl⟩, _, rest, rfl, rfl⟩ := run
      exact ih (h.publish (leaves s' data length List.mem_cons_self) data length) later rest

/-- The rest of the transaction transmits what it is to transmit. -/
theorem Stage.exec {choices : List (Choice σ)} (h : Stage address answer n
      (fun k => image ((address + BitVec.ofNat 16 k).toNat - page.firstAddress.toNat))
      engine (calls choices) out)
    (shows : ShowsPage others pages p page s image engine)
    (lands : ∀ k < n, ∀ r : Regmap σ κ, r.pages = pages →
      r.findPage (address + BitVec.ofNat 16 k) = some p)
    (leaves : Leaves s choices) {engine' : TargetEngine σ κ} {es : List (Event σ κ)}
    (run : (machine σ κ).exec engine choices = some (engine', es)) : transmitted es = out := by
  induction choices generalizing engine out es with
  | nil =>
    cases run
    exact h.finished.symm
  | cons choice choices ih =>
    have later : Leaves s choices :=
      fun s' data length mem => leaves s' data length (List.mem_cons_of_mem _ mem)
    simp only [Machine.exec, machine, Option.bind_eq_bind, Option.bind_eq_some_iff,
      Option.pure_def, Option.some.injEq, Prod.mk.injEq] at run
    cases choice with
    | call c =>
      obtain ⟨_, ⟨rfl, rfl⟩, ⟨_, fs⟩, rest, rfl, rfl⟩ := run
      obtain ⟨out', rfl, stage⟩ := h.call shows lands rfl
      rw [transmitted_append, ih stage (shows.call c) later rest]
      rfl
    | publish s' data length =>
      obtain ⟨_, ⟨rfl, rfl⟩, ⟨_, fs⟩, rest, rfl, rfl⟩ := run
      have other := leaves s' data length List.mem_cons_self
      rw [transmitted_append, transmitted_regmap, ih
        (h.relocate (publish_other other _ data length).2) (shows.publish other data length)
        later rest]
      rfl

/-- Whatever else is published meanwhile, the controller reads the page's bytes. -/
theorem ShowsPage.transaction {choices : List (Choice σ)}
    (shows : ShowsPage others pages p page s image engine)
    (lands : ∀ k < n, ∀ r : Regmap σ κ, r.pages = pages →
      r.findPage (address + BitVec.ofNat 16 k) = some p)
    (leaves : Leaves s choices) (script : calls choices = readTransaction address answer n)
    {engine' : TargetEngine σ κ} {es : List (Event σ κ)}
    (run : (machine σ κ).exec engine choices = some (engine', es)) : transmitted es =
      (List.range n).map fun k =>
        image ((address + BitVec.ofNat 16 k).toNat - page.firstAddress.toNat) := by
  have stage : Stage address answer n
      (fun k => image ((address + BitVec.ofNat 16 k).toNat - page.firstAddress.toNat)) engine
      (readTransaction address answer n) _ := .start engine
  rw [← script] at stage
  exact stage.exec shows lands leaves run

/-- Nothing refuses a call or a publish. -/
theorem exec_some (engine : TargetEngine σ κ) (choices : List (Choice σ)) :
    ∃ engine' es, (machine σ κ).exec engine choices = some (engine', es) := by
  induction choices generalizing engine with
  | nil => exact ⟨engine, [], rfl⟩
  | cons choice choices ih =>
    cases choice with
    | call c =>
      obtain ⟨_, _, rest⟩ := ih (engine.call c).1
      exact ⟨_, _, Machine.exec_cons rfl rest⟩
    | publish s data length =>
      obtain ⟨_, _, rest⟩ := ih { engine with regmap := (engine.regmap.publish s data length).1 }
      exact ⟨_, _, Machine.exec_cons rfl rest⟩

omit [DecidableEq σ] in
theorem calls_map_call (script : List Call) :
    calls (script.map (Choice.call (σ := σ))) = script := by
  induction script with
  | nil => rfl
  | cons c script ih => exact congrArg (c :: ·) ih

end TargetEngine

end MspmBaremetal
