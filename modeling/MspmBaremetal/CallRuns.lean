import MspmBaremetal.RegmapCalls

/-!
# Calls that nothing interrupts

The whole calls of `RegmapCalls` are runs of the machine of single accesses in
which only the caller moves and no compare-exchange fails, with the same events
(`setAddress_run` to `publish_run`).
-/

namespace MspmBaremetal

namespace Device

open Regmap Machine

variable {σ κ : Type*} [DecidableEq σ]

/-- A register map whose call stands at `reader`, while nothing is published. -/
def standing (d : Device σ κ) (reader : Reader) : World Unit σ κ where
  heap := d.heap
  regmap := fun _ => d.regmap
  reader := fun _ => reader
  publisher := fun _ => .idle

/-- Between two calls. -/
def resting (d : Device σ κ) : World Unit σ κ := d.standing .idle

theorem update_unit {α : Type*} (f : Unit → α) (a : α) : Function.update f () a = fun _ => a :=
  funext fun () => Function.update_self ..

omit [DecidableEq σ] in
theorem settle_standing (d : Device σ κ) (reader : Reader)
    (next : Regmap σ κ × Reader × List (Event Unit σ κ)) :
    (d.standing reader).settle () next =
      (({ d with regmap := next.1 } : Device σ κ).standing next.2.1, next.2.2) := by
  simp only [World.settle, standing, update_unit]

theorem setState_standing (d : Device σ κ) (reader : Reader) (s : σ) (state : BitVec 32) :
    (d.standing reader).setState s state = (d.store s { d.heap s with state }).standing reader := rfl

/-- The first step of a call. -/
theorem call_step (d : Device σ κ) (c : Call) :
    (machine Unit σ κ).step d.resting (.call () c) =
      some (({ d with regmap := (Regmap.call () d.regmap c).1 } : Device σ κ).standing
        (Regmap.call () d.regmap c).2.1, (Regmap.call () d.regmap c).2.2) :=
  congrArg some (settle_standing d .idle _)

variable {others : σ → Bool → Nat} {d : Device σ κ}

/-- A call that begins with `lib_regmap_end_read`, up to the access after it. -/
theorem endRead_run (h : Sound others d) {c : Call} {rest : Rest}
    (begins : Regmap.call () d.regmap c = Regmap.endRead () d.regmap rest) :
    let next := proceed () d.endRead.1.regmap rest
    (machine Unit σ κ).Run d.resting (d.endRead.2 ++ next.2.2)
      (({ d.endRead.1 with regmap := next.1 } : Device σ κ).standing next.2.1) := by
  have first := call_step d c
  rw [begins] at first
  cases latched : d.regmap.latchedPage with
  | none =>
    rw [endRead_none latched]
    simp only [Regmap.endRead, latched] at first
    simpa using Run.next .start first
  | some p =>
    obtain ⟨page, s, -, -, hs, -⟩ := h.snapshotOf (h.latched p latched)
    simp only [Regmap.endRead, latched] at first
    have second : (machine Unit σ κ).step (d.standing (.release rest)) (.reader () false) = some
        (({ d.endRead.1 with regmap := (proceed () d.endRead.1.regmap rest).1 } : Device σ κ).standing
          (proceed () d.endRead.1.regmap rest).2.1,
          d.endRead.2 ++ (proceed () d.endRead.1.regmap rest).2.2) := by
      simp only [machine, Reader.step, show (d.standing (.release rest)).regmap () = d.regmap from rfl,
        show (d.standing (.release rest)).reader () = .release rest from rfl, latched, hs,
        Option.bind_some, setState_standing, settle_standing, Device.endRead]
      rfl
    simpa using Run.next (Run.next .start first) second

/-- `lib_regmap_set_address`. -/
theorem setAddress_run (h : Sound others d) (address : BitVec 16) :
    (machine Unit σ κ).Run d.resting (d.setAddress address).2 (d.setAddress address).1.resting := by
  have run := endRead_run h (show Regmap.call () d.regmap (.setAddress address) = _ from rfl)
  simp only [proceed, List.append_nil] at run
  exact run

/-- `lib_regmap_begin_read` and `lib_regmap_end_read`. -/
theorem beginRead_run (h : Sound others d) :
    (machine Unit σ κ).Run d.resting d.beginRead.2 d.beginRead.1.resting := by
  have run := endRead_run h (show Regmap.call () d.regmap .beginRead = _ from rfl)
  simp only [proceed, List.append_nil] at run
  exact run

/-- `lib_regmap_write_current`. -/
theorem writeCurrent_run (h : Sound others d) (value : BitVec 8) (answer : Bool) :
    (machine Unit σ κ).Run d.resting (d.writeCurrent value answer).2.1
      (d.writeCurrent value answer).1.resting := by
  have run := endRead_run h (show Regmap.call () d.regmap (.writeCurrent value) = _ from rfl)
  simp only [proceed, write] at run
  unfold writeCurrent
  cases found : d.endRead.1.regmap.target d.endRead.1.regmap.currentAddress with
  | none =>
    simp only [found] at run ⊢
    exact run
  | some target =>
    simp only [found] at run ⊢
    exact run

/-! ## Reading -/

omit [DecidableEq σ] in
/-- A read without a latch. -/
theorem fetch_unlatched (latched : d.regmap.latchedPage = none) :
    d.fetch = ({ d with regmap := d.regmap.advance }, [.unmapped () d.regmap.currentAddress],
      unmappedValue) := by
  simp only [fetch, latched, Option.bind_none]

/-- The access of a latched page. -/
theorem fetch_step (h : Sound others d) {p : Nat} (latched : d.regmap.latchedPage = some p) :
    (machine Unit σ κ).step (d.standing .fetch) (.reader () false) =
      some (d.fetch.1.resting, d.fetch.2.1) := by
  obtain ⟨page, s, hp, snapshot, hs, -⟩ := h.snapshotOf (h.latched p latched)
  simp only [machine, Reader.step, show (d.standing .fetch).regmap () = d.regmap from rfl,
    show (d.standing .fetch).reader () = .fetch from rfl, latched, hs, hp, Option.bind_some,
    settle_standing, fetch, snapshot, Option.map_some, Regmap.advance, resting]
  rfl

/-- The access of a page, from the load of its state word on. -/
theorem latchPage_run (h : Sound others d) (free : d.regmap.latchedPage = none) {p : Nat}
    (inside : p < d.regmap.pages.length) :
    let latched := d.latchPage (some p)
    (machine Unit σ κ).Run (d.standing (.load p)) (latched.2 ++ latched.1.fetch.2.1)
      latched.1.fetch.1.resting := by
  obtain ⟨page, s, -, -, hs, -⟩ := h.snapshotOf inside
  have load : (machine Unit σ κ).step (d.standing (.load p)) (.reader () false) =
      some ((d.standing (.load p)).settle ()
        (tryAcquire () d.regmap p s (d.heap s).state)) := by
    simp only [machine, Reader.step, show (d.standing (.load p)).regmap () = d.regmap from rfl,
      show (d.standing (.load p)).reader () = .load p from rfl, hs, Option.bind_some]
    rfl
  rw [settle_standing] at load
  by_cases full : Snapshot.readerCount (d.heap s).state (Snapshot.activeIndex (d.heap s).state) =
      Snapshot.readerMask
  · simp only [tryAcquire, full, if_true, readUnmapped] at load
    simp only [latchPage, hs, Snapshot.acquire, full, if_true, fetch_unlatched free, Regmap.advance,
      List.singleton_append]
    exact Run.next .start load
  · simp only [tryAcquire, full, if_false] at load
    have exchange : (machine Unit σ κ).step (d.standing (.exchange p (d.heap s).state))
        (.reader () false) =
          some ((d.latchPage (some p)).1.standing .fetch, (d.latchPage (some p)).2) := by
      simp only [machine, Reader.step,
        show (d.standing (.exchange p (d.heap s).state)).regmap () = d.regmap from rfl,
        show (d.standing (.exchange p (d.heap s).state)).reader () = .exchange p (d.heap s).state from rfl,
        show (d.standing (.exchange p (d.heap s).state)).heap = d.heap from rfl, hs, Option.bind_some,
        and_self, if_true, setState_standing, settle_standing, latchPage, Snapshot.acquire, full, if_false]
    obtain ⟨s', -, -, regmap, sound, -⟩ := h.latchPage free inside
    have page : (d.latchPage (some p)).1.regmap.latchedPage = some p :=
      congrArg Regmap.latchedPage regmap
    exact Run.next (Run.next (Run.next .start load) exchange) (fetch_step sound page)

/-- `lib_regmap_read_current`. -/
theorem readCurrent_run (h : Sound others d) :
    (machine Unit σ κ).Run d.resting d.readCurrent.2.1 d.readCurrent.1.resting := by
  by_cases same : d.regmap.findPage d.regmap.currentAddress = d.regmap.latchedPage
  · have stays : d.relatch = (d, []) := by
      simp only [relatch, same, ne_eq, not_true_eq_false, if_false]
    have first := call_step d .readCurrent
    cases latched : d.regmap.latchedPage with
    | none =>
      simp only [Regmap.call, same, latched, readUnmapped, if_true] at first
      simp only [readCurrent, stays, fetch_unlatched latched, List.nil_append, Regmap.advance, latched]
      exact Run.next .start first
    | some p =>
      simp only [Regmap.call, same, latched, if_true] at first
      simp only [readCurrent, stays]
      exact Run.next (Run.next .start first) (fetch_step h latched)
  · have begins : Regmap.call () d.regmap .readCurrent =
        Regmap.endRead () d.regmap (.acquire (d.regmap.findPage d.regmap.currentAddress)) := by
      simp only [Regmap.call, same, if_false]
    have moves : d.relatch = ((d.endRead.1.latchPage (d.regmap.findPage d.regmap.currentAddress)).1,
        d.endRead.2 ++ (d.endRead.1.latchPage (d.regmap.findPage d.regmap.currentAddress)).2) := by
      simp only [relatch, ne_eq, same, not_false_eq_true, if_true]
    have run := endRead_run h begins
    have free := (endRead_regmap d).2.2
    cases found : d.regmap.findPage d.regmap.currentAddress with
    | none =>
      simp only [found, proceed, readUnmapped] at run
      simp only [readCurrent, moves, found, latchPage, fetch_unlatched free, List.append_nil]
      exact run
    | some p =>
      have pages := (endRead_regmap d).1
      have inside : p < d.endRead.1.regmap.pages.length := by
        rw [pages]
        exact findPage_lt found
      obtain ⟨page, s, -, -, hs, -⟩ := h.endRead.1.snapshotOf inside
      simp only [found, proceed, hs, List.append_nil] at run
      simp only [readCurrent, moves, found, List.append_assoc]
      exact run.trans (latchPage_run h.endRead.1 free inside)

/-! ## Publishing -/

/-- While snapshot `s` is being published and no register map moves. -/
def publishing (d : Device σ κ) (s : σ) (publisher : Publisher) : World Unit σ κ :=
  d.resting.setPublisher s publisher

theorem publishing_idle (d : Device σ κ) (s : σ) : d.publishing s .idle = d.resting := by
  simp [publishing, resting, standing, World.setPublisher]

theorem publishing_setPublisher (d : Device σ κ) (s : σ) (publisher next : Publisher) :
    (d.publishing s publisher).setPublisher s next = d.publishing s next := by
  simp [publishing, World.setPublisher]

theorem publishing_publisher (d : Device σ κ) (s : σ) (publisher : Publisher) :
    (d.publishing s publisher).publisher s = publisher := World.setPublisher_self ..

/-- A snapshot with the first `count` bytes of an image in its inactive buffer. -/
def copied (snapshot : Snapshot) (inactiveIndex : Bool) (image : Nat → BitVec 8) (count : Nat) : Snapshot :=
  { snapshot with
    buffers := Function.update snapshot.buffers inactiveIndex
      { snapshot.buffers inactiveIndex with
        bytes := Snapshot.copy (snapshot.buffers inactiveIndex).bytes image count } }

theorem publishing_heap (d : Device σ κ) (s : σ) (publisher : Publisher) :
    (d.publishing s publisher).heap = d.heap := rfl

theorem store_heap (d : Device σ κ) (s : σ) (snapshot : Snapshot) :
    (d.store s snapshot).heap s = snapshot := Function.update_self ..

theorem store_same (d : Device σ κ) (s : σ) : d.store s (d.heap s) = d := by
  simp [store]

theorem store_store (d : Device σ κ) (s : σ) (snapshot next : Snapshot) :
    (d.store s snapshot).store s next = d.store s next := by
  simp [store]

theorem store_publishing (d : Device σ κ) (s : σ) (publisher : Publisher) (snapshot : Snapshot) :
    (d.publishing s publisher).store s snapshot = (d.store s snapshot).publishing s publisher := rfl

theorem copied_zero (snapshot : Snapshot) (inactiveIndex : Bool) (image : Nat → BitVec 8) :
    copied snapshot inactiveIndex image 0 = snapshot := by
  simp [copied, Snapshot.copy]

theorem copied_succ (snapshot : Snapshot) (inactiveIndex : Bool) (image : Nat → BitVec 8) (count : Nat) :
    (copied snapshot inactiveIndex image count).setByte inactiveIndex count (image count) =
      copied snapshot inactiveIndex image (count + 1) := by
  simp [copied, Snapshot.setByte, Snapshot.copy]

/-- The copy of `lib_regmap_snapshot_publish`. -/
theorem copy_run (d : Device σ κ) (s : σ) (image : Nat → BitVec 8) (state : BitVec 32)
    (inactiveIndex : Bool) {count : Nat} (inside : count ≤ (d.heap s).length.toNat) :
    (machine Unit σ κ).Run (d.publishing s (copyLoop (d.heap s) image state inactiveIndex 0)) []
      ((d.store s (copied (d.heap s) inactiveIndex image count)).publishing s
        (copyLoop (d.heap s) image state inactiveIndex count)) := by
  induction count with
  | zero =>
    rw [copied_zero, store_same]
    exact .start
  | succ count ih =>
    have before := ih (Nat.le_of_succ_le inside)
    have copies : copyLoop (d.heap s) image state inactiveIndex count =
        .copy image state inactiveIndex count := if_pos inside
    rw [copies] at before
    have step : (machine Unit σ κ).step
        ((d.store s (copied (d.heap s) inactiveIndex image count)).publishing s
          (.copy image state inactiveIndex count)) (.publisher s false) =
        some ((d.store s (copied (d.heap s) inactiveIndex image (count + 1))).publishing s
          (copyLoop (d.heap s) image state inactiveIndex (count + 1)), []) := by
      simp only [machine, Publisher.step, publishing_publisher, publishing_heap, store_heap,
        store_publishing, publishing_setPublisher, store_store, copied_succ]
      rfl
    exact Run.next before step

/-- `lib_regmap_snapshot_publish`. -/
theorem publish_run (d : Device σ κ) (s : σ) (data : Option (Nat → BitVec 8)) (length : BitVec 16) :
    (machine Unit σ κ).Run d.resting (d.publish s data length).2.1 (d.publish s data length).1.resting := by
  have first : (machine Unit σ κ).step d.resting (.publish s data length) =
      some (d.publishing s (Publisher.call (d.heap s) data length), []) := rfl
  cases accepted : (d.heap s).acceptsPublish data length with
  | none =>
    simp only [Publisher.call, accepted, publishing_idle] at first
    simp only [publish, Snapshot.publish, accepted, store_same]
    exact Run.next .start first
  | some image =>
    obtain ⟨rfl, -⟩ := Snapshot.acceptsPublish_length accepted
    simp only [Publisher.call, accepted] at first
    by_cases free : Snapshot.readerCount (d.heap s).state (!Snapshot.activeIndex (d.heap s).state) = 0
    · have load : (machine Unit σ κ).step (d.publishing s (.load image)) (.publisher s false) =
          some (d.publishing s (copyLoop (d.heap s) image (d.heap s).state
            (!Snapshot.activeIndex (d.heap s).state) 0), []) := by
        simp only [machine, Publisher.step, publishing_publisher, publishing_heap, free, ne_eq,
          not_true_eq_false, if_false, publishing_setPublisher]
      have copy := copy_run d s image (d.heap s).state (!Snapshot.activeIndex (d.heap s).state)
        (le_refl (d.heap s).length.toNat)
      have done : copyLoop (d.heap s) image (d.heap s).state (!Snapshot.activeIndex (d.heap s).state)
          (d.heap s).length.toNat = .exchange image (d.heap s).state
            (!Snapshot.activeIndex (d.heap s).state) := if_neg (lt_irrefl _)
      rw [done] at copy
      have exchange : (machine Unit σ κ).step
          ((d.store s (copied (d.heap s) (!Snapshot.activeIndex (d.heap s).state) image
            (d.heap s).length.toNat)).publishing s (.exchange image (d.heap s).state
              (!Snapshot.activeIndex (d.heap s).state))) (.publisher s false) =
          some ((d.store s ((d.heap s).install (!Snapshot.activeIndex (d.heap s).state) image
            (d.heap s).length)).resting,
            [.published s image (!Snapshot.activeIndex (d.heap s).state)]) := by
        simp only [machine, Publisher.step, publishing_publisher, publishing_heap, store_heap, copied,
          and_self, if_true, World.setState, store_publishing, store_store, publishing_setPublisher,
          publishing_idle]
        rfl
      simp only [publish, Snapshot.publish, accepted, ne_eq, free, not_true_eq_false, if_false]
      exact Run.next ((Run.next (Run.next .start first) load).trans copy) exchange
    · have reject : (machine Unit σ κ).step (d.publishing s (.load image)) (.publisher s false) =
          some ((d.store s (d.heap s).notePublishRejected).resting, [.publishRejected s]) := by
        simp only [machine, Publisher.step, publishing_publisher, publishing_heap, free, ne_eq,
          not_false_eq_true, if_true, World.reject, store_publishing, publishing_setPublisher,
          publishing_idle]
      simp only [publish, Snapshot.publish, accepted, ne_eq, free, not_false_eq_true, if_true]
      exact Run.next (Run.next .start first) reject

end Device

end MspmBaremetal
