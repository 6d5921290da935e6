import MspmBaremetal.UartRuns

/-!
# The drop counter of the UART transmit path

`hal_uart0_tx_write` stops at the first byte that the ring refuses, so the
bytes behind it are lost without being counted.
-/

namespace MspmBaremetal.Uart

/-- `hal_uart0_tx_dropped_count`. -/
def droppedCount (s : System) : BitVec 32 := if s.initialized then s.ring.droppedCount else 0

/-- The bytes that the calls were given and did not accept. -/
def missing (tr : List Event) : Nat :=
  (tr.map fun | .returned data accepted => data.length - accepted | _ => 0).sum

/-- Of these, the bytes that no call offered to the ring. -/
def unoffered (tr : List Event) : Nat :=
  (tr.map fun | .returned data accepted => data.length - accepted - 1 | _ => 0).sum

/-- A push that finds the ring full is for the last byte of its call. -/
def refusesLast (s : System) : Choice → Bool
  | .thread =>
    match s.thread with
    | .pushing data accepted (.loadReadIndex _ writeIndex) =>
      decide (writeIndex - s.ring.readIndex = s.ring.capacity → accepted + 1 = data.length)
    | _ => true
  | _ => true

/-! ## The bytes of a call in progress -/

/-- The bytes that a write past its loop has left out. -/
def Thread.leftOut : Thread → Nat
  | .idle | .pushing _ _ _ => 0
  | .getPrimask data accepted | .disableIrq data accepted _ | .readImask data accepted _
  | .writeImask data accepted _ _ | .setTxint data accepted _ | .setPrimask data accepted _ =>
    data.length - accepted

/-- The thread's position when every refusal is of a last byte. -/
def Thread.LastOnly : Thread → Prop
  | .pushing data accepted (.loadDroppedCount _) | .pushing data accepted (.storeDroppedCount _ _) =>
    accepted + 1 = data.length
  | thread => thread.leftOut ≤ 1

section Events

variable {l r : List Event}

@[simp] theorem missing_append : missing (l ++ r) = missing l + missing r := by
  simp [missing]

@[simp] theorem unoffered_append : unoffered (l ++ r) = unoffered l + unoffered r := by
  simp [unoffered]

@[simp] theorem missing_ring (es : List (FifoEvent (BitVec 8))) : missing (es.map .ring) = 0 := by
  simp [missing, Function.comp_def]

@[simp] theorem unoffered_ring (es : List (FifoEvent (BitVec 8))) : unoffered (es.map .ring) = 0 := by
  simp [unoffered, Function.comp_def]

end Events

/-- What a write that goes on with `next` leaves out, in its events and its position. -/
structure LeavesOut (next : Thread × List Event) (n : Nat) : Prop where
  missing : missing next.2 + next.1.leftOut = n
  unoffered : unoffered next.2 + (next.1.leftOut - 1) = n - 1

theorem leaveLoop_leavesOut (data : List (BitVec 8)) (accepted : Nat) :
    LeavesOut (Thread.leaveLoop data accepted) (data.length - accepted) := by
  unfold Thread.leaveLoop
  split <;> constructor <;> simp [missing, unoffered, Thread.leftOut]

theorem loop_leavesOut (data : List (BitVec 8)) (accepted : Nat) :
    LeavesOut (Thread.loop data accepted) 0 := by
  unfold Thread.loop
  split
  · constructor <;> rfl
  next complete =>
    have all : data.length - accepted = 0 := by omega
    exact all ▸ leaveLoop_leavesOut data accepted

theorem afterPush_leavesOut (data : List (BitVec 8)) (accepted : Nat) (push : Ringbuf.Producer) :
    LeavesOut (Thread.afterPush data accepted push)
      (if push = .returned false then data.length - accepted else 0) := by
  cases push with
  | returned result =>
    cases result with
    | true => exact loop_leavesOut data (accepted + 1)
    | false => exact leaveLoop_leavesOut data accepted
  | _ => constructor <;> rfl

theorem afterPush_noRing (data : List (BitVec 8)) (accepted : Nat) (push : Ringbuf.Producer) :
    ringEvents (Thread.afterPush data accepted push).2 = [] := by
  cases push with
  | returned result =>
    cases result with
    | true => exact (loop_continues data (accepted + 1)).noRing
    | false => exact (leaveLoop_continues data accepted).noRing
  | _ => rfl

/-- A push counts one refusal if it returns `false`. -/
theorem push_refused {ring ring' : Ringbuf} {push push' : Ringbuf.Producer}
    {es : List (FifoEvent (BitVec 8))} (step : push.step ring = some (ring', push', es)) :
    (Fifo.refused es).length = if push' = .returned false then 1 else 0 := by
  cases push with
  | idle | returned => cases step
  | loadReadIndex b w =>
    simp only [Ringbuf.Producer.step] at step
    split at step <;> cases step <;> rfl
  | loadWriteIndex | loadDroppedCount | storeDroppedCount | storeSlot | storeWriteIndex =>
    cases step
    rfl

theorem pop_refused {ring ring' : Ringbuf} {pop pop' : Ringbuf.Consumer}
    {es : List (FifoEvent (BitVec 8))} (step : pop.step ring = some (ring', pop', es)) :
    Fifo.refused es = [] := by
  obtain ⟨-, ⟨-, rfl⟩ | ⟨b, -, rfl⟩ | ⟨-, rfl⟩⟩ := Ringbuf.Consumer.step_ends step <;> rfl

/-! ## Every step -/

variable {hw : Hardware} {cap : BitVec 32} {q : Fifo (BitVec 8) cap.toNat} {s t : System}
  {tr es : List Event}

/-- Every refusal stands for one byte that its call leaves out; the others were
not offered. -/
structure Accounts (tr : List Event) (s : System) : Prop where
  initialized : s.initialized = true
  refused : (Fifo.refused (ringEvents tr)).length + unoffered tr + (s.thread.leftOut - 1) =
    missing tr + s.thread.leftOut

/-- A step that neither ends a push nor a call. -/
theorem Accounts.next (h : Accounts tr s) (initialized : t.initialized = s.initialized)
    (noRefusal : Fifo.refused (ringEvents es) = [])
    (missed : missing es + t.thread.leftOut = s.thread.leftOut)
    (unofferedSame : unoffered es + (t.thread.leftOut - 1) = s.thread.leftOut - 1) :
    Accounts (tr ++ es) t where
  initialized := initialized.trans h.initialized
  refused := by
    have := h.refused
    simp only [ringEvents_append, Fifo.refused_append, List.length_append, noRefusal, List.length_nil,
      missing_append, unoffered_append]
    omega

theorem Accounts.thread (h : Accounts tr s)
    (pushing : ∀ data accepted push, s.thread = .pushing data accepted push → accepted < data.length)
    (step : Thread.step s = some (t, es)) : Accounts (tr ++ es) t := by
  cases hs : s.thread with
  | idle => simp [Thread.step, hs] at step
  | pushing data accepted push =>
    have more := pushing data accepted push hs
    obtain ⟨ring, push', res, access, rfl, rfl⟩ := Thread.step_pushing hs step
    have before := h.refused
    have refused := push_refused access
    obtain ⟨missed, left⟩ := afterPush_leavesOut data accepted push'
    refine ⟨h.initialized, ?_⟩
    rw [hs, Thread.leftOut] at before
    simp only [ringEvents_append, ringEvents_ring, afterPush_noRing, List.append_nil,
      Fifo.refused_append, List.length_append, refused, missing_append, missing_ring, unoffered_append,
      unoffered_ring]
    split_ifs at missed left ⊢ <;> omega
  | _ =>
    simp only [Thread.step, hs] at step
    cases step
    refine h.next rfl rfl ?_ ?_ <;> simp [hs, missing, unoffered, Thread.leftOut]

theorem Accounts.handler (h : Accounts tr s) (step : Handler.step hw s = some (t, es)) :
    Accounts (tr ++ es) t := by
  cases hs : s.handler with
  | inactive => simp [Handler.step, hs] at step
  | popping pop =>
    obtain ⟨ring, pop', res, access, rfl, rfl⟩ := Handler.step_popping hs step
    exact h.next rfl (by rw [ringEvents_ring, pop_refused access]) (by simp) (by simp)
  | _ =>
    simp only [Handler.step, hs] at step
    cases step
    exact h.next rfl rfl (by simp [missing]) (by simp [unoffered])

theorem accounts_step (inv : Inv hw cap tr s q) (h : Accounts tr s) {choice : Choice}
    (step : (machine hw).step s choice = some (t, es)) : Accounts (tr ++ es) t := by
  cases choice with
  | write data =>
    simp only [machine, Option.ite_none_right_eq_some, Option.some.injEq] at step
    obtain ⟨⟨idle, -, -⟩, call⟩ := step
    cases data with
    | none =>
      cases call
      simpa using h
    | some data =>
      simp only [Thread.call, h.initialized, if_true] at call
      obtain ⟨missed, left⟩ := loop_leavesOut data 0
      cases call
      refine h.next h.initialized.symm ?_ ?_ ?_
      · rw [(loop_continues data 0).noRing]
        rfl
      · simpa [idle, Thread.leftOut] using missed
      · simpa [idle, Thread.leftOut] using left
  | thread =>
    simp only [machine, Option.ite_none_right_eq_some] at step
    refine h.thread (fun data accepted push hs => ?_) step.2
    have sane := inv.thread
    rw [hs] at sane
    exact sane.1
  | handler => exact h.handler step
  | interrupt | drain =>
    simp only [machine, Option.ite_none_right_eq_some, Option.some.injEq, Prod.mk.injEq] at step
    obtain ⟨-, rfl, rfl⟩ := step
    exact h.next rfl rfl (by simp [missing]) (by simp [unoffered])

/-! ## Refusals of last bytes only -/

theorem leaveLoop_lastOnly {data : List (BitVec 8)} {accepted : Nat}
    (last : data.length - accepted ≤ 1) : (Thread.leaveLoop data accepted).1.LastOnly ∧
      unoffered (Thread.leaveLoop data accepted).2 = 0 := by
  obtain ⟨-, left⟩ := leaveLoop_leavesOut data accepted
  refine ⟨?_, by omega⟩
  unfold Thread.leaveLoop
  split
  · exact last
  · exact Nat.zero_le _

theorem loop_lastOnly (data : List (BitVec 8)) (accepted : Nat) :
    (Thread.loop data accepted).1.LastOnly ∧ unoffered (Thread.loop data accepted).2 = 0 := by
  unfold Thread.loop
  split
  · exact ⟨Nat.zero_le _, rfl⟩
  · exact leaveLoop_lastOnly (by omega)

/-- An access of a push, with what follows it. -/
theorem push_lastOnly {data : List (BitVec 8)} {accepted : Nat} {ring : Ringbuf}
    {push push' : Ringbuf.Producer} {res : List (FifoEvent (BitVec 8))}
    (h : s.thread.LastOnly) (hs : s.thread = .pushing data accepted push)
    (last : refusesLast s .thread = true) (step : push.step s.ring = some (ring, push', res)) :
    (Thread.afterPush data accepted push').1.LastOnly ∧
      unoffered (Thread.afterPush data accepted push').2 = 0 := by
  rw [hs] at h
  cases push with
  | idle | returned => cases step
  | loadWriteIndex | storeSlot =>
    cases step
    exact ⟨Nat.zero_le _, rfl⟩
  | loadReadIndex b w =>
    simp only [refusesLast, hs, decide_eq_true_eq] at last
    simp only [Ringbuf.Producer.step] at step
    split at step
    next full =>
      cases step
      exact ⟨last full, rfl⟩
    · cases step
      exact ⟨Nat.zero_le _, rfl⟩
  | loadDroppedCount b =>
    cases step
    exact ⟨h, rfl⟩
  | storeDroppedCount b d =>
    cases step
    have only : accepted + 1 = data.length := h
    exact leaveLoop_lastOnly (by omega)
  | storeWriteIndex b w =>
    cases step
    exact loop_lastOnly data (accepted + 1)

theorem thread_lastOnly (h : s.thread.LastOnly) (last : refusesLast s .thread = true)
    (step : Thread.step s = some (t, es)) : t.thread.LastOnly ∧ unoffered es = 0 := by
  cases hs : s.thread with
  | idle => simp [Thread.step, hs] at step
  | pushing data accepted push =>
    obtain ⟨ring, push', res, access, rfl, rfl⟩ := Thread.step_pushing hs step
    obtain ⟨lastOnly, none⟩ := push_lastOnly h hs last access
    exact ⟨lastOnly, by simp [none]⟩
  | setPrimask data accepted saved =>
    rw [hs] at h
    simp only [Thread.step, hs] at step
    cases step
    have left : data.length - accepted ≤ 1 := h
    exact ⟨Nat.zero_le _, by simp [unoffered]; omega⟩
  | _ =>
    rw [hs] at h
    simp only [Thread.step, hs] at step
    cases step
    exact ⟨h, rfl⟩

theorem handler_lastOnly (h : s.thread.LastOnly) (step : Handler.step hw s = some (t, es)) :
    t.thread.LastOnly ∧ unoffered es = 0 := by
  cases hs : s.handler with
  | inactive => simp [Handler.step, hs] at step
  | popping pop =>
    obtain ⟨ring, pop', res, -, rfl, rfl⟩ := Handler.step_popping hs step
    exact ⟨h, unoffered_ring res⟩
  | _ =>
    simp only [Handler.step, hs] at step
    cases step
    exact ⟨h, rfl⟩

theorem lastOnly_step (h : s.thread.LastOnly) (initialized : s.initialized = true) {choice : Choice}
    (last : refusesLast s choice = true) (step : (machine hw).step s choice = some (t, es)) :
    t.thread.LastOnly ∧ unoffered es = 0 := by
  cases choice with
  | write data =>
    simp only [machine, Option.ite_none_right_eq_some, Option.some.injEq] at step
    obtain ⟨-, call⟩ := step
    cases data with
    | none =>
      cases call
      exact ⟨h, rfl⟩
    | some data =>
      simp only [Thread.call, initialized, if_true] at call
      cases call
      exact loop_lastOnly data 0
  | thread =>
    simp only [machine, Option.ite_none_right_eq_some] at step
    exact thread_lastOnly h last step.2
  | handler => exact handler_lastOnly h step
  | interrupt | drain =>
    simp only [machine, Option.ite_none_right_eq_some, Option.some.injEq, Prod.mk.injEq] at step
    obtain ⟨-, rfl, rfl⟩ := step
    exact ⟨h, rfl⟩

/-! ## Every run -/

section Runs

variable {config : Option TxConfig} {given : Option Ringbuf} {storage : Option (Nat → BitVec 8)}
  {ring : Ringbuf} {before registers : Registers} {primask : Bool} {index : BitVec 32}

theorem accounts_run (hring : Ringbuf.init given storage cap = some ring)
    (hinit : txInit config (some ring) before = some registers)
    (run : (machine hw).Run (.start registers primask ring index) tr s) :
    (∃ q, Inv hw cap tr s q) ∧ Accounts tr s := by
  induction run with
  | start => exact ⟨inv_run hring hinit .start, rfl, rfl⟩
  | next run step ih =>
    obtain ⟨⟨q, inv⟩, accounts⟩ := ih
    exact ⟨inv_run hring hinit (run.next step), accounts_step inv accounts step⟩

theorem lastOnly_run (hring : Ringbuf.init given storage cap = some ring)
    (hinit : txInit config (some ring) before = some registers)
    (run : ((machine hw).restrict refusesLast).Run (.start registers primask ring index) tr s) :
    (machine hw).Run (.start registers primask ring index) tr s ∧ s.thread.LastOnly ∧
      unoffered tr = 0 := by
  induction run with
  | start => exact ⟨.start, Nat.zero_le _, rfl⟩
  | next _ step ih =>
    obtain ⟨run, lastOnly, none⟩ := ih
    obtain ⟨last, step⟩ := Machine.restrict_step step
    obtain ⟨-, accounts⟩ := accounts_run hring hinit run
    obtain ⟨lastOnly', none'⟩ := lastOnly_step lastOnly accounts.initialized last step
    exact ⟨run.next step, lastOnly', by rw [unoffered_append, none, none']⟩

/-- The counter and the bytes that are missing when no call is in progress. -/
theorem droppedCount_eq (hring : Ringbuf.init given storage cap = some ring)
    (hinit : txInit config (some ring) before = some registers)
    (run : (machine hw).Run (.start registers primask ring index) tr s) (idle : s.thread = .idle) :
    ∃ refusals, droppedCount s - droppedCount (.start registers primask ring index) =
        BitVec.ofNat 32 refusals ∧ refusals + unoffered tr = missing tr := by
  obtain ⟨⟨q, inv⟩, accounts⟩ := accounts_run hring hinit run
  have counted := accounts.refused
  have dropped := Fifo.dropped_eq inv.fifo
  have first := (Ringbuf.init_represents hring index).dropped
  rw [idle] at counted
  refine ⟨q.dropped, ?_, ?_⟩
  · have began : droppedCount (.start registers primask ring index) = 0 := by
      rw [droppedCount, System.start, if_pos rfl]
      exact first
    rw [began, droppedCount, if_pos accounts.initialized, inv.represents.dropped]
    simp
  · simp only [Thread.leftOut, Fifo.empty] at counted dropped
    omega

end Runs

/-- The counter grows by the missing bytes in every run whose refusals are all of
the last byte of a call. In any run it does so if and only if the bytes behind
the refused ones add up to a multiple of `2 ^ 32`. -/
theorem dropped_bytes_iff {config : Option TxConfig} {given : Option Ringbuf}
    {storage : Option (Nat → BitVec 8)} {ring : Ringbuf} {before registers : Registers}
    (hring : Ringbuf.init given storage cap = some ring)
    (hinit : txInit config (some ring) before = some registers) (primask : Bool) (index : BitVec 32) :
    let start := System.start registers primask ring index
    (∀ tr s, ((machine hw).restrict refusesLast).Run start tr s → s.thread = .idle →
      droppedCount s - droppedCount start = BitVec.ofNat 32 (missing tr)) ∧
    ∀ tr s, (machine hw).Run start tr s → s.thread = .idle →
      (droppedCount s - droppedCount start = BitVec.ofNat 32 (missing tr) ↔
        unoffered tr % 2 ^ 32 = 0) := by
  constructor
  · intro tr s run idle
    obtain ⟨run, -, none⟩ := lastOnly_run hring hinit run
    obtain ⟨refusals, counted, sum⟩ := droppedCount_eq hring hinit run idle
    rw [counted, ← sum, none, Nat.add_zero]
  · intro tr s run idle
    obtain ⟨refusals, counted, sum⟩ := droppedCount_eq hring hinit run idle
    rw [counted, ← sum, ← BitVec.toNat_inj, BitVec.toNat_ofNat, BitVec.toNat_ofNat]
    omega

/-- One byte too many for the ring. -/
theorem dropped_bytes_iff_one : ∃ registers s,
    txInit (some txConfig) (some Ringbuf.twoSlots) resetRegisters = some registers ∧
      (machine ⟨2, 1, by decide⟩).Run (.start registers false Ringbuf.twoSlots 0)
        [.ring (.accepted 0x61), .ring (.accepted 0x62), .ring (.full 0x63), .ring (.refused 0x63),
          .returned [0x61, 0x62, 0x63] 2] s ∧
      droppedCount s - droppedCount (.start registers false Ringbuf.twoSlots 0) = 1 := by
  obtain ⟨registers, hinit⟩ : ∃ registers,
      txInit (some txConfig) (some Ringbuf.twoSlots) resetRegisters = some registers :=
    ⟨_, rfl⟩
  obtain ⟨s, tr, run, shown⟩ := Machine.exec_shows (machine ⟨2, 1, by decide⟩)
    (.start registers false Ringbuf.twoSlots 0)
    (.write (some [0x61, 0x62, 0x63]) :: .replicate 18 .thread)
    (fun out => (decide (out.1.thread = .idle), out.2))
    (true, [.ring (.accepted 0x61), .ring (.accepted 0x62), .ring (.full 0x63), .ring (.refused 0x63),
      .returned [0x61, 0x62, 0x63] 2]) (by cases hinit; decide +kernel)
  obtain ⟨idle, rfl⟩ := Prod.mk.inj shown
  have hring : Ringbuf.init (some Ringbuf.twoSlots) (some fun _ => 0) 2 = some Ringbuf.twoSlots :=
    rfl
  have counted := (dropped_bytes_iff hring hinit false 0).2 _ s run (of_decide_eq_true idle)
  exact ⟨registers, s, hinit, run, counted.mpr rfl⟩

/-- Two bytes too many for the ring, of which one is counted. -/
theorem dropped_undercounted : ¬∀ (hw : Hardware) (cap : BitVec 32) (config : Option TxConfig)
    (given : Option Ringbuf) (storage : Option (Nat → BitVec 8)) (ring : Ringbuf)
    (before registers : Registers) (primask : Bool) (index : BitVec 32) (tr : List Event) (s : System),
    Ringbuf.init given storage cap = some ring → txInit config (some ring) before = some registers →
    (machine hw).Run (.start registers primask ring index) tr s → s.thread = .idle →
    droppedCount s - droppedCount (.start registers primask ring index) =
      BitVec.ofNat 32 (missing tr) := by
  intro always
  obtain ⟨registers, hinit⟩ : ∃ registers,
      txInit (some txConfig) (some Ringbuf.twoSlots) resetRegisters = some registers :=
    ⟨_, rfl⟩
  obtain ⟨s, tr, run, shown⟩ := Machine.exec_shows (machine ⟨2, 1, by decide⟩)
    (.start registers false Ringbuf.twoSlots 0)
    (.write (some [0x61, 0x62, 0x63, 0x64]) :: .replicate 18 .thread)
    (fun out => (decide (out.1.thread = .idle), droppedCount out.1, missing out.2))
    (true, 1, 2) (by cases hinit; decide +kernel)
  obtain ⟨idle, counted⟩ := Prod.mk.inj shown
  obtain ⟨one, two⟩ := Prod.mk.inj counted
  have hring : Ringbuf.init (some Ringbuf.twoSlots) (some fun _ => 0) 2 = some Ringbuf.twoSlots :=
    rfl
  have growth := always _ 2 _ _ _ _ _ _ false 0 tr s hring hinit run (of_decide_eq_true idle)
  have began : droppedCount (.start registers false Ringbuf.twoSlots 0) = 0 := rfl
  rw [one, two, began] at growth
  exact absurd growth (by decide)

end MspmBaremetal.Uart
