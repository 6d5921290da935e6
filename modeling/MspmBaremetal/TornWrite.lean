import MspmBaremetal.Crash

/-!
# Crash-record updates survive a reset between any two stores

While the magic word is clear the record is refused, so only the stores before
it is cleared and the one that sets it again can be seen. `lib_crash_note_boot`
overwrites the reset cause of a valid record before it clears the magic word:
there the check refuses the mixture, because it is injective in one word.
-/

namespace MspmBaremetal.Crash

/-- Changing only the reset cause changes the check. -/
theorem crc32_resetCause_injective (r : Record) {resetCause : BitVec 32}
    (h : crc32 (setResetCause resetCause r) = crc32 r) : resetCause = r.resetCause := by
  by_contra ne
  unfold crc32 at h
  rw [crcBytes_eq, crcBytes_eq] at h
  have bytes : littleEndian 4 resetCause ≠ littleEndian 4 r.resetCause :=
    fun same => ne (littleEndian_inj (n := 4) same)
  have top : polynomial.getLsbD (32 - 1) = true := by decide
  have window := Crc.bytes_window_ne top (by decide) 0xFFFFFFFF
    (littleEndian 2 r.formatVersion ++ littleEndian 2 r.recordSize ++ littleEndian 4 r.sequence)
    (littleEndian 4 r.reason ++ littleEndian 4 r.stackedPc ++ littleEndian 4 r.stackedXpsr)
    (by simp [littleEndian]) (by simp [littleEndian]) bytes
  apply window
  have checks := congrArg (~~~·) h
  simpa only [setResetCause, BitVec.not_not, List.append_assoc] using checks

/-- A store that does not set a cleared magic word. -/
def KeepsCleared (store : Store) : Prop := ∀ r : Record, r.magic = 0 → (store r).magic = 0

theorem run_cleared {stores : List Store} (h : ∀ store ∈ stores, KeepsCleared store) {r : Record}
    (hr : r.magic = 0) : (run stores r).magic = 0 := by
  induction stores generalizing r with
  | nil => exact hr
  | cons store stores ih =>
    rw [run_cons]
    apply ih (fun s hs => h s (List.mem_cons_of_mem _ hs))
    exact h store List.mem_cons_self r hr

/-- Between a store that clears the magic word and the one that sets it again,
no prefix is accepted. -/
theorem guarded_prefix {mid : List Store} (h : ∀ store ∈ mid, KeepsCleared store) (last : Store)
    (r : Record) (k : Nat) :
    let stores := clearMagic :: mid ++ [last]
    run (stores.take k) r = r ∨ (run (stores.take k) r).magic = 0 ∨
      run (stores.take k) r = run stores r := by
  intro stores
  cases k with
  | zero => exact .inl rfl
  | succ k =>
    by_cases before : k ≤ mid.length
    · have split : stores.take (k + 1) = clearMagic :: mid.take k := by
        simp [stores, List.take_append_of_le_length before]
      rw [split, run_cons]
      exact .inr (.inl (run_cleared (fun s hs => h s (List.mem_of_mem_take hs)) rfl))
    · have all : stores.take (k + 1) = stores := by
        apply List.take_of_length_le
        simp [stores]
        omega
      exact .inr (.inr (by rw [all]))

/-- The stores of `lib_crash_commit` and `lib_crash_clear_record` all leave a
cleared magic word alone, except the last one of `commit`. -/
theorem commit_keeps : ∀ store ∈ commit.dropLast, KeepsCleared store := by
  intro store hs r hr
  simp only [commit, List.dropLast, List.mem_cons, List.not_mem_nil, or_false] at hs
  rcases hs with rfl | rfl | rfl | rfl <;> first | rfl | exact hr

theorem clearRecord_keeps : ∀ store ∈ clearRecord, KeepsCleared store := by
  intro store hs r hr
  simp only [clearRecord, List.mem_cons, List.not_mem_nil, or_false] at hs
  rcases hs with rfl | rfl | rfl | rfl | rfl | rfl | rfl | rfl | rfl <;> first | rfl | exact hr

/-- A call whose first store clears the magic word and whose other stores, up
to `lib_crash_commit`, leave it alone. -/
theorem cleared_call {fields : List Store} (h : ∀ store ∈ fields, KeepsCleared store) (r : Record)
    (k : Nat) :
    let stores := clearRecord ++ fields ++ commit
    isValid (run (stores.take k) r) = true →
      run (stores.take k) r = r ∨ run (stores.take k) r = run stores r := by
  intro stores accepted
  have shape : stores = clearMagic :: (clearRecord.tail ++ fields ++ commit.dropLast) ++ [setMagic] := by
    simp [stores, clearRecord, commit]
  have keeps : ∀ store ∈ clearRecord.tail ++ fields ++ commit.dropLast, KeepsCleared store := by
    intro store hs
    simp only [List.mem_append, or_assoc] at hs
    rcases hs with hs | hs | hs
    · exact clearRecord_keeps store (List.mem_of_mem_tail hs)
    · exact h store hs
    · exact commit_keeps store hs
  rcases guarded_prefix keeps setMagic r k with same | cleared | done
  · exact .inl (by rw [shape]; exact same)
  · rw [← shape] at cleared
    rw [invalid_of_cleared cleared] at accepted
    cases accepted
  · exact .inr (by rw [shape]; exact done)

/-- On a valid record the reset cause is stored while the magic word is set. -/
theorem noteBoot_valid_prefix {r : Record} (valid : isValid r = true) (resetCause : BitVec 32)
    (k : Nat) :
    let stores := setResetCause resetCause :: commit
    isValid (run (stores.take k) r) = true →
      run (stores.take k) r = r ∨ run (stores.take k) r = run stores r := by
  intro stores accepted
  cases k with
  | zero => exact .inl rfl
  | succ k =>
    have step : run (stores.take (k + 1)) r = run (commit.take k) (setResetCause resetCause r) := rfl
    have shape : commit = clearMagic :: commit.tail.dropLast ++ [setMagic] := rfl
    have keeps : ∀ store ∈ commit.tail.dropLast, KeepsCleared store := by
      intro store hs
      apply commit_keeps
      exact List.mem_of_mem_tail (by simpa [commit] using hs)
    rw [step] at accepted ⊢
    rcases guarded_prefix keeps setMagic (setResetCause resetCause r) k with same | cleared | done
    · rw [← shape] at same
      rw [same] at accepted ⊢
      have old := ((isValid_iff r).mp valid).2.2.2.2
      have new := ((isValid_iff _).mp accepted).2.2.2.2
      have cause : resetCause = r.resetCause := by
        apply crc32_resetCause_injective r
        rw [← new, ← old]
        rfl
      exact .inl (by rw [cause]; rfl)
    · rw [← shape] at cleared
      rw [invalid_of_cleared cleared] at accepted
      cases accepted
    · exact .inr (by rw [← shape] at done; exact done)

/-- **Updates are torn-write safe.** Whatever the record held, and after
whichever store of a call a reset strikes, an accepted record is the one from
before the call or the one the completed call produces. -/
theorem torn_write_safe (c : Call) (r : Record) (k : Nat)
    (accepted : isValid (run ((c.stores r).take k) r) = true) :
    run ((c.stores r).take k) r = r ∨ run ((c.stores r).take k) r = c.apply r := by
  cases c with
  | noteBoot resetCause =>
    by_cases valid : isValid r = true
    · have stores : (Call.noteBoot resetCause).stores r = setResetCause resetCause :: commit := by
        simp [Call.stores, noteBoot, valid]
      unfold Call.apply
      rw [stores] at accepted ⊢
      exact noteBoot_valid_prefix valid resetCause k accepted
    · have stores : (Call.noteBoot resetCause).stores r =
          clearRecord ++ [setResetCause resetCause] ++ commit := by
        simp [Call.stores, noteBoot, valid]
      unfold Call.apply
      rw [stores] at accepted ⊢
      apply cleared_call _ r k accepted
      intro store hs s h0
      rw [List.mem_singleton.mp hs]
      exact h0
  | capture reason exceptionNumber stackedPc stackedXpsr =>
    apply cleared_call _ r k accepted
    intro store hs s h0
    simp only [List.mem_cons, List.not_mem_nil, or_false] at hs
    rcases hs with rfl | rfl | rfl | rfl | rfl <;> exact h0

/-- The record after power-on noise was cleared and a reset cause noted. -/
def fresh : Record := (Call.noteBoot 0x0D).apply ⟨0xDEADBEEF, 1, 2, 3, 4, 5, 6, 7, 8⟩

/-- A reset that strikes `lib_crash_note_boot` right before its last store, and
one after it. -/
theorem torn_write_safe_boot :
    isValid (run (((Call.noteBoot 0x0E).stores fresh).take 6) fresh) = true ∧
    (run (((Call.noteBoot 0x0E).stores fresh).take 6) fresh = fresh ∨
      run (((Call.noteBoot 0x0E).stores fresh).take 6) fresh = (Call.noteBoot 0x0E).apply fresh) := by
  have accepted : isValid (run (((Call.noteBoot 0x0E).stores fresh).take 6) fresh) = true := by
    decide +kernel
  exact ⟨accepted, torn_write_safe _ _ _ accepted⟩

end MspmBaremetal.Crash
