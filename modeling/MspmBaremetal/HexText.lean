import MspmBaremetal.ImageArtifacts

/-!
# The text of a HEX file

Records as lines of hexadecimal digits, and what a changed digit does to them.
-/

namespace MspmBaremetal.ImageTool

open ByteFields

section Digits

variable {c : Char} {n : Nat}

theorem hexDigit_lt (h : hexDigit c = some n) : n < 16 := by
  unfold hexDigit at h
  split at h
  · cases h
    omega
  · split at h
    · cases h
      omega
    · split at h
      · cases h
        omega
      · cases h

theorem hexDigit_range (h : hexDigit c = some n) : 0x30 ≤ c.toNat ∧ c.toNat ≠ 0x3A := by
  unfold hexDigit at h
  split at h
  · omega
  · split at h
    · omega
    · split at h
      · omega
      · cases h

theorem hexDigit_not_space (h : hexDigit c = some n) : asciiSpace c = false := by
  have := hexDigit_range h
  simp only [asciiSpace, List.mem_cons, List.not_mem_nil, or_false, decide_eq_false_iff_not]
  omega

theorem hexDigit_not_break (h : hexDigit c = some n) : lineBreak c = false := by
  have := hexDigit_range h
  simp only [lineBreak, List.mem_cons, List.not_mem_nil, or_false, decide_eq_false_iff_not]
  omega

theorem hexDigit_ne {d : Char} (h : hexDigit c = some n) (low : hexDigit d = none) : c ≠ d := by
  rintro rfl
  rw [h] at low
  cases low

end Digits

/-- Digits that spell bytes, two for each byte. -/
inductive Spelled : Bytes → List Char → Prop
  | nil : Spelled [] []
  | cons {high low : Nat} {c d : Char} {bytes : Bytes} {digits : List Char}
      (upper : hexDigit c = some high) (lower : hexDigit d = some low)
      (rest : Spelled bytes digits) :
      Spelled (BitVec.ofNat 8 (high * 16 + low) :: bytes) (c :: d :: digits)

/-- A colon and the digits of a record. -/
def SpelledLine (record : Bytes) (line : List Char) : Prop :=
  ∃ digits, line = ':' :: digits ∧ Spelled record digits

theorem Spelled.fromHex_eq {bytes : Bytes} {digits : List Char} (h : Spelled bytes digits) :
    fromHex digits = some bytes := by
  induction h with
  | nil => rfl
  | cons upper lower rest ih =>
    simp [fromHex, hexDigit_not_space upper, upper, lower, ih]

/-- Digits with no blanks between them spell what `fromhex` reads. -/
theorem spelled_of_fromHex {digits : List Char} {bytes : Bytes}
    (tight : digits.any asciiSpace = false) (read : fromHex digits = some bytes) :
    Spelled bytes digits := by
  rw [List.any_eq_false] at tight
  fun_induction fromHex digits generalizing bytes with
  | case1 =>
    cases read
    exact .nil
  | case2 c rest space ih =>
    exact absurd space (tight c List.mem_cons_self)
  | case3 c space => cases read
  | case4 c space d rest ih =>
    simp only [bind, pure, Option.bind_eq_some_iff, Option.some_inj] at read
    obtain ⟨high, upper, low, lower, others, tail, rfl⟩ := read
    refine .cons upper lower (ih (fun x mem => tight x ?_) tail)
    exact List.mem_cons_of_mem c (List.mem_cons_of_mem d mem)

/-- Another digit in one place spells another byte there. -/
theorem Spelled.replace {bytes : Bytes} {before after : List Char} {c c' : Char} {n n' : Nat}
    (h : Spelled bytes (before ++ c :: after)) (old : hexDigit c = some n)
    (new : hexDigit c' = some n') (differ : n ≠ n') :
    ∃ pre b b' post, bytes = pre ++ b :: post ∧ b ≠ b' ∧
      Spelled (pre ++ b' :: post) (before ++ c' :: after) := by
  have := hexDigit_lt old
  have := hexDigit_lt new
  generalize spelled : before ++ c :: after = digits at h
  induction h generalizing before with
  | nil => simp at spelled
  | @cons high low _ _ bytes _ upper lower rest ih =>
    have := hexDigit_lt upper
    have := hexDigit_lt lower
    rcases before with _ | ⟨x, _ | ⟨y, before⟩⟩
    · obtain ⟨rfl, rfl⟩ := List.cons.inj spelled
      obtain rfl : n = high := Option.some.inj (old.symm.trans upper)
      refine ⟨[], _, BitVec.ofNat 8 (n' * 16 + low), bytes, rfl, ?_, .cons new lower rest⟩
      intro same
      have := congrArg BitVec.toNat same
      simp only [BitVec.toNat_ofNat] at this
      omega
    · obtain ⟨rfl, second⟩ := List.cons.inj spelled
      obtain ⟨rfl, rfl⟩ := List.cons.inj second
      obtain rfl : n = low := Option.some.inj (old.symm.trans lower)
      refine ⟨[], _, BitVec.ofNat 8 (high * 16 + n'), bytes, rfl, ?_, .cons upper new rest⟩
      intro same
      have := congrArg BitVec.toNat same
      simp only [BitVec.toNat_ofNat] at this
      omega
    · obtain ⟨rfl, second⟩ := List.cons.inj spelled
      obtain ⟨rfl, further⟩ := List.cons.inj second
      obtain ⟨pre, b, b', post, rfl, other, spelled'⟩ := ih further
      exact ⟨_ :: pre, b, b', post, rfl, other, .cons upper lower spelled'⟩

/-! ## Checked records -/

/-- What the length and checksum of a record must satisfy. -/
structure Checked (record : Bytes) : Prop where
  length : record.length = (record.getD 0 0).toNat + 5
  checksum : (record.map BitVec.toNat).sum % 0x100 = 0

theorem hexRecord_eq_ok {here : String} {line : List Char} {record : Bytes} :
    hexRecord here line = .ok record ↔
      line.head? = some ':' ∧ fromHex line.tail = some record ∧ Checked record := by
  simp only [hexRecord, failIf_bind_eq_ok, ne_eq, not_not]
  apply and_congr_right
  intro _
  split
  next invalid => simp [invalid]
  next found spelled =>
    simp only [failIf_bind_eq_ok, pure_eq_ok, not_or, not_lt, not_not, spelled, Option.some_inj]
    constructor
    · rintro ⟨⟨-, length⟩, checksum, rfl⟩
      exact ⟨rfl, length, checksum⟩
    · rintro ⟨rfl, length, checksum⟩
      exact ⟨⟨by omega, length⟩, checksum, rfl⟩

theorem SpelledLine.hexRecord_eq {record : Bytes} {line : List Char} (h : SpelledLine record line)
    (checked : Checked record) (here : String) : hexRecord here line = .ok record := by
  obtain ⟨digits, rfl, spelled⟩ := h
  exact hexRecord_eq_ok.mpr ⟨rfl, spelled.fromHex_eq, checked⟩

/-- One other byte breaks the length or the checksum. -/
theorem Checked.not_replaced {pre post : Bytes} {b b' : BitVec 8}
    (h : Checked (pre ++ b :: post)) (other : b ≠ b') : ¬Checked (pre ++ b' :: post) := by
  intro h'
  have length := h.length
  have length' := h'.length
  have checksum := h.checksum
  have checksum' := h'.checksum
  have := b.isLt
  have := b'.isLt
  apply other
  apply BitVec.eq_of_toNat_eq
  rcases pre with _ | ⟨count, pre⟩
  · simp only [List.nil_append, List.length_cons, List.getD_cons_zero] at length length'
    omega
  · simp only [List.cons_append, List.map_cons, List.map_append, List.sum_cons, List.sum_append]
      at checksum checksum'
    omega

/-- A changed digit makes a record's line unacceptable. -/
theorem SpelledLine.hexRecord_replaced {record : Bytes} {before after : List Char} {c c' : Char}
    {n n' : Nat} (h : SpelledLine record (before ++ c :: after)) (checked : Checked record)
    (old : hexDigit c = some n) (new : hexDigit c' = some n') (differ : n ≠ n') (here : String)
    (record' : Bytes) : hexRecord here (before ++ c' :: after) ≠ .ok record' := by
  intro accepted
  obtain ⟨digits, line, spelled⟩ := h
  rcases before with _ | ⟨x, before⟩
  · obtain ⟨rfl, -⟩ := List.cons.inj line
    cases old
  · obtain ⟨rfl, rfl⟩ := List.cons.inj line
    obtain ⟨pre, b, b', post, rfl, other, spelled'⟩ := spelled.replace old new differ
    obtain ⟨-, read, checked'⟩ := hexRecord_eq_ok.mp accepted
    rw [List.cons_append, List.tail_cons, spelled'.fromHex_eq] at read
    cases read
    exact checked.not_replaced other checked'

/-! ## Lines -/

/-- A character that is no line end does not change how the rest of a text is translated. -/
theorem universalNewlines_append {c : Char} (noCr : c ≠ '\r') (noLf : c ≠ '\n')
    (before after : List Char) : universalNewlines (before ++ c :: after) =
      universalNewlines before ++ c :: universalNewlines after := by
  fun_induction universalNewlines before with
  | case1 rest ih => rw [List.cons_append, List.cons_append, universalNewlines, ih, List.cons_append]
  | case2 rest alone ih =>
    have alone' : ∀ tail, rest ++ c :: after = '\n' :: tail → False := by
      intro tail starts
      rcases rest with _ | ⟨x, rest⟩
      · exact noLf (List.cons.inj starts).1
      · exact alone rest (congrArg (· :: rest) (List.cons.inj starts).1)
    rw [List.cons_append, universalNewlines, ih, List.cons_append]
    exact alone'
  | case3 x rest crlf cr ih =>
    rw [List.cons_append, universalNewlines, ih, List.cons_append]
    · exact fun tail isCr _ => cr isCr
    · exact cr
  | case4 =>
    rw [List.nil_append, universalNewlines, List.nil_append]
    · exact fun tail isCr _ => noCr isCr
    · exact noCr

/-- A line that has begun goes on to the next break. -/
theorem splitLinesFrom_open (text : List Char) : ∃ stop after, ∀ line, line ≠ [] →
    splitLinesFrom line text = (line ++ stop) :: after := by
  induction text with
  | nil =>
    refine ⟨[], [], ?_⟩
    intro line some
    rw [splitLinesFrom, if_neg some, List.append_nil]
  | cons c rest ih =>
    obtain ⟨stop, after, continues⟩ := ih
    by_cases ends : lineBreak c = true
    · refine ⟨[], splitLinesFrom [] rest, ?_⟩
      intro line _
      rw [splitLinesFrom, if_pos ends, List.append_nil]
    · refine ⟨c :: stop, after, ?_⟩
      intro line _
      rw [splitLinesFrom, if_neg ends, continues _ (by simp), List.append_assoc]
      rfl

/-- The line of a character that is no line break. -/
theorem splitLinesFrom_append (before after line : List Char) :
    ∃ earlier start stop later, ∀ c, lineBreak c = false →
      splitLinesFrom line (before ++ c :: after) = earlier ++ (start ++ c :: stop) :: later := by
  induction before generalizing line with
  | nil =>
    obtain ⟨stop, later, continues⟩ := splitLinesFrom_open after
    refine ⟨[], line, stop, later, ?_⟩
    intro c inLine
    rw [List.nil_append, splitLinesFrom, if_neg (by simp [inLine]), continues _ (by simp),
      List.append_assoc]
    rfl
  | cons x before ih =>
    by_cases ends : lineBreak x = true
    · obtain ⟨earlier, start, stop, later, split⟩ := ih []
      refine ⟨line :: earlier, start, stop, later, ?_⟩
      intro c inLine
      rw [List.cons_append, splitLinesFrom, if_pos ends, split c inLine]
      rfl
    · obtain ⟨earlier, start, stop, later, split⟩ := ih (line ++ [x])
      refine ⟨earlier, start, stop, later, ?_⟩
      intro c inLine
      rw [List.cons_append, splitLinesFrom, if_neg ends, split c inLine]

/-- The character of a byte of an ASCII file. -/
def byteChar (byte : BitVec 8) : Char := Char.ofNat byte.toNat

/-- Two digits in the same place of a file are in the same place of one line. -/
theorem readLines_replace {before after : Bytes} {b b' : BitVec 8}
    {lines : List (List Char)} {n n' : Nat} (old : hexDigit (byteChar b) = some n)
    (new : hexDigit (byteChar b') = some n')
    (read : readLines (before ++ b :: after) = .ok lines) :
    ∃ earlier start stop later, lines = earlier ++ (start ++ byteChar b :: stop) :: later ∧
      ∀ lines', readLines (before ++ b' :: after) = .ok lines' →
        lines' = earlier ++ (start ++ byteChar b' :: stop) :: later := by
  obtain ⟨earlier, start, stop, later, split⟩ := splitLinesFrom_append
    (universalNewlines (before.map byteChar)) (universalNewlines (after.map byteChar)) []
  have text : ∀ {x : BitVec 8} {m : Nat}, hexDigit (byteChar x) = some m → ∀ lines,
      readLines (before ++ x :: after) = .ok lines →
        lines = earlier ++ (start ++ byteChar x :: stop) :: later := by
    intro x m digit lines read
    simp only [readLines, failIf_bind_eq_ok, pure_eq_ok] at read
    rw [read.2, ← split _ (hexDigit_not_break digit), ← universalNewlines_append
      (hexDigit_ne digit rfl) (hexDigit_ne digit rfl), List.map_append]
    rfl
  exact ⟨earlier, start, stop, later, text old lines read, fun lines' read' => text new lines' read'⟩

end MspmBaremetal.ImageTool
