import Mathlib.Algebra.Group.Nat.Defs
import Mathlib.Tactic.Common

/-!
# The memory layout of `linker.ld`

Where the linker script places what the objects of an image contain, and its
assertions. `link_separated` says what a linked image may rely on, `link_some_iff`
which images link.
-/

namespace MspmBaremetal.Linker

def stackSize : Nat := 0x400
def imageIdSize : Nat := 0x40
def flashOrigin : Nat := 0x00000000
def flashLength : Nat := 0x00010000
def sramOrigin : Nat := 0x20000000
def sramLength : Nat := 0x00002000

def stackTop : Nat := sramOrigin + sramLength
def stackLimit : Nat := stackTop - stackSize
def sramStart : Nat := sramOrigin
def crashStackFrameLimit : Nat := stackTop - 32
def imageIdentityStart : Nat := flashOrigin + flashLength - imageIdSize

/-- What the objects put into one section; the alignment is a power of two. -/
structure Contents where
  size : Nat
  alignment : Nat
  deriving DecidableEq, Repr

/-- The contents of an image. `g_crash_record` lies in `.noinit`. -/
structure Inputs where
  isrVector : Contents
  text : Contents
  exidx : Contents
  data : Contents
  bss : Contents
  noinit : Contents
  imageIdentity : Contents
  crashRecord : Nat
  crashRecord_inside : crashRecord + 32 ≤ noinit.size

structure Range where
  start : Nat
  stop : Nat
  deriving DecidableEq, Repr

def Range.size (r : Range) : Nat := r.stop - r.start

/-- `ALIGN(2^k)` of a location. -/
def align (k location : Nat) : Nat := (location + (2 ^ k - 1)) / 2 ^ k * 2 ^ k

/-- A section from the next location its contents may start at, up to `ALIGN(4)`. -/
def place (location alignment size : Nat) : Range :=
  { start := align alignment location, stop := align 2 (align alignment location + size) }

structure Layout where
  isrVector : Range
  text : Range
  exidx : Range
  data : Range
  dataLoad : Range
  bss : Range
  noinit : Range
  stack : Range
  imageIdentity : Range
  crashRecord : Nat
  deriving DecidableEq, Repr

/-- `SECTIONS`. -/
def sections (i : Inputs) : Layout :=
  let isrVector := place flashOrigin (max 8 i.isrVector.alignment) i.isrVector.size
  let text := place isrVector.stop i.text.alignment i.text.size
  let exidx := place text.stop i.exidx.alignment i.exidx.size
  -- the byte after the contents keeps the load image from being empty
  let data := place sramOrigin i.data.alignment (i.data.size + 1)
  let bss := place data.stop i.bss.alignment i.bss.size
  let noinit := place bss.stop i.noinit.alignment i.noinit.size
  { isrVector, text, exidx, data, bss, noinit
    -- in another region than `.data`, which the script does not align there
    dataLoad := ⟨exidx.stop, exidx.stop + data.size⟩
    stack := ⟨stackLimit, stackLimit + stackSize⟩
    imageIdentity := ⟨imageIdentityStart, imageIdentityStart + i.imageIdentity.size⟩
    crashRecord := noinit.start + i.crashRecord }

/-- The assertions of the script, and that each region holds its sections. -/
def Accepted (l : Layout) : Prop :=
  l.dataLoad.stop ≤ imageIdentityStart ∧ flashOrigin ≤ l.dataLoad.start ∧ 0 < l.data.size ∧
  l.isrVector.start = flashOrigin ∧ l.noinit.stop ≤ stackLimit ∧ l.imageIdentity.size = imageIdSize ∧
  l.dataLoad.stop ≤ flashOrigin + flashLength ∧ l.noinit.stop ≤ sramOrigin + sramLength

instance (l : Layout) : Decidable (Accepted l) := by unfold Accepted; infer_instance

def link (i : Inputs) : Option Layout :=
  if Accepted (sections i) then some (sections i) else none

/-! ## Alignment -/

theorem le_align (k location : Nat) : location ≤ align k location := by
  have some := Nat.two_pow_pos k
  have whole := Nat.div_add_mod (location + (2 ^ k - 1)) (2 ^ k)
  have rest := Nat.mod_lt (location + (2 ^ k - 1)) some
  rw [align, Nat.mul_comm]
  omega

theorem align_of_dvd {k location : Nat} (h : 2 ^ k ∣ location) : align k location = location := by
  obtain ⟨n, rfl⟩ := h
  have some := Nat.two_pow_pos k
  rw [align, Nat.mul_add_div some, Nat.div_eq_of_lt (by omega), Nat.add_zero, Nat.mul_comm]

theorem place_le (location alignment size : Nat) :
    location ≤ (place location alignment size).start ∧
      (place location alignment size).start + size ≤ (place location alignment size).stop :=
  ⟨le_align .., le_align ..⟩

/-! ## What a linked image relies on -/

/-- The sections of each memory follow one another inside it, below the stack
and the image identity. -/
structure Separated (i : Inputs) (l : Layout) : Prop where
  vectors_first : l.isrVector.start = 0
  flash : l.isrVector.stop ≤ l.text.start ∧ l.text.stop ≤ l.exidx.start ∧
    l.exidx.stop ≤ l.dataLoad.start ∧ l.dataLoad.stop ≤ l.imageIdentity.start
  identity_last : l.imageIdentity = ⟨0xffc0, 0x10000⟩
  sram : 0x20000000 ≤ l.data.start ∧ l.data.stop ≤ l.bss.start ∧ l.bss.stop ≤ l.noinit.start ∧
    l.noinit.stop ≤ l.stack.start
  stack_last : l.stack = ⟨0x20001c00, 0x20002000⟩
  holds : l.isrVector.start + i.isrVector.size ≤ l.isrVector.stop ∧
    l.text.start + i.text.size ≤ l.text.stop ∧ l.exidx.start + i.exidx.size ≤ l.exidx.stop ∧
    l.data.start + i.data.size < l.data.stop ∧ l.bss.start + i.bss.size ≤ l.bss.stop ∧
    l.noinit.start + i.noinit.size ≤ l.noinit.stop
  load_image : l.dataLoad.start + l.data.stop = l.dataLoad.stop + l.data.start
  record : l.noinit.start ≤ l.crashRecord ∧ l.crashRecord + 32 ≤ l.noinit.stop

theorem link_separated {i : Inputs} {l : Layout} (h : link i = some l) : Separated i l := by
  obtain ⟨accepted, laid⟩ := Option.ite_none_right_eq_some.mp h
  obtain rfl := Option.some.inj laid
  obtain ⟨image, -, -, vectors, ram, identity, -, -⟩ := accepted
  have size := place_le sramOrigin i.data.alignment (i.data.size + 1)
  have inside := i.crashRecord_inside
  have noinit : (sections i).noinit.start + i.noinit.size ≤ (sections i).noinit.stop :=
    (place_le ..).2
  have exact : (sections i).imageIdentity.size = i.imageIdentity.size := by
    simp [sections, Range.size]
  constructor
  case vectors_first => exact vectors
  case flash => exact ⟨(place_le ..).1, (place_le ..).1, Nat.le_refl _, image⟩
  case identity_last =>
    rw [exact] at identity
    simp only [sections, identity]
    rfl
  case sram => exact ⟨(place_le ..).1, (place_le ..).1, (place_le ..).1, ram⟩
  case stack_last => rfl
  case holds =>
    exact ⟨(place_le ..).2, (place_le ..).2, (place_le ..).2, size.2, (place_le ..).2, noinit⟩
  case load_image =>
    simp only [sections, Range.size]
    omega
  case record =>
    change (sections i).noinit.start ≤ (sections i).noinit.start + i.crashRecord ∧
      (sections i).noinit.start + i.crashRecord + 32 ≤ (sections i).noinit.stop
    omega

/-! ## Which images link -/

/-- The objects ask for no more than word alignment, the vector table for its own. -/
structure WordAligned (i : Inputs) : Prop where
  isrVector : i.isrVector.alignment ≤ 8
  text : i.text.alignment ≤ 2
  exidx : i.exidx.alignment ≤ 2
  data : i.data.alignment ≤ 2
  bss : i.bss.alignment ≤ 2
  noinit : i.noinit.alignment ≤ 2

/-- The bytes a section of word-aligned contents takes. -/
def words (size : Nat) : Nat := align 2 size

theorem words_dvd (size : Nat) : 4 ∣ words size := Nat.dvd_mul_left ..

theorem place_words {location alignment : Nat} (size : Nat) (whole : 4 ∣ location)
    (small : alignment ≤ 2) :
    place location alignment size = ⟨location, location + words size⟩ := by
  have start : align alignment location = location :=
    align_of_dvd (Nat.dvd_trans (Nat.pow_dvd_pow 2 small) whole)
  obtain ⟨n, rfl⟩ := whole
  rw [place, start, words, align, align]
  congr 1
  omega

theorem sections_words {i : Inputs} (h : WordAligned i) :
    let flash := words i.isrVector.size + words i.text.size + words i.exidx.size
    let data := words (i.data.size + 1)
    (sections i).isrVector.start = 0 ∧
      (sections i).dataLoad = ⟨flash, flash + data⟩ ∧
      (sections i).data = ⟨sramOrigin, sramOrigin + data⟩ ∧
      (sections i).noinit.stop =
        sramOrigin + data + words i.bss.size + words i.noinit.size := by
  have isr : place flashOrigin (max 8 i.isrVector.alignment) i.isrVector.size =
      ⟨0, words i.isrVector.size⟩ := by
    rw [place, flashOrigin, align_of_dvd (Nat.dvd_zero _), Nat.zero_add, words]
  have text := place_words i.text.size (words_dvd i.isrVector.size) h.text
  have exidx := place_words i.exidx.size
    (Nat.dvd_add (words_dvd i.isrVector.size) (words_dvd i.text.size)) h.exidx
  have origin : 4 ∣ sramOrigin := by decide
  have data := place_words (i.data.size + 1) origin h.data
  have bss := place_words i.bss.size (Nat.dvd_add origin (words_dvd (i.data.size + 1))) h.bss
  have noinit := place_words i.noinit.size
    (Nat.dvd_add (Nat.dvd_add origin (words_dvd (i.data.size + 1))) (words_dvd i.bss.size)) h.noinit
  simp only [sections, isr, text, exidx, data, bss, noinit, Range.size,
    Nat.add_sub_cancel_left, and_self]

/-- Such an image links exactly if its load image ends below the image identity,
its SRAM sections below the stack, and the identity fills its reservation. -/
theorem link_some_iff {i : Inputs} (h : WordAligned i) :
    (∃ l, link i = some l) ↔
      words i.isrVector.size + words i.text.size + words i.exidx.size + words (i.data.size + 1) ≤
        0xffc0 ∧
      words (i.data.size + 1) + words i.bss.size + words i.noinit.size ≤ 0x1c00 ∧
      i.imageIdentity.size = 0x40 := by
  obtain ⟨isr, load, data, noinit⟩ := sections_words h
  have exact : (sections i).imageIdentity.size = i.imageIdentity.size := by
    simp [sections, Range.size]
  have anchor : i.data.size + 1 ≤ words (i.data.size + 1) := le_align ..
  have accepted : (∃ l, link i = some l) ↔ Accepted (sections i) := by simp [link]
  rw [accepted]
  simp only [Accepted, isr, load, data, noinit, exact]
  simp only [Range.size, Nat.add_sub_cancel_left, imageIdentityStart, flashOrigin, flashLength,
    sramOrigin, sramLength, stackLimit, stackTop, stackSize, imageIdSize, true_and]
  omega

/-- An image of the 48 vectors, some code and constants, and the crash record
among 64 retained bytes. -/
def sample : Inputs where
  isrVector := ⟨192, 8⟩
  text := ⟨5001, 2⟩
  exidx := ⟨8, 2⟩
  data := ⟨6, 2⟩
  bss := ⟨611, 2⟩
  noinit := ⟨64, 2⟩
  imageIdentity := ⟨64, 2⟩
  crashRecord := 32
  crashRecord_inside := by decide

theorem sample_linked : link sample = some (sections sample) := if_pos (by decide)

theorem link_some_iff_sample : ∃ l, link sample = some l :=
  (link_some_iff (i := sample) (by constructor <;> decide)).mpr (by decide)

end MspmBaremetal.Linker
