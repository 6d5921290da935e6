import Mathlib.Logic.Function.Basic

/-!
# Straight ARMv6-M code

The instructions of an assembler listing whose branches all go forward to a
local label. A listing runs until it branches to an address outside it; a load
that is not aligned, or from an address that does not answer, does not return.
-/

namespace Thumb

inductive Register where
  | r0 | r1 | r2 | r3 | r4 | r5 | r6 | r7
  deriving DecidableEq, Repr

inductive Special where
  | msp | ipsr
  deriving DecidableEq, Repr

inductive Condition where
  | ne | lo | hi
  deriving DecidableEq, Repr

/-- One line; `ldr rd, =value` is `literal`. -/
inductive Line where
  | mrs (rd : Register) (special : Special)
  | msr (special : Special) (rn : Register)
  | movs (rd : Register) (value : BitVec 8)
  | movsRegister (rd rm : Register)
  | literal (rd : Register) (value : BitVec 32)
  | ldr (rd rn : Register) (offset : BitVec 32)
  | tst (rn rm : Register)
  | cmp (rn rm : Register)
  | branch (forward : Nat)
  | branchIf (condition : Condition) (forward : Nat)
  | label (name : Nat)
  | bx (rm : Register)
  deriving DecidableEq, Repr

/-- The registers; of the flags, those that a condition here reads. -/
structure State where
  registers : Register → BitVec 32
  special : Special → BitVec 32
  zero : Bool
  carry : Bool

/-- What a load of an aligned word returns, if the address answers. -/
abbrev Loads := BitVec 32 → Option (BitVec 32)

def State.set (s : State) (rd : Register) (value : BitVec 32) : State :=
  { s with registers := Function.update s.registers rd value }

/-- A move also sets the flag for zero. -/
def State.move (s : State) (rd : Register) (value : BitVec 32) : State :=
  { s.set rd value with zero := value == 0 }

def Condition.holds (s : State) : Condition → Bool
  | .ne => !s.zero
  | .lo => !s.carry
  | .hi => s.carry && !s.zero

/-- Writes a special register: the stack pointer's two low bits are zero, and
the exception number is read only. -/
def State.writeSpecial (s : State) (special : Special) (value : BitVec 32) : State :=
  match special with
  | .msp => { s with special := Function.update s.special .msp (value &&& ~~~3) }
  | .ipsr => s

/-- The listing from the next line with this label. -/
def after (name : Nat) (code : List Line) : List Line :=
  (code.dropWhile (· ≠ .label name)).drop 1

/-- Where the code branches to in the end, and the state it leaves; `none` if it
does not get there in `fuel` lines. -/
def run (memory : Loads) : Nat → List Line → State → Option (BitVec 32 × State)
  | 0, _, _ => none
  | _ + 1, [], _ => none
  | fuel + 1, line :: code, s =>
    match line with
    | .mrs rd special => run memory fuel code (s.set rd (s.special special))
    | .msr special rn => run memory fuel code (s.writeSpecial special (s.registers rn))
    | .movs rd value => run memory fuel code (s.move rd (value.setWidth 32))
    | .movsRegister rd rm => run memory fuel code (s.move rd (s.registers rm))
    | .literal rd value => run memory fuel code (s.set rd value)
    | .ldr rd rn offset =>
      let address := s.registers rn + offset
      if address &&& 3 = 0 then
        match memory address with
        | some value => run memory fuel code (s.set rd value)
        | none => none
      else none
    | .tst rn rm =>
      run memory fuel code { s with zero := s.registers rn &&& s.registers rm == 0 }
    | .cmp rn rm =>
      run memory fuel code { s with
        zero := s.registers rn == s.registers rm
        carry := s.registers rm ≤ s.registers rn }
    | .branch forward => run memory fuel (after forward code) s
    | .branchIf condition forward =>
      if condition.holds s then run memory fuel (after forward code) s
      else run memory fuel code s
    | .label _ => run memory fuel code s
    | .bx rm => some (s.registers rm, s)

variable {memory : Loads} {fuel : Nat} {code : List Line} {s : State}

theorem run_stays {condition : Condition} {forward : Nat} (stays : condition.holds s = false) :
    run memory (fuel + 1) (.branchIf condition forward :: code) s = run memory fuel code s := by
  simp [run, stays]

theorem run_branches {condition : Condition} {forward : Nat} (branches : condition.holds s = true) :
    run memory (fuel + 1) (.branchIf condition forward :: code) s =
      run memory fuel (after forward code) s := by
  simp [run, branches]

theorem run_ldr {rd rn : Register} {offset value : BitVec 32}
    (aligned : s.registers rn + offset &&& 3 = 0)
    (loads : memory (s.registers rn + offset) = some value) :
    run memory (fuel + 1) (.ldr rd rn offset :: code) s =
      run memory fuel code (s.set rd value) := by
  simp only [run, if_pos aligned, loads]

end Thumb
