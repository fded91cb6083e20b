import TernaryMachine.Word

/-!
The status register: nine flags of one digit each, packed into one integer with flag `f` at the
place `f.index`. A flag is also addressed by its offset, the place minus four. Setting a flag adds
the change of its digit at its place, so the packed value and the nine digits stay in step.
-/

set_option autoImplicit false
set_option relaxedAutoImplicit false

namespace TernaryMachine

/-- The nine flags, from the lowest place to the highest. -/
inductive Flag where
  /-- The lowest digit of the last result. -/
  | lowest
  | mask
  | carry
  /-- The digit that a shift brings in. -/
  | data
  | sign
  | overflow
  /-- Not used by any operation. -/
  | spare
  | haltCode
  /-- The run direction, zero when halted. -/
  | direction
  deriving DecidableEq, Repr

namespace Flag

def all : List Flag :=
  [.lowest, .mask, .carry, .data, .sign, .overflow, .spare, .haltCode, .direction]

def index : Flag → Nat
  | .lowest => 0
  | .mask => 1
  | .carry => 2
  | .data => 3
  | .sign => 4
  | .overflow => 5
  | .spare => 6
  | .haltCode => 7
  | .direction => 8

/-- The signed number of a flag in a branch opcode. -/
def offset (f : Flag) : Int := f.index - 4

def ofOffset? (n : Int) : Option Flag := all.find? fun f => decide (f.offset = n)

def letter : Flag → Char
  | .lowest => 'L'
  | .mask => 'I'
  | .carry => 'C'
  | .data => 'D'
  | .sign => 'S'
  | .overflow => 'V'
  | .spare => 'U'
  | .haltCode => 'H'
  | .direction => 'R'

def ofLetter? (c : Char) : Option Flag := all.find? fun f => decide (f.letter = c)

end Flag

/-- The packed status register. -/
structure Flags where
  packed : Int
  deriving DecidableEq, Repr

namespace Flags

def width : Nat := 9

def clear : Flags := ⟨0⟩

def get (s : Flags) (f : Flag) : Trit := Digits.trit s.packed f.index

def set (s : Flags) (f : Flag) (t : Trit) : Flags :=
  ⟨s.packed + (t.toInt - (s.get f).toInt) * Digits.weight f.index⟩

/-- The power-on state: running forward, every interrupt but number zero masked. -/
def reset : Flags := (clear.set .direction .plus).set .mask .minus

/-- The register of a packed word; digits above the ninth are dropped. -/
def ofWord (w : Word) : Flags := ⟨Digits.slice w.val 0 width⟩

def ofInt? (n : Int) : Option Flags := (Digits.Bounded.slice? n 0 width).map Flags.mk

def toWord? (s : Flags) : Option Word := Word.ofInt? s.packed

/-- Records the sign and the lowest digit of a result. -/
def recordResult (s : Flags) (t : Tryte) : Flags := (s.set .sign t.sign).set .lowest t.lowest

def isHalted (s : Flags) : Bool := (s.get .direction).isZero

def flagText (s : Flags) (f : Flag) : String :=
  String.ofList [f.letter, '=', (s.get f).toChar]

def text (s : Flags) : String := " ".intercalate (Flag.all.reverse.map s.flagText)

def describe (s : Flags) : String := s!"Flags({s.text} = {s.packed})"

end Flags

example : Flags.reset.packed = 6558 := by decide

end TernaryMachine
