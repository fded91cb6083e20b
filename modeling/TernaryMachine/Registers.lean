import TernaryMachine.Flags

/-!
The registers: program counter, accumulator, two index registers, stack pointer and status. The
run direction, a flag, is the step by which the program counter moves. Sums that would leave 32
bits have no result.
-/

set_option autoImplicit false
set_option relaxedAutoImplicit false

namespace TernaryMachine

structure Registers where
  pc : Int
  accumulator : Tryte
  indexX : Tryte
  indexY : Tryte
  stackPointer : Int
  flags : Flags
  deriving DecidableEq, Repr

namespace Registers

def initial : Registers := ⟨0, Tryte.zero, Tryte.zero, Tryte.zero, 0, Flags.reset⟩

/-- The run direction: plus forward, minus backward, zero halted. -/
def direction (r : Registers) : Trit := r.flags.get .direction

/-- The address that lies `steps` cells ahead in run direction. -/
def ahead? (r : Registers) (steps : Int) : Option Int := do
  Signed32.add? r.pc (← Signed32.mul? steps r.direction.toInt)

def plusX? (r : Registers) (base : Int) : Option Int := Signed32.add? base r.indexX.val

def plusY? (r : Registers) (base : Int) : Option Int := Signed32.add? base r.indexY.val

/-- The stack pointer as a word whose lower half is X and whose upper half is Y. -/
def pointerWord (r : Registers) : Word := Word.ofHalves r.indexX r.indexY

def describe (r : Registers) : String :=
  "Registers \x7b " ++ s!"pc: {r.pc}, accum: {r.accumulator.describe}, "
    ++ s!"index: {r.indexX.describe}, yindex: {r.indexY.describe}, "
    ++ s!"stackptr: {r.stackPointer}, flags: {r.flags.describe}" ++ " \x7d"

end Registers

end TernaryMachine
