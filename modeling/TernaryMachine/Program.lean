import TernaryMachine.Tryte

/-!
Programs: trytes with the address at which they start.
-/

set_option autoImplicit false
set_option relaxedAutoImplicit false

namespace TernaryMachine

/-- Trytes and the address of the first. -/
structure Program where
  origin : Int
  code : List Tryte
  deriving DecidableEq, Repr

namespace Program

/-- The address just after the last tryte. -/
def stop (p : Program) : Int := p.origin + p.code.length

end Program

end TernaryMachine
