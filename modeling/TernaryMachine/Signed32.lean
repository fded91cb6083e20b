/-!
The range of signed 32-bit integers. Program counters, stack pointers, addresses and literals are
kept in it; a sum that would leave it is refused rather than wrapped.
-/

set_option autoImplicit false
set_option relaxedAutoImplicit false

namespace TernaryMachine.Signed32

def minValue : Int := -2147483648

def maxValue : Int := 2147483647

def InRange (n : Int) : Prop := minValue ≤ n ∧ n ≤ maxValue

instance (n : Int) : Decidable (InRange n) := inferInstanceAs (Decidable (_ ∧ _))

def check? (n : Int) : Option Int := if InRange n then some n else none

def add? (a b : Int) : Option Int := check? (a + b)

def mul? (a b : Int) : Option Int := check? (a * b)

/-- The difference of two integers, clamped to the range. -/
def saturatingSub (a b : Int) : Int :=
  if a - b < minValue then minValue else if maxValue < a - b then maxValue else a - b

theorem check?_eq_some_iff {n m : Int} : check? n = some m ↔ InRange n ∧ n = m := by
  unfold check?
  split <;> simp_all

theorem check?_of_inRange {n : Int} (h : InRange n) : check? n = some n := by
  simp [check?, h]

end TernaryMachine.Signed32
