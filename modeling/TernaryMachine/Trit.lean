/-!
Balanced ternary digits: the three values, the one-digit truth tables (inverters and diodes),
the two-digit truth tables (minimum, maximum, preference and exclusive maximum) and the
characters in which digits are written.
-/

set_option autoImplicit false
set_option relaxedAutoImplicit false

namespace TernaryMachine

/-- A balanced ternary digit: minus one, zero or plus one. -/
inductive Trit where
  | minus
  | zero
  | plus
  deriving DecidableEq, Repr

namespace Trit

instance : Inhabited Trit := ⟨.zero⟩

def all : List Trit := [.minus, .zero, .plus]

def toInt : Trit → Int
  | .minus => -1
  | .zero => 0
  | .plus => 1

def ofInt? (n : Int) : Option Trit :=
  if n = -1 then some .minus
  else if n = 0 then some .zero
  else if n = 1 then some .plus
  else none

def ofSign (n : Int) : Trit :=
  if n < 0 then .minus else if 0 < n then .plus else .zero

/-- Negation, which is also the simple ternary inverter. -/
def negate : Trit → Trit
  | .minus => .plus
  | .zero => .zero
  | .plus => .minus

instance : Neg Trit := ⟨negate⟩

/-- The negative ternary inverter: plus one on minus one, minus one elsewhere. -/
def nti : Trit → Trit
  | .minus => .plus
  | .zero => .minus
  | .plus => .minus

/-- The positive ternary inverter: minus one on plus one, plus one elsewhere. -/
def pti : Trit → Trit
  | .minus => .plus
  | .zero => .plus
  | .plus => .minus

/-- The forward diode lets only plus one through. -/
def forwardDiode : Trit → Trit
  | .plus => .plus
  | _ => .zero

/-- The reverse diode lets only minus one through. -/
def reverseDiode : Trit → Trit
  | .minus => .minus
  | _ => .zero

/-- The lesser of two digits, ternary conjunction. -/
def min (a b : Trit) : Trit := if a.toInt ≤ b.toInt then a else b

/-- The greater of two digits, ternary disjunction. -/
def max (a b : Trit) : Trit := if b.toInt ≤ a.toInt then a else b

/-- The preference table: zero before minus one before plus one. -/
def but : Trit → Trit → Trit
  | .zero, _ => .zero
  | _, .zero => .zero
  | .minus, _ => .minus
  | _, .minus => .minus
  | .plus, .plus => .plus

/-- The exclusive maximum: the greater of two different digits, minus one for equal ones. -/
def exclusiveMax (a b : Trit) : Trit := if a = b then .minus else max a b

def less (a b : Trit) : Bool := decide (a.toInt < b.toInt)

def isZero (t : Trit) : Bool := decide (t = .zero)

/-- The written form of a digit; `i` is minus one. -/
def toChar : Trit → Char
  | .minus => 'i'
  | .zero => '0'
  | .plus => '1'

/-- Reads a digit; minus one may be written `i`, `t` (in either case) or `-`, plus one also `+`. -/
def ofChar? (c : Char) : Option Trit :=
  if c = 'i' ∨ c = 'I' ∨ c = 'T' ∨ c = 't' ∨ c = '-' then some .minus
  else if c = '0' then some .zero
  else if c = '1' ∨ c = '+' then some .plus
  else none

def name : Trit → String
  | .minus => "N"
  | .zero => "O"
  | .plus => "P"

theorem neg_one_le_toInt (t : Trit) : -1 ≤ t.toInt := by cases t <;> decide

theorem toInt_le_one (t : Trit) : t.toInt ≤ 1 := by cases t <;> decide

@[simp] theorem ofInt?_toInt (t : Trit) : ofInt? t.toInt = some t := by cases t <;> decide

@[simp] theorem ofChar?_toChar (t : Trit) : ofChar? t.toChar = some t := by cases t <;> decide

theorem toInt_injective {s t : Trit} (h : s.toInt = t.toInt) : s = t := by
  have := congrArg ofInt? h
  simpa using this

end Trit

end TernaryMachine
