import TernaryMachine.Trit
import TernaryMachine.Signed32

/-!
The balanced ternary expansion of an integer, lowest digit first. `rest_low` is the division law
`3 * rest n + low n = n`; every other function reads digits off by repeated division. `value`
puts digits back together. The functions of `Digits.Bounded` do the same inside 32 bits and have
no result where an intermediate value would not fit.
-/

set_option autoImplicit false
set_option relaxedAutoImplicit false

namespace TernaryMachine

namespace Digits

def low (n : Int) : Trit :=
  if n % 3 = 0 then .zero else if n % 3 = 1 then .plus else .minus

def rest (n : Int) : Int := (n - (low n).toInt) / 3

theorem rest_low (n : Int) : 3 * rest n + (low n).toInt = n := by
  unfold rest low
  split
  · simp only [Trit.toInt]; omega
  · split
    · simp only [Trit.toInt]; omega
    · simp only [Trit.toInt]; omega

/-- What remains of an integer above its `k` lowest digits. -/
def drop : Nat → Int → Int
  | 0, n => n
  | k + 1, n => drop k (rest n)

theorem drop_succ (k : Nat) (n : Int) : drop (k + 1) n = rest (drop k n) := by
  induction k generalizing n with
  | zero => rfl
  | succ k ih => exact ih (rest n)

def take : Nat → Int → List Trit
  | 0, _ => []
  | k + 1, n => low n :: take k (rest n)

/-- Digit `i` of an integer, counted from the lowest. -/
def trit (n : Int) (i : Nat) : Trit := low (drop i n)

def weight : Nat → Int
  | 0 => 1
  | k + 1 => 3 * weight k

def value : List Trit → Int
  | [] => 0
  | t :: ts => t.toInt + 3 * value ts

/-- The integer whose digits are the digits `start`, …, `stop - 1` of `n`. -/
def slice (n : Int) (start stop : Nat) : Int := value (take (stop - start) (drop start n))

@[simp] theorem length_take (k : Nat) (n : Int) : (take k n).length = k := by
  induction k generalizing n with
  | zero => rfl
  | succ k ih => simp [take, ih]

theorem value_take_drop (k : Nat) (n : Int) : value (take k n) + weight k * drop k n = n := by
  induction k generalizing n with
  | zero => simp [take, drop, value, weight]
  | succ k ih =>
    have hr := rest_low n
    have hi := ih (rest n)
    simp only [take, drop, value, weight]
    rw [Int.mul_assoc]
    omega

namespace Bounded

open Signed32 (check? add? mul?)

/-- The lowest digit and the rest above it; taking the digit away must stay inside 32 bits. -/
def split? (n : Int) : Option (Trit × Int) :=
  (check? (n - (low n).toInt)).map fun _ => (low n, rest n)

def drop? : Nat → Int → Option Int
  | 0, n => some n
  | k + 1, n => do
    let (_, r) ← split? n
    drop? k r

def take? : Nat → Int → Option (List Trit)
  | 0, _ => some []
  | k + 1, n => do
    let (t, r) ← split? n
    return t :: (← take? k r)

def trit? (n : Int) (i : Nat) : Option Trit := do
  let (t, _) ← split? (← drop? i n)
  return t

/-- Adds the next `k` digits to `sum`, the first of them weighted with `weight`. -/
def weigh? : Nat → Int → Int → Int → Option Int
  | 0, _, sum, _ => some sum
  | k + 1, n, sum, weight => do
    let (t, r) ← split? n
    weigh? k r (← add? sum (← mul? t.toInt weight)) (← mul? weight 3)

def slice? (n : Int) (start stop : Nat) : Option Int := do
  weigh? (stop - start) (← drop? (min start stop) n) 0 1

/-- The integer with the given digits, summed from the highest digit down. -/
def value? : List Trit → Option Int
  | [] => some 0
  | t :: ts => do add? (← mul? (← value? ts) 3) t.toInt

end Bounded

end Digits

end TernaryMachine
