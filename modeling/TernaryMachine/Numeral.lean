import TernaryMachine.Signed32
import TernaryMachine.Trit

/-!
Literals in the three balanced notations: base 3 with one character per digit, base 9 with one per
two digits and base 27 with one per three. `Radix.read` gives the positional value of a text whose
every beginning fits 32 bits; `Radix.write` gives the text without leading zeros.
-/

set_option autoImplicit false
set_option relaxedAutoImplicit false

namespace TernaryMachine

inductive Radix where
  | ternary
  | nonary
  | base27
  deriving DecidableEq, Repr

inductive NumeralError where
  | empty (radix : Radix)
  | invalidDigit (radix : Radix) (digit : Char)
  | tooLarge (radix : Radix) (text : String)
  deriving DecidableEq, Repr

namespace Radix

def base : Radix → Int
  | .ternary => 3
  | .nonary => 9
  | .base27 => 27

def title : Radix → String
  | .ternary => "trit"
  | .nonary => "nonary"
  | .base27 => "base-27"

/-- The value of a nonary digit; the negative ones are letters or circled numbers. -/
def nonaryDigit? (c : Char) : Option Int :=
  match c with
  | '0' => some 0
  | '1' => some 1
  | '2' => some 2
  | '3' => some 3
  | '4' => some 4
  | 'i' | '①' => some (-1)
  | 'j' | '②' => some (-2)
  | 'k' | '③' => some (-3)
  | 'm' | '④' => some (-4)
  | _ => none

/-- The value of a base 27 digit: `A` to `M` count up from one, `N` to `Z` down from minus one. -/
def base27Digit? (c : Char) : Option Int :=
  if c = '0' then some 0
  else if 'A' ≤ c ∧ c ≤ 'M' then some (c.toNat - 'A'.toNat + 1 : Int)
  else if 'N' ≤ c ∧ c ≤ 'Z' then some (-(c.toNat - 'N'.toNat + 1 : Int))
  else none

def digit? : Radix → Char → Option Int
  | .ternary => fun c => (Trit.ofChar? c).map Trit.toInt
  | .nonary => nonaryDigit?
  | .base27 => base27Digit?

def digitChar : Radix → Int → Char
  | .ternary => fun d => if d < 0 then 'i' else if d = 0 then '0' else '1'
  | .nonary => fun d =>
    if d < 0 then ['i', 'j', 'k', 'm'].getD (d.natAbs - 1) 'm' else Nat.digitChar d.natAbs
  | .base27 => fun d =>
    if d = 0 then '0'
    else if 0 < d then Char.ofNat ('A'.toNat + (d.natAbs - 1))
    else Char.ofNat ('N'.toNat + (d.natAbs - 1))

def readFrom (r : Radix) (text : String) (n : Int) : List Char → Except NumeralError Int
  | [] => .ok n
  | c :: cs =>
    match r.digit? c with
    | none => .error (.invalidDigit r c)
    | some d =>
      match Signed32.check? (n * r.base + d) with
      | none => .error (.tooLarge r text)
      | some m => readFrom r text m cs

/-- Reads a literal, highest digit first. -/
def read (r : Radix) (cs : List Char) : Except NumeralError Int :=
  if cs.isEmpty then .error (.empty r) else readFrom r (String.ofList cs) 0 cs

/-- The lowest digit of an integer, between minus and plus half the base. -/
def lowest (r : Radix) (n : Int) : Int :=
  if r.base / 2 < n % r.base then n % r.base - r.base else n % r.base

def shift (r : Radix) (n : Int) : Int := (n - r.lowest n) / r.base

theorem lowest_spec (r : Radix) (n : Int) :
    r.base ∣ n - r.lowest n ∧ -(r.base / 2) ≤ r.lowest n ∧ r.lowest n ≤ r.base / 2 := by
  unfold lowest
  by_cases h : r.base / 2 < n % r.base
  · rw [if_pos h]
    cases r <;> simp only [base] at h ⊢ <;> omega
  · rw [if_neg h]
    cases r <;> simp only [base] at h ⊢ <;> omega

theorem shift_lowest (r : Radix) (n : Int) : r.base * r.shift n + r.lowest n = n := by
  have h := r.lowest_spec n
  unfold shift
  cases r <;> simp only [base] at h ⊢ <;> omega

theorem natAbs_shift_lt (r : Radix) (n : Int) (h : n ≠ 0) : (r.shift n).natAbs < n.natAbs := by
  have h₁ := r.lowest_spec n
  have h₂ := r.shift_lowest n
  cases r <;> simp only [base] at h₁ h₂ <;> omega

/-- The digits of an integer, lowest first, without zeros at the top. -/
def digits (r : Radix) (n : Int) : List Int :=
  if _h : n = 0 then [] else r.lowest n :: r.digits (r.shift n)
termination_by n.natAbs
decreasing_by exact natAbs_shift_lt r n _h

def write (r : Radix) (n : Int) : List Char :=
  if n = 0 then [r.digitChar 0] else ((r.digits n).map r.digitChar).reverse

/-- Every integer that occurs when the lowest digit is taken away fits 32 bits: the remainder, the
digit, the integer without it and what remains above it. -/
def Separable (r : Radix) (n : Int) : Prop :=
  Signed32.InRange (n % r.base) ∧ Signed32.InRange (r.lowest n)
    ∧ Signed32.InRange (n - r.lowest n) ∧ Signed32.InRange (r.shift n)

instance (r : Radix) (n : Int) : Decidable (r.Separable n) := inferInstanceAs (Decidable (_ ∧ _))

def digits? (r : Radix) (n : Int) : Option (List Int) :=
  if _h : n = 0 then some []
  else if r.Separable n then (r.digits? (r.shift n)).map (r.lowest n :: ·)
  else none
termination_by n.natAbs
decreasing_by exact natAbs_shift_lt r n _h

def write? (r : Radix) (n : Int) : Option (List Char) :=
  if n = 0 then some [r.digitChar 0]
  else (r.digits? n).map fun ds => (ds.map r.digitChar).reverse

end Radix

def NumeralError.message : NumeralError → String
  | .empty r => s!"empty {r.title} literal"
  | .invalidDigit r c => s!"invalid {r.title} digit '{c}'"
  | .tooLarge r text => s!"{r.title} literal '{text}' is too large"

end TernaryMachine
