import TernaryMachine.Digits

/-!
Trytes: integers of five balanced digits, the cells and registers of the machine. They are built
from integers in `-121..121` or from five digits, combined digit by digit, and added with a carry
digit that reports the wrap around by 243.
-/

set_option autoImplicit false
set_option relaxedAutoImplicit false

namespace TernaryMachine

structure OutOfRange where
  value : Int
  min : Int
  max : Int
  deriving DecidableEq, Repr

def OutOfRange.message (e : OutOfRange) : String :=
  s!"value {e.value} out of range [{e.min}, {e.max}]"

/-- An integer of five balanced ternary digits. -/
structure Tryte where
  val : Int
  lower : -121 ≤ val
  upper : val ≤ 121
  deriving DecidableEq, Repr

namespace Tryte

def width : Nat := 5

def maxValue : Int := 121

def minValue : Int := -121

def radix : Int := 243

def zero : Tryte := ⟨0, by decide, by decide⟩

instance : Inhabited Tryte := ⟨zero⟩

def ofInt? (n : Int) : Option Tryte :=
  if h : -121 ≤ n ∧ n ≤ 121 then some ⟨n, h.1, h.2⟩ else none

def ofInt (n : Int) : Except OutOfRange Tryte :=
  match ofInt? n with
  | some t => .ok t
  | none => .error ⟨n, minValue, maxValue⟩

def ofTrit (t : Trit) : Tryte :=
  ⟨t.toInt, by have := t.neg_one_le_toInt; omega, by have := t.toInt_le_one; omega⟩

/-- Numerals index the digits of a tryte. -/
instance neZero_width : @NeZero Nat Zero.ofOfNat0 5 := ⟨by decide⟩

/-- The tryte with the given digits, digit 0 being the lowest. -/
def ofTrits (d : Fin 5 → Trit) : Tryte :=
  ⟨(d 0).toInt + 3 * (d 1).toInt + 9 * (d 2).toInt + 27 * (d 3).toInt + 81 * (d 4).toInt,
    by
      have h0 := (d 0).neg_one_le_toInt
      have h1 := (d 1).neg_one_le_toInt
      have h2 := (d 2).neg_one_le_toInt
      have h3 := (d 3).neg_one_le_toInt
      have h4 := (d 4).neg_one_le_toInt
      omega,
    by
      have h0 := (d 0).toInt_le_one
      have h1 := (d 1).toInt_le_one
      have h2 := (d 2).toInt_le_one
      have h3 := (d 3).toInt_le_one
      have h4 := (d 4).toInt_le_one
      omega⟩

/-- The tryte that holds the digits `k`, …, `k + 4` of an integer. -/
def ofDigits (n : Int) (k : Nat) : Tryte := ofTrits fun i => Digits.trit n (k + i.val)

def trit (t : Tryte) (i : Fin 5) : Trit := Digits.trit t.val i.val

def trits (t : Tryte) : List Trit := Digits.take 5 t.val

def lowest (t : Tryte) : Trit := Digits.low t.val

/-- The sign, which is also the highest digit that is not zero. -/
def sign (t : Tryte) : Trit := Trit.ofSign t.val

def isZero (t : Tryte) : Bool := decide (t.val = 0)

def negate (t : Tryte) : Tryte :=
  ⟨-t.val, by have := t.upper; omega, by have := t.lower; omega⟩

instance : Neg Tryte := ⟨negate⟩

def map (f : Trit → Trit) (t : Tryte) : Tryte := ofTrits fun i => f (t.trit i)

def zipWith (f : Trit → Trit → Trit) (a b : Tryte) : Tryte :=
  ofTrits fun i => f (a.trit i) (b.trit i)

def tor : Tryte → Tryte → Tryte := zipWith Trit.max

def tand : Tryte → Tryte → Tryte := zipWith Trit.min

def but : Tryte → Tryte → Tryte := zipWith Trit.but

def exclusiveMax : Tryte → Tryte → Tryte := zipWith Trit.exclusiveMax

/-- Moves every digit one place up; `fill` enters at the bottom and the top digit is lost. -/
def shiftUp (t : Tryte) (fill : Trit) : Tryte :=
  ofTrits fun
    | 0 => fill
    | 1 => t.trit 0
    | 2 => t.trit 1
    | 3 => t.trit 2
    | 4 => t.trit 3

/-- Moves every digit one place down; `fill` enters at the top and the lowest digit is lost. -/
def shiftDown (t : Tryte) (fill : Trit) : Tryte :=
  ofTrits fun
    | 0 => t.trit 1
    | 1 => t.trit 2
    | 2 => t.trit 3
    | 3 => t.trit 4
    | 4 => fill

/-- A sum of two trytes and a carry digit: the wrapped result and the digit carried out. -/
structure Sum where
  result : Tryte
  carry : Trit
  deriving DecidableEq, Repr

namespace Sum

def overflow (s : Sum) : Trit := s.carry

/-- The sum before it was wrapped. -/
def full (s : Sum) : Int := s.result.val + 243 * s.carry.toInt

end Sum

/-- Adds two trytes and a carry digit. A sum above 121 wraps down by 243 and carries plus one, a
sum below -121 wraps up and carries minus one. -/
def add (a b : Tryte) (carry : Trit) : Sum :=
  have := a.lower
  have := a.upper
  have := b.lower
  have := b.upper
  have := carry.neg_one_le_toInt
  have := carry.toInt_le_one
  if _h : 121 < a.val + b.val + carry.toInt then
    ⟨⟨a.val + b.val + carry.toInt - 243, by omega, by omega⟩, .plus⟩
  else if _h : a.val + b.val + carry.toInt < -121 then
    ⟨⟨a.val + b.val + carry.toInt + 243, by omega, by omega⟩, .minus⟩
  else
    ⟨⟨a.val + b.val + carry.toInt, by omega, by omega⟩, .zero⟩

def inc (a : Tryte) : Tryte := (add a (ofTrit .plus) .zero).result

def dec (a : Tryte) : Tryte := (add a (ofTrit .minus) .zero).result

def chars (t : Tryte) : List Char := t.trits.reverse.map Trit.toChar

def text (t : Tryte) : String := String.ofList t.chars

def describe (t : Tryte) : String := s!"Tryte(%{t.text} = {t.val})"

@[ext] theorem ext {a b : Tryte} (h : a.val = b.val) : a = b := by
  cases a; cases b; cases h; rfl

@[simp] theorem ofInt?_val (t : Tryte) : ofInt? t.val = some t := by
  simp [ofInt?, t.lower, t.upper]

theorem ofInt?_eq_some_iff {n : Int} {t : Tryte} : ofInt? n = some t ↔ t.val = n := by
  constructor
  · intro h
    unfold ofInt? at h
    split at h
    · injection h with h; rw [← h]
    · contradiction
  · rintro rfl
    exact ofInt?_val t

@[simp] theorem val_neg (t : Tryte) : (-t).val = -t.val := rfl

theorem val_ofDigits (n : Int) (k : Nat) :
    (ofDigits n k).val + 243 * Digits.drop (k + 5) n = Digits.drop k n := by
  have split (m : Nat) :
      3 * Digits.drop (m + 1) n + (Digits.trit n m).toInt = Digits.drop m n := by
    rw [Digits.drop_succ]
    exact Digits.rest_low _
  have h0 := split k
  have h1 := split (k + 1)
  have h2 := split (k + 2)
  have h3 := split (k + 3)
  have h4 := split (k + 4)
  change (Digits.trit n k).toInt + 3 * (Digits.trit n (k + 1)).toInt
    + 9 * (Digits.trit n (k + 2)).toInt + 27 * (Digits.trit n (k + 3)).toInt
    + 81 * (Digits.trit n (k + 4)).toInt + 243 * Digits.drop (k + 5) n = _
  simp only [Nat.add_assoc, Nat.reduceAdd] at h1 h2 h3 h4
  omega

/-- The carry accounts exactly for what the wrap took away. -/
theorem full_add (a b : Tryte) (c : Trit) : (add a b c).full = a.val + b.val + c.toInt := by
  unfold add Sum.full
  split
  · simp only [Trit.toInt]; omega
  · split
    · simp only [Trit.toInt]; omega
    · simp only [Trit.toInt]; omega

end Tryte

end TernaryMachine
