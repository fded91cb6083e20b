import TernaryMachine.Tryte

/-!
Words: integers of ten balanced digits, the addresses of the machine. A word is stored as two
trytes, the low half first.
-/

set_option autoImplicit false
set_option relaxedAutoImplicit false

namespace TernaryMachine

/-- An integer of ten balanced ternary digits. -/
structure Word where
  val : Int
  lower : -29524 ≤ val
  upper : val ≤ 29524
  deriving DecidableEq, Repr

namespace Word

def maxValue : Int := 29524

def minValue : Int := -29524

def zero : Word := ⟨0, by decide, by decide⟩

instance : Inhabited Word := ⟨zero⟩

def ofInt? (n : Int) : Option Word :=
  if h : -29524 ≤ n ∧ n ≤ 29524 then some ⟨n, h.1, h.2⟩ else none

def ofInt (n : Int) : Except OutOfRange Word :=
  match ofInt? n with
  | some w => .ok w
  | none => .error ⟨n, minValue, maxValue⟩

def ofTryte (t : Tryte) : Word :=
  ⟨t.val, by have := t.lower; omega, by have := t.upper; omega⟩

def ofHalves (low high : Tryte) : Word :=
  ⟨low.val + 243 * high.val,
    by have := low.lower; have := high.lower; omega,
    by have := low.upper; have := high.upper; omega⟩

def low (w : Word) : Tryte := Tryte.ofDigits w.val 0

def high (w : Word) : Tryte := Tryte.ofDigits w.val 5

def isZero (w : Word) : Bool := decide (w.val = 0)

def text (w : Word) : String := w.high.text ++ w.low.text

def describe (w : Word) : String := s!"Word(%{w.high.text} {w.low.text} = {w.val})"

@[ext] theorem ext {a b : Word} (h : a.val = b.val) : a = b := by
  cases a; cases b; cases h; rfl

@[simp] theorem ofInt?_val (w : Word) : ofInt? w.val = some w := by
  simp [ofInt?, w.lower, w.upper]

theorem ofInt?_eq_some_iff {n : Int} {w : Word} : ofInt? n = some w ↔ w.val = n := by
  constructor
  · intro h
    unfold ofInt? at h
    split at h
    · injection h with h; rw [← h]
    · contradiction
  · rintro rfl
    exact ofInt?_val w

theorem low_add_high (w : Word) : w.low.val + 243 * w.high.val = w.val := by
  have h0 : w.low.val + 243 * Digits.drop 5 w.val = w.val := Tryte.val_ofDigits w.val 0
  have h5 : w.high.val + 243 * Digits.drop 10 w.val = Digits.drop 5 w.val :=
    Tryte.val_ofDigits w.val 5
  have := w.lower
  have := w.upper
  have := w.low.lower
  have := w.low.upper
  have := w.high.lower
  have := w.high.upper
  omega

@[simp] theorem ofHalves_low_high (w : Word) : ofHalves w.low w.high = w :=
  ext w.low_add_high

@[simp] theorem low_ofHalves (a b : Tryte) : (ofHalves a b).low = a := by
  have h : (ofHalves a b).low.val + 243 * (ofHalves a b).high.val = a.val + 243 * b.val :=
    (ofHalves a b).low_add_high
  have := a.lower
  have := a.upper
  have := (ofHalves a b).low.lower
  have := (ofHalves a b).low.upper
  exact Tryte.ext (by omega)

@[simp] theorem high_ofHalves (a b : Tryte) : (ofHalves a b).high = b := by
  have h : (ofHalves a b).low.val + 243 * (ofHalves a b).high.val = a.val + 243 * b.val :=
    (ofHalves a b).low_add_high
  rw [low_ofHalves] at h
  exact Tryte.ext (by omega)

end Word

end TernaryMachine
