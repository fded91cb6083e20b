import Mathlib.Algebra.BigOperators.Intervals
import Mathlib.Algebra.BigOperators.Ring.Finset
import Mathlib.Algebra.Order.Ring.Int
import TernaryMachine.Proofs.Status

/-!
The balanced ternary expansion of an integer. An integer has no more than one, and its digits are
those that repeated division reads off. Inside 32 bits they are read off without an overflow, and so
is the value of up to nineteen of them in a row. The least 32-bit integer is the one exception:
taking its lowest digit away already leaves the range.
-/

set_option autoImplicit false
set_option relaxedAutoImplicit false

namespace TernaryMachine

namespace Digits

/-- The digits of an integer in balanced ternary, lowest first: from some place on they are zero,
and with the powers of three as weights they sum up to the integer. -/
def Expands (n : Int) (d : Nat → Trit) : Prop :=
  ∃ k, (∀ i, k ≤ i → d i = .zero) ∧ ∑ i ∈ Finset.range k, (d i).toInt * 3 ^ i = n

theorem weight_eq_pow (k : Nat) : weight k = 3 ^ k := by
  induction k with
  | zero => rfl
  | succ k ih => rw [weight, ih, Int.pow_succ, Int.mul_comm]

theorem sum_succ (d : Nat → Trit) (k : Nat) :
    ∑ i ∈ Finset.range (k + 1), (d i).toInt * 3 ^ i
      = 3 * ∑ i ∈ Finset.range k, (d (i + 1)).toInt * 3 ^ i + (d 0).toInt := by
  rw [Finset.sum_range_succ', Finset.mul_sum, Int.pow_zero, Int.mul_one]
  congr 1
  apply Finset.sum_congr rfl
  intro i _
  rw [Int.pow_succ, Int.mul_comm (3 ^ i), Int.mul_left_comm]

theorem value_take (k : Nat) (n : Int) :
    value (take k n) = ∑ i ∈ Finset.range k, (trit n i).toInt * 3 ^ i := by
  induction k generalizing n with
  | zero => rfl
  | succ k ih =>
    rw [sum_succ, take, value, ih (rest n), Int.add_comm]
    rfl

theorem slice_eq_sum (n : Int) (start stop : Nat) :
    slice n start stop = ∑ i ∈ Finset.Ico start stop, (trit n i).toInt * 3 ^ (i - start) := by
  rw [slice, value_take, Finset.sum_Ico_eq_sum_range]
  apply Finset.sum_congr rfl
  intro i _
  rw [Nat.add_sub_cancel_left, trit, trit, drop_add]

theorem Expands.cons {n : Int} {d : Nat → Trit} (h : Expands n d) :
    low n = d 0 ∧ Expands (rest n) fun i => d (i + 1) := by
  obtain ⟨k, zeros, sum⟩ := h
  -- one more place adds a zero, so that there is a lowest digit to split off
  have longer := Finset.sum_range_succ (fun i => (d i).toInt * 3 ^ i) k
  rw [sum_succ, sum, zeros k (Nat.le_refl k), show Trit.zero.toInt = 0 from rfl, Int.zero_mul,
    Int.add_zero] at longer
  obtain ⟨digit, above⟩ := eq_of_rest_low longer
  refine ⟨digit, k, fun i large => zeros (i + 1) (Nat.le_succ_of_le large), above.symm⟩

theorem Expands.unique {n : Int} {d : Nat → Trit} (h : Expands n d) : d = trit n := by
  funext i
  induction i generalizing n d with
  | zero => exact h.cons.1.symm
  | succ i ih => exact ih h.cons.2

theorem drop_eq_zero {n : Int} {k : Nat} (h : -weight k < 2 * n ∧ 2 * n < weight k) :
    drop k n = 0 := by
  have whole := value_take_drop k n
  have digits := two_mul_value_lt (take k n)
  rw [length_take] at digits
  have positive : 0 ≤ weight k := by omega
  by_contra some
  rcases Int.lt_or_gt_of_ne some with below | above
  · have : weight k * drop k n ≤ weight k * -1 :=
      Int.mul_le_mul_of_nonneg_left (Int.le_sub_one_of_lt below) positive
    omega
  · have : weight k * 1 ≤ weight k * drop k n := Int.mul_le_mul_of_nonneg_left above positive
    omega

theorem expands_of_drop_eq_zero {n : Int} {k : Nat} (h : drop k n = 0) : Expands n (trit n) := by
  refine ⟨k, ?_, ?_⟩
  · intro i large
    obtain ⟨j, rfl⟩ := Nat.exists_eq_add_of_le large
    have zero (j : Nat) : drop j 0 = 0 := by
      induction j with
      | zero => rfl
      | succ j ih => exact ih
    rw [trit, drop_add, h, zero]
    rfl
  · have whole := value_take_drop k n
    rw [h, Int.mul_zero, Int.add_zero] at whole
    rw [← value_take, whole]

theorem expands_of_inRange {n : Int} (fits : Signed32.InRange n) : Expands n (trit n) := by
  apply expands_of_drop_eq_zero (k := 21)
  apply drop_eq_zero
  have wide : weight 21 = 10460353203 := rfl
  obtain ⟨lower, upper⟩ : -2147483648 ≤ n ∧ n ≤ 2147483647 := fits
  omega

section Inside

variable {n : Int} (lower : Signed32.minValue < n) (upper : n ≤ Signed32.maxValue)
include lower upper

theorem split?_eq_some : Bounded.split? n = some (low n, rest n) := by
  have law := rest_low n
  have := (low n).neg_one_le_toInt
  have := (low n).toInt_le_one
  have fits : Signed32.InRange (n - (low n).toInt) := by
    simp only [Signed32.InRange, Signed32.minValue, Signed32.maxValue] at lower upper ⊢
    omega
  rw [Bounded.split?, Signed32.check?_of_inRange fits]
  rfl

theorem rest_inside : Signed32.minValue < rest n ∧ rest n ≤ Signed32.maxValue := by
  have law := rest_low n
  have := (low n).neg_one_le_toInt
  have := (low n).toInt_le_one
  simp only [Signed32.minValue, Signed32.maxValue] at lower upper ⊢
  omega

theorem drop?_eq_some (k : Nat) : Bounded.drop? k n = some (drop k n)
    ∧ Signed32.minValue < drop k n ∧ drop k n ≤ Signed32.maxValue := by
  induction k generalizing n with
  | zero => exact ⟨rfl, lower, upper⟩
  | succ k ih =>
    obtain ⟨lower', upper'⟩ := rest_inside lower upper
    rw [Bounded.drop?, split?_eq_some lower upper]
    exact ih lower' upper'

theorem trit?_eq_some (i : Nat) : Bounded.trit? n i = some (trit n i) := by
  obtain ⟨dropped, lower', upper'⟩ := drop?_eq_some lower upper i
  rw [Bounded.trit?, dropped]
  show ((Bounded.split? (drop i n)).bind fun p => some p.1) = _
  rw [split?_eq_some lower' upper']
  rfl

theorem weigh?_eq_some {j k : Nat} (few : j + k ≤ 19) {sum : Int}
    (small : -weight j < 2 * sum ∧ 2 * sum < weight j) :
    Bounded.weigh? k n sum (weight j) = some (sum + weight j * value (take k n)) := by
  induction k generalizing n j sum with
  | zero =>
    rw [take, value, Int.mul_zero, Int.add_zero]
    rfl
  | succ k ih =>
    obtain ⟨lower', upper'⟩ := rest_inside lower upper
    have next : weight j * 3 = weight (j + 1) := Int.mul_comm _ _
    have highest : weight (j + 1) ≤ 1162261467 := by
      rw [weight_eq_pow]
      exact pow_le_pow_right₀ (by decide) (show j + 1 ≤ 19 by omega)
    have digit : (low n).toInt * weight j = -weight j ∨ (low n).toInt * weight j = 0
        ∨ (low n).toInt * weight j = weight j := by
      cases low n with
      | minus => exact .inl (Int.neg_one_mul _)
      | zero => exact .inr (.inl (Int.zero_mul _))
      | plus => exact .inr (.inr (Int.one_mul _))
    have product : Signed32.InRange ((low n).toInt * weight j) := by
      simp only [Signed32.InRange, Signed32.minValue, Signed32.maxValue]
      omega
    have total : Signed32.InRange (sum + (low n).toInt * weight j) := by
      simp only [Signed32.InRange, Signed32.minValue, Signed32.maxValue]
      omega
    have raised : Signed32.InRange (weight (j + 1)) := by
      simp only [Signed32.InRange, Signed32.minValue, Signed32.maxValue]
      omega
    have small' : -weight (j + 1) < 2 * (sum + (low n).toInt * weight j)
        ∧ 2 * (sum + (low n).toInt * weight j) < weight (j + 1) := by omega
    have later := ih lower' upper' (show j + 1 + k ≤ 19 by omega) small'
    rw [Bounded.weigh?, split?_eq_some lower upper]
    simp only [Option.bind_eq_bind, Option.bind_some, Signed32.mul?, Signed32.add?, next,
      Signed32.check?_of_inRange product, Signed32.check?_of_inRange total,
      Signed32.check?_of_inRange raised]
    rw [later, take, value, ← next, Int.mul_add, Int.mul_assoc,
      Int.mul_comm (weight j) (low n).toInt, Int.add_assoc]

theorem slice?_eq_some {start stop : Nat} (ordered : start ≤ stop) (few : stop - start ≤ 19) :
    Bounded.slice? n start stop = some (slice n start stop) := by
  obtain ⟨dropped, lower', upper'⟩ := drop?_eq_some lower upper start
  have whole := weigh?_eq_some lower' upper' (j := 0) (show 0 + (stop - start) ≤ 19 by omega)
    (show -1 < 2 * (0 : Int) ∧ 2 * (0 : Int) < 1 by decide)
  rw [show weight 0 = 1 from rfl, Int.zero_add, Int.one_mul] at whole
  rw [Bounded.slice?, Nat.min_eq_left ordered, dropped]
  exact whole

end Inside

theorem trit?_minValue (i : Nat) : Bounded.trit? Signed32.minValue i = none := by
  cases i with
  | zero => rfl
  | succ i => rfl

theorem slice?_minValue {start stop : Nat} (ordered : start ≤ stop) :
    Bounded.slice? Signed32.minValue start stop = if stop = 0 then some 0 else none := by
  rw [Bounded.slice?, Nat.min_eq_left ordered]
  cases start with
  | zero =>
    cases stop with
    | zero => rfl
    | succ stop => rfl
  | succ start =>
    rw [if_neg (Nat.ne_of_gt (Nat.lt_of_lt_of_le start.succ_pos ordered))]
    rfl

/-- Every 32-bit integer but the least one: each digit that is read is a digit of the only expansion
of the integer, a slice of up to nineteen digits is the sum of these digits with their weights, and
no addition, subtraction or multiplication on the way leaves 32 bits. The least integer has an
expansion too, but its digits are not read. -/
theorem digits_within_32_bits {n : Int} (fits : Signed32.InRange n) :
    ∃ d, Expands n d ∧ (∀ e, Expands n e → e = d)
      ∧ (n ≠ Signed32.minValue → (∀ i, Bounded.trit? n i = some (d i))
        ∧ ∀ start stop, start ≤ stop → stop - start ≤ 19 → Bounded.slice? n start stop
          = some (∑ i ∈ Finset.Ico start stop, (d i).toInt * 3 ^ (i - start)))
      ∧ (n = Signed32.minValue → (∀ i, Bounded.trit? n i = none)
        ∧ ∀ start stop, start ≤ stop →
          Bounded.slice? n start stop = if stop = 0 then some 0 else none) := by
  refine ⟨trit n, expands_of_inRange fits, fun e other => other.unique, ?_, ?_⟩
  · intro other
    have lower : Signed32.minValue < n := lt_of_le_of_ne fits.1 other.symm
    refine ⟨trit?_eq_some lower fits.2, ?_⟩
    intro start stop ordered few
    rw [slice?_eq_some lower fits.2 ordered few, slice_eq_sum]
  · rintro rfl
    exact ⟨trit?_minValue, fun start stop ordered => slice?_minValue ordered⟩

theorem digits_within_32_bits_of_greatest : Signed32.InRange 2147483647
    ∧ ∃ d, Expands 2147483647 d ∧ Bounded.trit? 2147483647 20 = some (d 20) ∧ d 20 = .plus
      ∧ Bounded.slice? 2147483647 2 21
        = some (∑ i ∈ Finset.Ico 2 21, (d i).toInt * 3 ^ (i - 2))
      ∧ Bounded.slice? 2147483647 2 21 = some 238609294 := by
  have fits : Signed32.InRange 2147483647 := by decide
  obtain ⟨d, expansion, -, read, -⟩ := digits_within_32_bits fits
  obtain ⟨digit, slice⟩ := read (by decide)
  have last : Bounded.trit? 2147483647 20 = some .plus := rfl
  refine ⟨fits, d, expansion, digit 20, ?_, slice 2 21 (by decide) (by decide), rfl⟩
  exact Option.some.inj ((digit 20).symm.trans last)

/-- The lowest digit of the least integer is one, and taking it away leaves 32 bits. -/
theorem digits_of_least_unread : Signed32.InRange Signed32.minValue
    ∧ (∃ d, Expands Signed32.minValue d ∧ d 0 = .plus)
    ∧ Bounded.trit? Signed32.minValue 0 = none := by
  have fits : Signed32.InRange Signed32.minValue := by decide
  exact ⟨fits, ⟨_, expands_of_inRange fits, rfl⟩, trit?_minValue 0⟩

end Digits

namespace Flags

theorem Bounded.inside {s : Flags} (h : s.Bounded) :
    Signed32.minValue < s.packed ∧ s.packed ≤ Signed32.maxValue := by
  obtain ⟨lower, upper⟩ := h
  simp only [Signed32.minValue, Signed32.maxValue]
  omega

theorem ofInt?_of_inside {n : Int} (lower : Signed32.minValue < n) (upper : n ≤ Signed32.maxValue) :
    ofInt? n = some ⟨Digits.value (Digits.take 9 n)⟩ := by
  rw [ofInt?, Digits.slice?_eq_some lower upper (by decide) (by decide)]
  rfl

end Flags

end TernaryMachine
