import TernaryMachine.Flags

/-!
Digits of a packed integer that change one at a time. A change at one place is seen at that place
only and by none of the digits above it, so that a register of nine digits keeps nine digits.
-/

set_option autoImplicit false
set_option relaxedAutoImplicit false

namespace TernaryMachine

namespace Digits

theorem eq_of_rest_low {n r : Int} {t : Trit} (h : 3 * r + t.toInt = n) :
    low n = t ∧ rest n = r := by
  have law := rest_low n
  have := t.neg_one_le_toInt
  have := t.toInt_le_one
  have := (low n).neg_one_le_toInt
  have := (low n).toInt_le_one
  have same : (low n).toInt = t.toInt := by omega
  exact ⟨Trit.toInt_injective same, by omega⟩

theorem low_rest_add_weight (n d : Int) (i : Nat) :
    low (n + d * weight (i + 1)) = low n
      ∧ rest (n + d * weight (i + 1)) = rest n + d * weight i := by
  apply eq_of_rest_low
  have law := rest_low n
  rw [weight, Int.mul_left_comm, Int.mul_add]
  omega

theorem low_rest_change (n : Int) (t : Trit) :
    low (n + (t.toInt - (low n).toInt) * weight 0) = t
      ∧ rest (n + (t.toInt - (low n).toInt) * weight 0) = rest n := by
  apply eq_of_rest_low
  have law := rest_low n
  rw [weight]
  omega

theorem trit_add_change (n : Int) (t : Trit) (i j : Nat) :
    trit (n + (t.toInt - (trit n i).toInt) * weight i) j = if j = i then t else trit n j := by
  induction i generalizing n j with
  | zero =>
    obtain ⟨digit, above⟩ := low_rest_change n t
    cases j with
    | zero => exact digit
    | succ j =>
      change low (drop j (rest _)) = low (drop j (rest n))
      exact congrArg (fun r => low (drop j r)) above
  | succ i ih =>
    -- the change is at a higher place: the lowest digit stays and the rest changes in the same way
    obtain ⟨digit, above⟩ := low_rest_add_weight n (t.toInt - (trit n (i + 1)).toInt) i
    cases j with
    | zero => exact digit
    | succ j =>
      change trit (rest _) j = _
      rw [above]
      simp only [Nat.add_right_cancel_iff]
      exact ih (rest n) j

theorem drop_add (a b : Nat) (n : Int) : drop (a + b) n = drop b (drop a n) := by
  induction a generalizing n with
  | zero => rw [Nat.zero_add]; rfl
  | succ a ih =>
    rw [Nat.succ_add]
    exact ih (rest n)

theorem drop_change (n : Int) (t : Trit) (i : Nat) :
    drop (i + 1) (n + (t.toInt - (trit n i).toInt) * weight i) = drop (i + 1) n := by
  induction i generalizing n with
  | zero => exact (low_rest_change n t).2
  | succ i ih =>
    obtain ⟨-, above⟩ := low_rest_add_weight n (t.toInt - (trit n (i + 1)).toInt) i
    change drop (i + 1) (rest _) = drop (i + 1) (rest n)
    rw [above]
    exact ih (rest n)

theorem two_mul_value_lt (ts : List Trit) :
    -weight ts.length < 2 * value ts ∧ 2 * value ts < weight ts.length := by
  induction ts with
  | nil => decide
  | cons t ts ih =>
    have := t.neg_one_le_toInt
    have := t.toInt_le_one
    rw [List.length_cons, weight, value]
    omega

theorem nine_digits_iff (n : Int) : -9841 ≤ n ∧ n ≤ 9841 ↔ drop 9 n = 0 := by
  have whole := value_take_drop 9 n
  have digits := two_mul_value_lt (take 9 n)
  rw [length_take] at digits
  have nine : weight 9 = 19683 := rfl
  rw [nine] at whole digits
  omega

end Digits

namespace Flags

theorem get_set_of_ne (s : Flags) {f g : Flag} (h : g ≠ f) (t : Trit) :
    (s.set f t).get g = s.get g := by
  have differ : g.index ≠ f.index := by
    intro same
    cases f <;> cases g <;> contradiction
  have digit := Digits.trit_add_change s.packed t f.index g.index
  rw [if_neg differ] at digit
  exact digit

theorem get_set_self (s : Flags) (f : Flag) (t : Trit) : (s.set f t).get f = t := by
  have digit := Digits.trit_add_change s.packed t f.index f.index
  rw [if_pos rfl] at digit
  exact digit

theorem direction_recordResult (s : Flags) (t : Tryte) :
    (s.recordResult t).get .direction = s.get .direction := by
  change ((s.set .sign t.sign).set .lowest t.lowest).get .direction = _
  rw [get_set_of_ne _ (by decide), get_set_of_ne _ (by decide)]

def Bounded (s : Flags) : Prop := -9841 ≤ s.packed ∧ s.packed ≤ 9841

theorem Bounded.set {s : Flags} (h : s.Bounded) (f : Flag) (t : Trit) : (s.set f t).Bounded := by
  have inside : f.index + 1 ≤ 9 := by cases f <;> decide
  obtain ⟨k, nine⟩ := Nat.exists_eq_add_of_le inside
  unfold Bounded at h ⊢
  rw [Digits.nine_digits_iff, nine, Digits.drop_add] at h ⊢
  exact (congrArg (Digits.drop k) (Digits.drop_change s.packed t f.index)).trans h

theorem Bounded.recordResult {s : Flags} (h : s.Bounded) (t : Tryte) :
    (s.recordResult t).Bounded := (h.set .sign t.sign).set .lowest t.lowest

theorem bounded_take (n : Int) : Bounded ⟨Digits.value (Digits.take 9 n)⟩ := by
  have digits := Digits.two_mul_value_lt (Digits.take 9 n)
  rw [Digits.length_take] at digits
  have nine : Digits.weight 9 = 19683 := rfl
  rw [nine] at digits
  change -9841 ≤ Digits.value (Digits.take 9 n) ∧ Digits.value (Digits.take 9 n) ≤ 9841
  omega

theorem bounded_ofWord (w : Word) : (ofWord w).Bounded := bounded_take w.val

theorem bounded_reset : reset.Bounded := by
  unfold Bounded
  decide

theorem Bounded.value_take {s : Flags} (h : s.Bounded) :
    Digits.value (Digits.take 9 s.packed) = s.packed := by
  have whole := Digits.value_take_drop 9 s.packed
  rw [(Digits.nine_digits_iff s.packed).mp h, Int.mul_zero, Int.add_zero] at whole
  exact whole

theorem Bounded.toWord? {s : Flags} (h : s.Bounded) : ∃ w, s.toWord? = some w := by
  have word : -29524 ≤ s.packed ∧ s.packed ≤ 29524 := by
    unfold Bounded at h
    omega
  exact ⟨⟨s.packed, word.1, word.2⟩, Word.ofInt?_eq_some_iff.mpr rfl⟩

end Flags

end TernaryMachine
