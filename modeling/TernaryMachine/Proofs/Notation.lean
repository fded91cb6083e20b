import Mathlib.Tactic.IntervalCases
import Mathlib.Tactic.SplitIfs
import TernaryMachine.Numeral
import TernaryMachine.Text.Decimal

/-!
Written numbers are read back: decimals with a sign where one is needed, and literals in the three
balanced notations. The characters that occur in them are digits of their notation, which are given
as a table.
-/

set_option autoImplicit false
set_option relaxedAutoImplicit false

namespace TernaryMachine

namespace Text

theorem forall_mem_of_all {P : Char → Prop} [DecidablePred P] {cs : List Char}
    (h : (cs.all fun c => decide (P c)) = true) : ∀ c ∈ cs, P c := by
  intro c hc
  exact of_decide_eq_true (List.all_eq_true.mp h c hc)

theorem digitChar_spec : ∀ d < 10,
    isDigit (Nat.digitChar d) = true ∧ digitValue (Nat.digitChar d) = d := by
  decide

theorem exists_digitChar_of_isDigit {c : Char} (h : isDigit c = true) :
    ∃ d < 10, c = Nat.digitChar d := by
  simp only [isDigit, Bool.and_eq_true, decide_eq_true_eq, Char.le_def,
    UInt32.le_iff_toNat_le] at h
  obtain ⟨lower, upper⟩ : 48 ≤ c.toNat ∧ c.toNat ≤ 57 := h
  refine ⟨c.toNat - 48, by omega, ?_⟩
  conv => lhs; rw [← Char.ofNat_toNat c]
  generalize c.toNat = n at lower upper ⊢
  interval_cases n <;> rfl

theorem isDigit_of_mem_natDigits (n : Nat) : ∀ c ∈ natDigits n, isDigit c = true := by
  fun_induction natDigits n with
  | case1 n small =>
    intro c hc
    rw [List.mem_singleton.mp hc]
    exact (digitChar_spec n small).1
  | case2 n large ih =>
    intro c hc
    rcases List.mem_append.mp hc with hc | hc
    · exact ih c hc
    · rw [List.mem_singleton.mp hc]
      exact (digitChar_spec (n % 10) (Nat.mod_lt n (by decide))).1

theorem natDigits_ne_nil (n : Nat) : natDigits n ≠ [] := by
  unfold natDigits
  split <;> simp

private theorem foldl_natDigits (n : Nat) :
    (natDigits n).foldl (fun n c => n * 10 + digitValue c) 0 = n := by
  fun_induction natDigits n with
  | case1 n small => simp [digitChar_spec n small]
  | case2 n large ih =>
    rw [List.foldl_append, ih]
    simp only [List.foldl_cons, List.foldl_nil]
    rw [(digitChar_spec (n % 10) (Nat.mod_lt n (by decide))).2]
    omega

@[simp] theorem digits?_natDigits (n : Nat) : digits? (natDigits n) = some n := by
  have all : (natDigits n).all isDigit = true :=
    List.all_eq_true.mpr (isDigit_of_mem_natDigits n)
  simp [digits?, all, natDigits_ne_nil, foldl_natDigits]

private theorem integer?_natDigits (n : Nat) : integer? (natDigits n) = some (n : Int) := by
  have h := digits?_natDigits n
  have first := isDigit_of_mem_natDigits n
  unfold integer?
  split
  · rename_i cs e
    exact absurd (first '-' (by simp [e])) (by decide)
  · rename_i cs e
    exact absurd (first '+' (by simp [e])) (by decide)
  · rw [h]
    rfl

theorem integer?_decimal (n : Int) : integer? (decimal n) = some n := by
  unfold decimal
  split
  · have value : (digits? (natDigits n.natAbs)).map (fun k => -(k : Int))
        = some (-(n.natAbs : Int)) := by
      rw [digits?_natDigits]
      rfl
    have back : -(n.natAbs : Int) = n := by omega
    rw [back] at value
    exact value
  · have back : (n.natAbs : Int) = n := by omega
    rw [integer?_natDigits, back]

theorem signed32?_decimal {n : Int} (h : Signed32.InRange n) :
    signed32? (decimal n) = some n := by
  rw [signed32?, integer?_decimal]
  exact Signed32.check?_of_inRange h

theorem signed32?_plus_decimal {n : Int} (positive : 0 < n) (h : Signed32.InRange n) :
    signed32? ('+' :: decimal n) = some n := by
  have unsigned : decimal n = natDigits n.natAbs := if_neg (by omega)
  have value : integer? ('+' :: decimal n) = some n := by
    have read : integer? ('+' :: natDigits n.natAbs) = some (n.natAbs : Int) := by
      simp only [integer?, digits?_natDigits]
      rfl
    have back : (n.natAbs : Int) = n := by omega
    rw [unsigned, read, back]
  rw [signed32?, value]
  exact Signed32.check?_of_inRange h

theorem mem_decimal {n : Int} {c : Char} (h : c ∈ decimal n) : c = '-' ∨ isDigit c = true := by
  unfold decimal at h
  split at h
  · rcases List.mem_cons.mp h with rfl | h
    · exact .inl rfl
    · exact .inr (isDigit_of_mem_natDigits _ c h)
  · exact .inr (isDigit_of_mem_natDigits _ c h)

theorem decimal_ne_nil (n : Int) : decimal n ≠ [] := by
  unfold decimal
  split
  · simp
  · exact natDigits_ne_nil _

theorem exists_decimal_eq_append (n : Int) :
    ∃ cs d, decimal n = cs ++ [d] ∧ isDigit d = true := by
  obtain ⟨cs, d, hd⟩ :=
    List.eq_nil_or_concat (natDigits n.natAbs) |>.resolve_left (natDigits_ne_nil _)
  have digit : isDigit d = true := isDigit_of_mem_natDigits n.natAbs d (by simp [hd])
  unfold decimal
  split
  · exact ⟨'-' :: cs, d, by simp [hd], digit⟩
  · exact ⟨cs, d, by simp [hd], digit⟩

end Text

namespace Radix

/-- The characters that stand for each digit, from the lowest digit to the highest. The first one of
a digit is the canonical one. -/
def spellings : Radix → List (List Char)
  | .ternary => [['i', 'I', 'T', 't', '-'], ['0'], ['1', '+']]
  | .nonary =>
    [['m', '④'], ['k', '③'], ['j', '②'], ['i', '①'], ['0'], ['1'], ['2'], ['3'], ['4']]
  | .base27 =>
    ['Z', 'Y', 'X', 'W', 'V', 'U', 'T', 'S', 'R', 'Q', 'P', 'O', 'N', '0', 'A', 'B', 'C', 'D', 'E',
      'F', 'G', 'H', 'I', 'J', 'K', 'L', 'M'].map fun c => [c]

def Spells (r : Radix) (c : Char) (d : Int) : Prop :=
  ∃ row ∈ r.spellings.zipIdx, c ∈ row.1 ∧ d = row.2 - r.base / 2

instance (r : Radix) (c : Char) (d : Int) : Decidable (r.Spells c d) :=
  inferInstanceAs (Decidable (∃ _ ∈ _, _))

theorem digit?_of_spells {r : Radix} {c : Char} {d : Int} (h : r.Spells c d) :
    r.digit? c = some d := by
  have table : ∀ row ∈ r.spellings.zipIdx,
      (row.1.all fun c => decide (r.digit? c = some (row.2 - r.base / 2))) = true := by
    cases r <;> decide
  obtain ⟨row, listed, spelling, rfl⟩ := h
  exact Text.forall_mem_of_all (table row listed) c spelling

theorem spells_of_digit? {r : Radix} {c : Char} {d : Int} (h : r.digit? c = some d) :
    r.Spells c d := by
  cases r with
  | ternary =>
    obtain ⟨t, char, rfl⟩ := Option.map_eq_some_iff.mp h
    unfold Trit.ofChar? at char
    split_ifs at char with minus zero plus
    · cases char
      rcases minus with rfl | rfl | rfl | rfl | rfl <;> decide
    · cases char
      subst zero
      decide
    · cases char
      rcases plus with rfl | rfl <;> decide
  | nonary =>
    simp only [digit?, nonaryDigit?] at h
    split at h <;> cases h <;> decide
  | base27 =>
    have table : ∀ n < 91, ∀ d ∈ Radix.base27.digit? (Char.ofNat n),
        Radix.base27.Spells (Char.ofNat n) d := by
      decide
    have code : c.toNat < 91 := by
      simp only [digit?, base27Digit?, Char.le_def, UInt32.le_iff_toNat_le] at h
      split_ifs at h with zero positive negative
      · subst zero
        decide
      · exact Nat.lt_of_le_of_lt positive.2 (by decide)
      · exact Nat.lt_of_le_of_lt negative.2 (by decide)
    rw [← Char.ofNat_toNat c] at h ⊢
    exact table c.toNat code d h

theorem digit?_eq_some_iff (r : Radix) (c : Char) (d : Int) :
    r.digit? c = some d ↔ r.Spells c d := ⟨spells_of_digit?, digit?_of_spells⟩

theorem digit?_digitChar (r : Radix) {d : Int} (lower : -(r.base / 2) ≤ d)
    (upper : d ≤ r.base / 2) : r.digit? (r.digitChar d) = some d := by
  cases r with
  | ternary | nonary | base27 =>
    simp only [base] at lower upper
    interval_cases d <;> rfl

private theorem readFrom_append (r : Radix) (text : String) (n : Int) (cs : List Char) (c : Char) :
    r.readFrom text n (cs ++ [c]) = (r.readFrom text n cs).bind fun m => r.readFrom text m [c] := by
  induction cs generalizing n with
  | nil => rfl
  | cons b cs ih =>
    simp only [List.cons_append, readFrom]
    split
    · rfl
    · split
      · rfl
      · exact ih _

private theorem readFrom_digits (r : Radix) (text : String) (n : Int) (h : Signed32.InRange n) :
    r.readFrom text 0 ((r.digits n).map r.digitChar).reverse = .ok n := by
  fun_induction digits r n with
  | case1 => rfl
  | case2 n nonzero ih =>
    have smaller := natAbs_shift_lt r n nonzero
    have lowest := r.lowest_spec n
    have above : Signed32.InRange (r.shift n) := by
      simp only [Signed32.InRange, Signed32.minValue, Signed32.maxValue] at h ⊢
      omega
    have whole : r.shift n * r.base + r.lowest n = n := by
      rw [Int.mul_comm]
      exact r.shift_lowest n
    rw [List.map_cons, List.reverse_cons, readFrom_append, ih above]
    simp only [Except.bind, readFrom, digit?_digitChar r lowest.2.1 lowest.2.2, whole,
      Signed32.check?_of_inRange h]

theorem digits_ne_nil (r : Radix) {n : Int} (h : n ≠ 0) : r.digits n ≠ [] := by
  unfold digits
  simp [h]

theorem write_ne_nil (r : Radix) (n : Int) : r.write n ≠ [] := by
  unfold write
  split
  · simp
  · rename_i h
    simp [digits_ne_nil r h]

theorem read_write (r : Radix) {n : Int} (h : Signed32.InRange n) : r.read (r.write n) = .ok n := by
  have nonempty : (r.write n).isEmpty = false := by simp [write_ne_nil]
  simp only [read, nonempty, Bool.false_eq_true, if_false]
  by_cases zero : n = 0
  · subst zero
    cases r <;> rfl
  · have written : r.write n = ((r.digits n).map r.digitChar).reverse := if_neg zero
    rw [written]
    exact readFrom_digits r _ n h

theorem mem_write_ternary {n : Int} {c : Char} (h : c ∈ Radix.ternary.write n) :
    c = 'i' ∨ c = '0' ∨ c = '1' := by
  have digit (d : Int) : Radix.ternary.digitChar d = 'i' ∨ Radix.ternary.digitChar d = '0'
      ∨ Radix.ternary.digitChar d = '1' := by
    simp only [digitChar]
    split
    · exact .inl rfl
    · split
      · exact .inr (.inl rfl)
      · exact .inr (.inr rfl)
  unfold write at h
  split at h
  · rw [List.mem_singleton.mp h]
    exact digit 0
  · obtain ⟨d, -, rfl⟩ := List.mem_map.mp (List.mem_reverse.mp h)
    exact digit d

end Radix

end TernaryMachine
