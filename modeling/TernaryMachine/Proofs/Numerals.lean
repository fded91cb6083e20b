import Mathlib.Data.List.Induction
import TernaryMachine.Proofs.TermGrammar

/-!
Numbers in the three balanced notations. A text is read exactly if it consists of digits of its
notation and its positional value fits 32 bits. A number is written in canonical digits without
leading zeros; such a text is determined by its value, so that every number has one canonical text.
-/

set_option autoImplicit false
set_option relaxedAutoImplicit false

namespace TernaryMachine

namespace Radix

open Assembly.Grammar (positional Numeral)

def alphabet (r : Radix) : List Char := r.spellings.filterMap List.head?

/-- A text of canonical digits that begins with a zero only if it is a zero. -/
structure Canonical (r : Radix) (cs : List Char) : Prop where
  nonempty : cs ≠ []
  digits : ∀ c ∈ cs, c ∈ r.alphabet
  leading : cs.head? = some '0' → cs = ['0']

theorem digitChar_mem_alphabet (r : Radix) {d : Int} (lower : -(r.base / 2) ≤ d)
    (upper : d ≤ r.base / 2) : r.digitChar d ∈ r.alphabet := by
  cases r with
  | ternary | nonary | base27 =>
    simp only [base] at lower upper
    interval_cases d <;> decide

theorem eq_digitChar_of_mem_alphabet {r : Radix} {c : Char} {d : Int} (canonical : c ∈ r.alphabet)
    (digit : r.digit? c = some d) : c = r.digitChar d := by
  have table : ∀ c ∈ r.alphabet, (r.digit? c).map r.digitChar = some c :=
    Text.forall_mem_of_all (by cases r <;> decide)
  have back := table c canonical
  rw [digit] at back
  exact (Option.some.inj back).symm

theorem digitChar_zero (r : Radix) : r.digitChar 0 = '0' := by cases r <;> rfl

theorem mem_digits {r : Radix} {n d : Int} (h : d ∈ r.digits n) :
    -(r.base / 2) ≤ d ∧ d ≤ r.base / 2 := by
  fun_induction digits r n with
  | case1 => cases h
  | case2 n nonzero ih =>
    rcases List.mem_cons.mp h with rfl | above
    · exact (r.lowest_spec n).2
    · exact ih above

theorem getLast?_digits (r : Radix) (n : Int) : (r.digits n).getLast? ≠ some 0 := by
  fun_induction digits r n with
  | case1 => exact Option.some_ne_none 0 |>.symm
  | case2 n nonzero ih =>
    by_cases last : r.shift n = 0
    · have whole := r.shift_lowest n
      rw [last, Int.mul_zero, Int.zero_add] at whole
      have none : r.digits 0 = [] := by rw [digits, dif_pos rfl]
      rw [last, none, whole]
      exact fun zero => nonzero (Option.some.inj zero)
    · rw [List.getLast?_cons_of_ne_nil (digits_ne_nil r last)]
      exact ih

theorem canonical_write (r : Radix) (n : Int) : r.Canonical (r.write n) := by
  by_cases zero : n = 0
  · have written : r.write n = ['0'] := by rw [write, if_pos zero, digitChar_zero]
    rw [written]
    refine ⟨List.cons_ne_nil _ _, Text.forall_mem_of_all ?_, fun _ => rfl⟩
    cases r <;> decide
  · have written : r.write n = ((r.digits n).map r.digitChar).reverse := if_neg zero
    refine ⟨r.write_ne_nil n, ?_, ?_⟩
    · intro c member
      rw [written, List.mem_reverse] at member
      obtain ⟨d, digit, rfl⟩ := List.mem_map.mp member
      obtain ⟨lower, upper⟩ := mem_digits digit
      exact r.digitChar_mem_alphabet lower upper
    · intro first
      rw [written, List.head?_reverse, List.getLast?_map] at first
      obtain ⟨d, last, char⟩ := Option.map_eq_some_iff.mp first
      obtain ⟨lower, upper⟩ := mem_digits (List.mem_of_getLast? last)
      have value := r.digit?_digitChar lower upper
      rw [char, digit?_of_spells (show r.Spells '0' 0 by cases r <;> decide)] at value
      rw [← Option.some.inj value] at last
      exact absurd last (r.getLast?_digits n)

section Inside

variable (r : Radix) {n : Int} (lower : Signed32.minValue < n) (upper : n ≤ Signed32.maxValue)
include lower upper

theorem separable_of_inside : r.Separable n := by
  have law := r.shift_lowest n
  have digit := r.lowest_spec n
  simp only [Separable, Signed32.InRange, Signed32.minValue, Signed32.maxValue] at lower upper ⊢
  cases r <;> simp only [base] at law digit ⊢ <;> omega

theorem shift_inside : Signed32.minValue < r.shift n ∧ r.shift n ≤ Signed32.maxValue := by
  have law := r.shift_lowest n
  have digit := r.lowest_spec n
  simp only [Signed32.minValue, Signed32.maxValue] at lower upper ⊢
  cases r <;> simp only [base] at law digit <;> omega

theorem digits?_eq_some : r.digits? n = some (r.digits n) := by
  fun_induction digits r n with
  | case1 => rw [digits?, dif_pos rfl]
  | case2 n nonzero ih =>
    obtain ⟨lower', upper'⟩ := r.shift_inside lower upper
    rw [digits?, dif_neg nonzero, if_pos (r.separable_of_inside lower upper), ih lower' upper']
    rfl

theorem write?_eq_some : r.write? n = some (r.write n) := by
  rw [write?, write, r.digits?_eq_some lower upper]
  split
  · rfl
  · rfl

end Inside

theorem positional_concat (base d : Int) (ds : List Int) :
    positional base (ds ++ [d]) = positional base ds * base + d := by
  induction ds with
  | nil => simp [positional]
  | cons b ds ih =>
    rw [List.cons_append, positional, positional, ih, List.length_append, List.length_singleton]
    ring

theorem lowest_shift {r : Radix} {d m : Int} (lower : -(r.base / 2) ≤ d) (upper : d ≤ r.base / 2) :
    r.lowest (m * r.base + d) = d ∧ r.shift (m * r.base + d) = m := by
  have law := r.shift_lowest (m * r.base + d)
  have digit := r.lowest_spec (m * r.base + d)
  cases r <;> simp only [base] at lower upper law digit ⊢ <;> omega

theorem digits_positional {r : Radix} (ds : List Int)
    (small : ∀ d ∈ ds, -(r.base / 2) ≤ d ∧ d ≤ r.base / 2) (leading : ds.head? ≠ some 0) :
    r.digits (positional r.base ds) = ds.reverse := by
  induction ds using List.reverseRecOn with
  | nil => rw [positional, digits, dif_pos rfl, List.reverse_nil]
  | append_singleton ds d ih =>
    obtain ⟨lower, upper⟩ := small d List.mem_concat_self
    have above : r.digits (positional r.base ds) = ds.reverse := by
      apply ih
      · exact fun b member => small b (List.mem_append_left [d] member)
      · cases ds with
        | nil => exact Option.some_ne_none 0 |>.symm
        | cons b ds => exact leading
    have nonzero : positional r.base ds * r.base + d ≠ 0 := by
      intro zero
      have value : positional r.base ds = 0 ∧ d = 0 := by
        cases r <;> simp only [base] at zero lower upper ⊢ <;> omega
      have none : r.digits 0 = [] := by rw [digits, dif_pos rfl]
      rw [value.1, none] at above
      rw [List.reverse_eq_nil_iff.mp above.symm, value.2] at leading
      exact leading rfl
    obtain ⟨digit, rest⟩ := lowest_shift (m := positional r.base ds) lower upper
    rw [positional_concat, digits, dif_neg nonzero, digit, rest, above, List.reverse_concat]

theorem small_of_spells {r : Radix} {cs : List Char} {ds : List Int}
    (digits : List.Forall₂ r.Spells cs ds) : ∀ d ∈ ds, -(r.base / 2) ≤ d ∧ d ≤ r.base / 2 := by
  induction digits with
  | nil => exact List.forall_mem_nil _
  | cons digit _ ih =>
    have bounds := (Assembly.Grammar.digit_spec (digit?_of_spells digit)).1
    exact List.forall_mem_cons.mpr ⟨bounds, ih⟩

theorem Canonical.eq_map {r : Radix} {cs : List Char} {ds : List Int}
    (canonical : ∀ c ∈ cs, c ∈ r.alphabet) (digits : List.Forall₂ r.Spells cs ds) :
    cs = ds.map r.digitChar := by
  induction digits with
  | nil => rfl
  | cons digit _ ih =>
    obtain ⟨first, others⟩ := List.forall_mem_cons.mp canonical
    rw [List.map_cons, ← eq_digitChar_of_mem_alphabet first (digit?_of_spells digit), ← ih others]

theorem Canonical.eq_write {r : Radix} {cs : List Char} {ds : List Int} (h : r.Canonical cs)
    (digits : List.Forall₂ r.Spells cs ds) : cs = r.write (positional r.base ds) := by
  have text := Canonical.eq_map h.digits digits
  by_cases first : ds.head? = some 0
  · have zero : cs = ['0'] := by
      apply h.leading
      rw [text, List.head?_map, first, Option.map_some, digitChar_zero]
    have alone : ds = [0] := by
      rw [zero] at digits
      cases digits with
      | cons _ none =>
        cases none
        rw [Option.some.inj first]
    rw [zero, alone, write, if_pos (by simp [positional]), digitChar_zero]
  · have whole := digits_positional ds (small_of_spells digits) first
    have nonzero : positional r.base ds ≠ 0 := by
      intro zero
      rw [zero, Radix.digits, dif_pos rfl] at whole
      rw [text, List.reverse_eq_nil_iff.mp whole.symm] at h
      exact h.nonempty rfl
    rw [write, if_neg nonzero, whole, List.map_reverse, List.reverse_reverse]
    exact text

/-- In each notation a text is read exactly if it has digits only and a value inside 32 bits, which
is then the number read. Every 32-bit number but the least one is written without leaving 32 bits;
the text is canonical, is read as the number, and no other canonical text is. -/
theorem numerals_exact (r : Radix) :
    (∀ cs n, r.read cs = .ok n ↔ Numeral r.base r.Spells cs n ∧ Signed32.InRange n)
    ∧ ∀ n, Signed32.InRange n → n ≠ Signed32.minValue → ∃ cs, r.write? n = some cs
      ∧ r.Canonical cs ∧ r.read cs = .ok n
      ∧ ∀ other, r.Canonical other → r.read other = .ok n → other = cs := by
  have spells : (fun c d => r.digit? c = some d) = r.Spells := by
    funext c d
    exact propext (r.digit?_eq_some_iff c d)
  have read (cs : List Char) (n : Int) :
      r.read cs = .ok n ↔ Numeral r.base r.Spells cs n ∧ Signed32.InRange n := by
    rw [← spells]
    exact Assembly.Grammar.read_eq_ok_iff r cs n
  refine ⟨read, ?_⟩
  intro n fits other
  have lower : Signed32.minValue < n := lt_of_le_of_ne fits.1 other.symm
  refine ⟨r.write n, r.write?_eq_some lower fits.2, r.canonical_write n, r.read_write fits, ?_⟩
  intro text canonical value
  obtain ⟨⟨-, ds, digits, rfl⟩, -⟩ := (read text n).mp value
  exact canonical.eq_write digits

theorem numerals_exact_of_greatest : Signed32.InRange 2147483647
    ∧ 2147483647 ≠ Signed32.minValue
    ∧ Radix.nonary.write? 2147483647 = some "1kmi0ij4jj1".toList := by
  have fits : Signed32.InRange 2147483647 := by decide
  have other : (2147483647 : Int) ≠ Signed32.minValue := by decide
  refine ⟨fits, other, ?_⟩
  obtain ⟨cs, written, -, -, unique⟩ := (numerals_exact .nonary).2 2147483647 fits other
  have canonical : Radix.nonary.Canonical "1kmi0ij4jj1".toList :=
    ⟨by decide, Text.forall_mem_of_all (by decide), by decide⟩
  rw [written, unique _ canonical rfl]

end Radix

end TernaryMachine
