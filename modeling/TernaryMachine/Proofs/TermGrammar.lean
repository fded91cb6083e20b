import Mathlib.Data.List.Forall2
import Mathlib.Tactic.IntervalCases
import Mathlib.Tactic.Ring
import Mathlib.Tactic.SplitIfs
import TernaryMachine.Assembly.Expression
import TernaryMachine.Proofs.Notation
import TernaryMachine.Proofs.Patching

/-!
The grammar of numbers and symbols. A term is read exactly if it is a decimal, a literal in one of
the balanced notations, a character literal or a symbol with at most an offset, and the number that
is read is the positional value of its digits. A literal whose value fits is never refused on the
way there: what has left the range does not come back into it, however many digits follow. A name
has no sign in it and a decimal with a sign begins with one, so that the reader finds the end of the
name.
-/

set_option autoImplicit false
set_option relaxedAutoImplicit false

namespace TernaryMachine

namespace Assembly

namespace Grammar

/-- The value of a string of digits, highest digit first. -/
def positional (base : Int) : List Int → Int
  | [] => 0
  | d :: ds => d * base ^ ds.length + positional base ds

def Numeral (base : Int) (Digit : Char → Int → Prop) (cs : List Char) (n : Int) : Prop :=
  cs ≠ [] ∧ ∃ ds, List.Forall₂ Digit cs ds ∧ positional base ds = n

def DecimalDigit (c : Char) (d : Int) : Prop := ∃ k < 10, c = Nat.digitChar k ∧ d = k

inductive Signed : List Char → Int → Prop
  | plus {cs : List Char} {n : Int} (digits : Numeral 10 DecimalDigit cs n) : Signed ('+' :: cs) n
  | minus {cs : List Char} {n : Int} (digits : Numeral 10 DecimalDigit cs n) :
    Signed ('-' :: cs) (-n)

def Decimal (cs : List Char) (n : Int) : Prop := Numeral 10 DecimalDigit cs n ∨ Signed cs n

def mark : Radix → Char
  | .ternary => '%'
  | .nonary => '$'
  | .base27 => '&'

/-- What may follow the apostrophe of a character literal, and the character that is meant. -/
inductive Literal : List Char → Char → Prop
  | plain {c : Char} (ink : Text.isInk c = true) (other : c ≠ '\\') : Literal [c] c
  | newline : Literal ['\\', 'n'] '\n'
  | tab : Literal ['\\', 't'] '\t'
  | null : Literal ['\\', '0'] '\x00'
  | backslash : Literal ['\\', '\\'] '\\'
  | apostrophe : Literal ['\\', '\x27'] '\x27'
  | quote : Literal ['\\', '"'] '"'

def BeginsName (c : Char) : Prop := ('A' ≤ c ∧ c ≤ 'Z') ∨ ('a' ≤ c ∧ c ≤ 'z') ∨ c = '_'

def ContinuesName (c : Char) : Prop := BeginsName c ∨ ('0' ≤ c ∧ c ≤ '9') ∨ c = '.'

def Name (cs : List Char) : Prop :=
  ∃ c rest, cs = c :: rest ∧ BeginsName c ∧ ∀ b ∈ rest, ContinuesName b

inductive DenotesTerm : List Char → Term → Prop
  | decimal {cs : List Char} {n : Int} (number : Decimal cs n) (fits : Signed32.InRange n) :
    DenotesTerm cs (.number n)
  | numeral {r : Radix} {cs : List Char} {n : Int}
    (digits : Numeral r.base (fun c d => r.digit? c = some d) cs n) (fits : Signed32.InRange n) :
    DenotesTerm (mark r :: cs) (.number n)
  | character {cs : List Char} {c : Char} {t : Tryte} (literal : Literal cs c)
    (code : Charset.encode? c = some t) : DenotesTerm ('\x27' :: cs) (.number t.val)
  | symbol {cs : List Char} (name : Name cs) : DenotesTerm cs (.symbol (String.ofList cs) 0)
  | offset {cs distance : List Char} {n : Int} (name : Name cs) (decimal : Signed distance n)
    (fits : Signed32.InRange n) : DenotesTerm (cs ++ distance) (.symbol (String.ofList cs) n)

private theorem foldl_eq_positional (base n : Int) (ds : List Int) :
    ds.foldl (fun n d => n * base + d) n = n * base ^ ds.length + positional base ds := by
  induction ds generalizing n with
  | nil => simp [positional]
  | cons d ds ih =>
    rw [List.foldl_cons, ih, List.length_cons, positional]
    ring

theorem isInk_of_code {c : Char} (h : 33 ≤ c.toNat ∧ c.toNat ≤ 126) :
    Text.isInk c = true := by
  simp only [Text.isInk, Text.isBlank, Bool.not_eq_true', Bool.or_eq_false_iff, beq_eq_false_iff_ne,
    decide_eq_false_iff_not]
  omega

theorem digit_spec {r : Radix} {c : Char} {d : Int} (digit : r.digit? c = some d) :
    (-(r.base / 2) ≤ d ∧ d ≤ r.base / 2) ∧ Text.isInk c = true ∧ c ≠ ',' := by
  have table : ∀ row ∈ r.spellings.zipIdx,
      (-(r.base / 2) ≤ row.2 - r.base / 2 ∧ row.2 - r.base / 2 ≤ r.base / 2)
        ∧ (row.1.all fun c => decide (Text.isInk c = true ∧ c ≠ ',')) = true := by
    cases r <;> decide
  obtain ⟨row, listed, spelling, rfl⟩ := Radix.spells_of_digit? digit
  obtain ⟨bounds, characters⟩ := table row listed
  exact ⟨bounds, Text.forall_mem_of_all characters c spelling⟩

private theorem outside_of_outside {r : Radix} {c : Char} {n d : Int}
    (outside : ¬ Signed32.InRange n) (digit : r.digit? c = some d) :
    ¬ Signed32.InRange (n * r.base + d) := by
  have bounds := (digit_spec digit).1
  simp only [Signed32.InRange, Signed32.minValue, Signed32.maxValue] at outside ⊢
  cases r <;> simp only [Radix.base] at bounds ⊢ <;> omega

private theorem outside_foldl {r : Radix} {cs : List Char} {ds : List Int} {n : Int}
    (outside : ¬ Signed32.InRange n)
    (digits : List.Forall₂ (fun c d => r.digit? c = some d) cs ds) :
    ¬ Signed32.InRange (ds.foldl (fun n d => n * r.base + d) n) := by
  induction digits generalizing n with
  | nil => exact outside
  | cons digit _ ih => exact ih (outside_of_outside outside digit)

/-- Digits are read onto a number if the whole fits, since then every beginning of it does. -/
private theorem readFrom_eq_ok_iff (r : Radix) (text : String) {n m : Int}
    (fits : Signed32.InRange n) (cs : List Char) : r.readFrom text n cs = .ok m
      ↔ ∃ ds, List.Forall₂ (fun c d => r.digit? c = some d) cs ds
        ∧ ds.foldl (fun n d => n * r.base + d) n = m ∧ Signed32.InRange m := by
  induction cs generalizing n with
  | nil =>
    simp only [Radix.readFrom, Except.ok.injEq, List.forall₂_nil_left_iff]
    constructor
    · rintro rfl
      exact ⟨[], rfl, rfl, fits⟩
    · rintro ⟨ds, rfl, rfl, -⟩
      rfl
  | cons c cs ih =>
    simp only [Radix.readFrom, List.forall₂_cons_left_iff]
    cases digit : r.digit? c with
    | none => simp
    | some d =>
      by_cases next : Signed32.InRange (n * r.base + d)
      · simp only [Signed32.check?_of_inRange next, ih next]
        constructor
        · rintro ⟨ds, digits, value, range⟩
          exact ⟨d :: ds, ⟨d, ds, rfl, digits, rfl⟩, value, range⟩
        · rintro ⟨_, ⟨_, ds, same, digits, rfl⟩, value, range⟩
          cases same
          exact ⟨ds, digits, value, range⟩
      · have none : Signed32.check? (n * r.base + d) = none := if_neg next
        simp only [none, reduceCtorEq, false_iff]
        rintro ⟨_, ⟨_, ds, same, digits, rfl⟩, value, range⟩
        cases same
        rw [List.foldl_cons] at value
        rw [← value] at range
        exact outside_foldl next digits range

theorem read_eq_ok_iff (r : Radix) (cs : List Char) (n : Int) : r.read cs = .ok n
    ↔ Numeral r.base (fun c d => r.digit? c = some d) cs n ∧ Signed32.InRange n := by
  have zero : Signed32.InRange 0 := by decide
  cases cs with
  | nil => simp [Radix.read, Numeral]
  | cons c cs =>
    have value (ds : List Int) :
        ds.foldl (fun n d => n * r.base + d) 0 = positional r.base ds := by
      rw [foldl_eq_positional, Int.zero_mul, Int.zero_add]
    simp only [Radix.read, List.isEmpty_cons, Bool.false_eq_true, if_false,
      readFrom_eq_ok_iff r _ zero, value, Numeral, ne_eq, reduceCtorEq, not_false_eq_true, true_and,
      exists_and_right, ← and_assoc]

private theorem decimalDigit_iff (c : Char) (d : Int) :
    DecimalDigit c d ↔ Text.isDigit c = true ∧ (Text.digitValue c : Int) = d := by
  constructor
  · rintro ⟨k, small, rfl, rfl⟩
    obtain ⟨digit, value⟩ := Text.digitChar_spec k small
    exact ⟨digit, congrArg Nat.cast value⟩
  · rintro ⟨digit, rfl⟩
    obtain ⟨k, small, rfl⟩ := Text.exists_digitChar_of_isDigit digit
    exact ⟨k, small, rfl, congrArg Nat.cast (Text.digitChar_spec k small).2⟩

private theorem forall₂_decimalDigit_iff (cs : List Char) (ds : List Int) :
    List.Forall₂ DecimalDigit cs ds
      ↔ cs.all Text.isDigit = true ∧ cs.map (fun c => (Text.digitValue c : Int)) = ds := by
  induction cs generalizing ds with
  | nil => simp [List.forall₂_nil_left_iff, eq_comm]
  | cons c cs ih =>
    simp only [List.forall₂_cons_left_iff, decimalDigit_iff, ih, List.all_cons, Bool.and_eq_true,
      List.map_cons]
    constructor
    · rintro ⟨d, ds, ⟨digit, rfl⟩, ⟨digits, rfl⟩, rfl⟩
      exact ⟨⟨digit, digits⟩, rfl⟩
    · rintro ⟨⟨digit, digits⟩, rfl⟩
      exact ⟨_, _, ⟨digit, rfl⟩, ⟨digits, rfl⟩, rfl⟩

private theorem foldl_digitValue (cs : List Char) (k : Nat) :
    ((cs.foldl (fun n c => n * 10 + Text.digitValue c) k : Nat) : Int)
      = (cs.map fun c => (Text.digitValue c : Int)).foldl (fun n d => n * 10 + d) (k : Int) := by
  induction cs generalizing k with
  | nil => rfl
  | cons c cs ih =>
    rw [List.foldl_cons, ih, List.map_cons, List.foldl_cons]
    push_cast
    rfl

theorem digits?_eq_some_iff (cs : List Char) (n : Int) :
    (Text.digits? cs).map Int.ofNat = some n ↔ Numeral 10 DecimalDigit cs n := by
  have value := (foldl_digitValue cs 0).trans (foldl_eq_positional 10 0 _)
  rw [Int.zero_mul, Int.zero_add] at value
  simp only [Numeral, forall₂_decimalDigit_iff]
  unfold Text.digits?
  split
  · rename_i other
    simp only [Bool.or_eq_true, List.isEmpty_iff, Bool.not_eq_true'] at other
    simp only [Option.map_none, reduceCtorEq, false_iff]
    rintro ⟨nonempty, -, ⟨digits, -⟩, -⟩
    rcases other with empty | mixed
    · exact nonempty empty
    · simp [digits] at mixed
  · rename_i pure
    simp only [Bool.or_eq_true, List.isEmpty_iff, Bool.not_eq_true', not_or,
      Bool.not_eq_false] at pure
    simp only [Option.map_some, Option.some.injEq, Int.ofNat_eq_natCast, value]
    constructor
    · rintro rfl
      exact ⟨pure.1, _, ⟨pure.2, rfl⟩, rfl⟩
    · rintro ⟨-, _, ⟨-, rfl⟩, rfl⟩
      rfl

theorem isDigit_of_numeral {cs : List Char} {n : Int}
    (number : Numeral 10 DecimalDigit cs n) : ∀ c ∈ cs, Text.isDigit c = true := by
  obtain ⟨-, ds, digits, -⟩ := number
  exact List.all_eq_true.mp ((forall₂_decimalDigit_iff cs ds).mp digits).1

private theorem integer?_minus (cs : List Char) : Text.integer? ('-' :: cs)
    = ((Text.digits? cs).map Int.ofNat).map fun n => -n := by
  simp only [Text.integer?]
  cases Text.digits? cs <;> rfl

theorem integer?_eq_some_iff (cs : List Char) (n : Int) :
    Text.integer? cs = some n ↔ Decimal cs n := by
  have unsigned {c : Char} {cs : List Char} {n : Int} (other : Text.isDigit c = false) :
      ¬ Numeral 10 DecimalDigit (c :: cs) n := by
    intro number
    rw [isDigit_of_numeral number c List.mem_cons_self] at other
    contradiction
  by_cases minus : ∃ rest, cs = '-' :: rest
  · obtain ⟨cs, rfl⟩ := minus
    rw [integer?_minus, Option.map_eq_some_iff]
    constructor
    · rintro ⟨k, read, rfl⟩
      exact .inr (.minus ((digits?_eq_some_iff cs k).mp read))
    · rintro (number | ⟨number⟩ | ⟨number⟩)
      · exact absurd number (unsigned (by decide))
      · exact ⟨_, (digits?_eq_some_iff cs _).mpr number, rfl⟩
  · unfold Text.integer?
    split
    · exact absurd ⟨_, rfl⟩ minus
    · rename_i cs
      rw [digits?_eq_some_iff]
      constructor
      · exact fun number => .inr (.plus number)
      · rintro (number | ⟨number⟩ | ⟨number⟩)
        · exact absurd number (unsigned (by decide))
        · exact number
    · rename_i noPlus
      rw [digits?_eq_some_iff]
      constructor
      · exact .inl
      · rintro (number | @⟨cs, n, number⟩ | @⟨cs, n, number⟩)
        · exact number
        · exact absurd rfl (noPlus cs)
        · exact absurd ⟨cs, rfl⟩ minus

theorem readDecimal_eq_ok_iff (cs : List Char) (n : Int) :
    Expression.readDecimal cs = .ok n ↔ Decimal cs n ∧ Signed32.InRange n := by
  have read : Expression.readDecimal cs = .ok n ↔ Text.signed32? cs = some n := by
    unfold Expression.readDecimal
    split <;> simp_all
  rw [read, Text.signed32?, Option.bind_eq_some_iff]
  constructor
  · rintro ⟨m, whole, fits⟩
    obtain ⟨range, rfl⟩ := Signed32.check?_eq_some_iff.mp fits
    exact ⟨(integer?_eq_some_iff cs m).mp whole, range⟩
  · rintro ⟨number, fits⟩
    exact ⟨n, (integer?_eq_some_iff cs n).mpr number, Signed32.check?_of_inRange fits⟩

theorem readNumeral_eq_ok_iff (r : Radix) (cs : List Char) (n : Int) :
    Expression.readNumeral r cs = .ok n
      ↔ Numeral r.base (fun c d => r.digit? c = some d) cs n ∧ Signed32.InRange n := by
  rw [← read_eq_ok_iff]
  unfold Expression.readNumeral
  split <;> simp_all

private theorem unescape?_eq_some_iff (letter c : Char) :
    unescape? letter = some c ↔ Literal ['\\', letter] c := by
  constructor
  · intro read
    unfold unescape? at read
    split_ifs at read with newline tab null other
    · cases read
      subst letter
      exact .newline
    · cases read
      subst letter
      exact .tab
    · cases read
      subst letter
      exact .null
    · cases read
      rcases other with rfl | rfl | rfl
      · exact .backslash
      · exact .apostrophe
      · exact .quote
  · intro literal
    cases literal <;> rfl

private theorem literalChar?_eq_some_iff {cs : List Char}
    (last : ∀ c ∈ cs.getLast?, Text.isInk c = true) (c : Char) :
    Expression.literalChar? cs = some c ↔ Literal cs c := by
  unfold Expression.literalChar?
  split
  · rename_i b
    split_ifs with escapes
    · simp only [false_iff]
      intro literal
      cases literal
      contradiction
    · simp only [Option.some.injEq]
      constructor
      · rintro rfl
        exact .plain (last _ rfl) escapes
      · intro literal
        cases literal
        rfl
  · split_ifs with escapes
    · rw [escapes]
      exact unescape?_eq_some_iff _ c
    · simp only [false_iff]
      intro literal
      cases literal <;> contradiction
  · rename_i single double
    simp only [reduceCtorEq, false_iff]
    intro literal
    cases literal with
    | plain => exact single _ rfl
    | _ => exact double _ _ rfl

theorem readCharacter_eq_ok_iff {cs : List Char}
    (last : ∀ c ∈ cs.getLast?, Text.isInk c = true) (n : Int) :
    Expression.readCharacter cs = .ok n
      ↔ ∃ c t, Literal cs c ∧ Charset.encode? c = some t ∧ t.val = n := by
  have read : Expression.readCharacter cs = .ok n
      ↔ ∃ t, (Expression.literalChar? cs).bind Charset.encode? = some t ∧ t.val = n := by
    unfold Expression.readCharacter
    cases (Expression.literalChar? cs).bind Charset.encode? <;> simp
  simp only [read, Option.bind_eq_some_iff, literalChar?_eq_some_iff last]
  constructor
  · rintro ⟨t, ⟨c, literal, code⟩, value⟩
    exact ⟨c, t, literal, code, value⟩
  · rintro ⟨c, t, literal, code, value⟩
    exact ⟨t, ⟨c, literal, code⟩, value⟩

theorem startsSymbol_iff (c : Char) : startsSymbol c = true ↔ BeginsName c := by
  simp [startsSymbol, isLetter, BeginsName, or_assoc]

theorem continuesSymbol_iff (c : Char) : continuesSymbol c = true ↔ ContinuesName c := by
  simp only [continuesSymbol, isLetter, Text.isDigit, ContinuesName, BeginsName, Bool.or_eq_true,
    Bool.and_eq_true, decide_eq_true_eq, beq_iff_eq]
  grind

theorem isSymbol_iff (cs : List Char) : isSymbol cs = true ↔ Name cs := by
  cases cs with
  | nil => simp [isSymbol, Name]
  | cons c cs =>
    simp only [isSymbol, Bool.and_eq_true, startsSymbol_iff, List.all_eq_true, continuesSymbol_iff,
      Name, List.cons.injEq]
    constructor
    · rintro ⟨first, others⟩
      exact ⟨c, cs, ⟨rfl, rfl⟩, first, others⟩
    · rintro ⟨_, _, ⟨rfl, rfl⟩, first, others⟩
      exact ⟨first, others⟩

private theorem isSign_of_continuesName {c : Char} (h : ContinuesName c) :
    Expression.isSign c = false := by
  have letters := (continuesSymbol_iff c).mpr h
  cases sign : Expression.isSign c with
  | false => rfl
  | true =>
    simp only [Expression.isSign, Bool.or_eq_true, beq_iff_eq] at sign
    rcases sign with rfl | rfl <;> exact absurd letters (by decide)

private theorem isSign_of_name {cs : List Char} (name : Name cs) :
    ∀ c ∈ cs, Expression.isSign c = false := by
  obtain ⟨first, rest, rfl, begins, continues⟩ := name
  intro c member
  rcases List.mem_cons.mp member with rfl | member
  · exact isSign_of_continuesName (.inl begins)
  · exact isSign_of_continuesName (continues c member)

private theorem cut_name {name : List Char} (h : Name name) {rest : List Char}
    (sign : ∀ c ∈ rest.head?, Expression.isSign c = true) :
    (name ++ rest).takeWhile (fun c => !Expression.isSign c) = name
      ∧ (name ++ rest).dropWhile (fun c => !Expression.isSign c) = rest := by
  have letters : ∀ c ∈ name, (!Expression.isSign c) = true := by
    intro c member
    rw [isSign_of_name h c member]
    rfl
  rw [List.takeWhile_append_of_pos letters, List.dropWhile_append_of_pos letters]
  cases rest with
  | nil => simp
  | cons c rest => simp [sign c rfl]

private theorem isSign_of_signed {cs : List Char} {n : Int} (h : Signed cs n) :
    ∀ c ∈ cs.head?, Expression.isSign c = true := by
  intro c head
  cases h <;> cases head <;> rfl

private theorem signed_of_decimal {cs : List Char} {n : Int} (h : Decimal cs n)
    (sign : ∀ c ∈ cs.head?, Expression.isSign c = true) : Signed cs n := by
  rcases h with digits | signed
  · obtain ⟨c, rest, rfl⟩ := List.exists_cons_of_ne_nil digits.1
    have digit := isDigit_of_numeral digits c List.mem_cons_self
    have sign := sign c rfl
    simp only [Expression.isSign, Bool.or_eq_true, beq_iff_eq] at sign
    rcases sign with rfl | rfl <;> exact absurd digit (by decide)
  · exact signed

theorem readSymbol_eq_ok_iff (cs : List Char) (t : Term) : Expression.readSymbol cs = .ok t
    ↔ (Name cs ∧ t = .symbol (String.ofList cs) 0) ∨ ∃ name distance n, cs = name ++ distance
      ∧ Name name ∧ Signed distance n ∧ Signed32.InRange n
      ∧ t = .symbol (String.ofList name) n := by
  unfold Expression.readSymbol
  constructor
  · intro read
    have whole : cs.takeWhile (fun c => !Expression.isSign c)
        ++ cs.dropWhile (fun c => !Expression.isSign c) = cs := List.takeWhile_append_dropWhile
    have sign := List.head?_dropWhile_not (fun c => !Expression.isSign c) cs
    generalize cs.takeWhile (fun c => !Expression.isSign c) = name at read whole
    generalize cs.dropWhile (fun c => !Expression.isSign c) = distance at read whole sign
    simp only [Bool.not_eq_true', List.isEmpty_iff] at read
    split at read
    · contradiction
    · rename_i symbol
      have symbol : Name name := (isSymbol_iff name).mp (by simpa using symbol)
      split at read
      · rename_i empty
        subst empty
        rw [List.append_nil] at whole
        subst whole
        cases read
        exact .inl ⟨symbol, rfl⟩
      · obtain ⟨n, number, rfl⟩ := map_eq_ok_iff.mp read
        obtain ⟨decimal, fits⟩ := (readDecimal_eq_ok_iff distance n).mp number
        refine .inr ⟨name, distance, n, whole.symm, symbol, signed_of_decimal decimal ?_, fits, rfl⟩
        intro c head
        rw [Option.mem_def.mp head] at sign
        simpa using sign
  · rintro (⟨name, rfl⟩ | ⟨name, distance, n, rfl, symbol, decimal, fits, rfl⟩)
    · obtain ⟨front, back⟩ := @cut_name cs name [] (by simp)
      rw [List.append_nil] at front back
      simp [front, back, (isSymbol_iff cs).mpr name]
    · obtain ⟨front, back⟩ := cut_name symbol (isSign_of_signed decimal)
      have nonempty : distance.isEmpty = false := by cases decimal <;> rfl
      have number := (readDecimal_eq_ok_iff distance n).mpr ⟨.inr decimal, fits⟩
      simp only [front, back, (isSymbol_iff name).mpr symbol, nonempty, number]
      rfl

theorem head_of_decimal {cs : List Char} {n : Int} (h : Decimal cs n) :
    ∃ c rest, cs = c :: rest ∧ (c = '+' ∨ c = '-' ∨ Text.isDigit c = true) := by
  rcases h with digits | ⟨-⟩ | ⟨-⟩
  · obtain ⟨c, rest, rfl⟩ := List.exists_cons_of_ne_nil digits.1
    exact ⟨c, rest, rfl, .inr (.inr (isDigit_of_numeral digits c List.mem_cons_self))⟩
  · exact ⟨'+', _, rfl, .inl rfl⟩
  · exact ⟨'-', _, rfl, .inr (.inl rfl)⟩

private theorem readTerm_of_decimal {c : Char} (h : c = '+' ∨ c = '-' ∨ Text.isDigit c = true)
    (rest : List Char) :
    Expression.readTerm (c :: rest) = (Expression.readDecimal (c :: rest)).map .number := by
  rcases h with rfl | rfl | digit
  · rfl
  · rfl
  · obtain ⟨k, small, rfl⟩ := Text.exists_digitChar_of_isDigit digit
    interval_cases k <;> rfl

private theorem readTerm_of_startsSymbol {c : Char} (h : startsSymbol c = true)
    (rest : List Char) : Expression.readTerm (c :: rest) = Expression.readSymbol (c :: rest) := by
  have other {b : Char} (no : startsSymbol b = false) : c ≠ b := by
    rintro rfl
    rw [no] at h
    contradiction
  unfold Expression.readTerm
  split
  · contradiction
  · exact absurd (List.cons.inj ‹_›).1 (other (by decide))
  · exact absurd (List.cons.inj ‹_›).1 (other (by decide))
  · exact absurd (List.cons.inj ‹_›).1 (other (by decide))
  · exact absurd (List.cons.inj ‹_›).1 (other (by decide))
  · rename_i same
    obtain ⟨rfl, rfl⟩ := List.cons.inj same
    rw [if_pos h]

theorem last_of_cons {b : Char} {rest : List Char}
    (last : ∀ c ∈ (b :: rest).getLast?, Text.isInk c = true) :
    ∀ c ∈ rest.getLast?, Text.isInk c = true := by
  intro c member
  apply last
  rw [List.getLast?_cons, Option.mem_def.mp member]
  rfl

theorem readTerm_eq_ok_iff {cs : List Char} (last : ∀ c ∈ cs.getLast?, Text.isInk c = true)
    (t : Term) : Expression.readTerm cs = .ok t ↔ DenotesTerm cs t := by
  constructor
  · intro read
    unfold Expression.readTerm at read
    have numeral (r : Radix) {rest : List Char}
        (read : (Expression.readNumeral r rest).map .number = .ok t) :
        DenotesTerm (mark r :: rest) t := by
      obtain ⟨n, number, rfl⟩ := map_eq_ok_iff.mp read
      obtain ⟨digits, fits⟩ := (readNumeral_eq_ok_iff r rest n).mp number
      exact .numeral digits fits
    split at read
    · cases read
    · exact numeral .ternary read
    · exact numeral .nonary read
    · exact numeral .base27 read
    · obtain ⟨n, number, rfl⟩ := map_eq_ok_iff.mp read
      obtain ⟨c, t, literal, code, rfl⟩ := (readCharacter_eq_ok_iff (last_of_cons last) n).mp number
      exact .character literal code
    · split at read
      · rcases (readSymbol_eq_ok_iff _ t).mp read with
          ⟨name, rfl⟩ | ⟨name, distance, n, whole, symbol, decimal, fits, rfl⟩
        · exact .symbol name
        · rw [whole]
          exact .offset symbol decimal fits
      · obtain ⟨n, number, rfl⟩ := map_eq_ok_iff.mp read
        obtain ⟨decimal, fits⟩ := (readDecimal_eq_ok_iff _ n).mp number
        exact .decimal decimal fits
  · rintro (@⟨cs, n, decimal, fits⟩ | @⟨r, cs, n, digits, fits⟩ | @⟨cs, c, t, literal, code⟩ | name
      | @⟨name, distance, n, symbol, decimal, fits⟩)
    · obtain ⟨c, rest, rfl, first⟩ := head_of_decimal decimal
      rw [readTerm_of_decimal first, (readDecimal_eq_ok_iff _ n).mpr ⟨decimal, fits⟩]
      rfl
    · have number := (readNumeral_eq_ok_iff r cs n).mpr ⟨digits, fits⟩
      cases r <;> simp only [mark, Expression.readTerm, number] <;> rfl
    · have number := (readCharacter_eq_ok_iff (last_of_cons last) t.val).mpr
        ⟨c, t, literal, code, rfl⟩
      simp only [Expression.readTerm, number]
      rfl
    · have read := (readSymbol_eq_ok_iff cs _).mpr (.inl ⟨name, rfl⟩)
      obtain ⟨c, rest, rfl, begins, -⟩ := name
      rw [readTerm_of_startsSymbol ((startsSymbol_iff c).mpr begins), read]
    · have read := (readSymbol_eq_ok_iff (name ++ distance) _).mpr
        (.inr ⟨name, distance, n, rfl, symbol, decimal, fits, rfl⟩)
      obtain ⟨c, rest, rfl, begins, -⟩ := symbol
      rw [List.cons_append] at read ⊢
      rw [readTerm_of_startsSymbol ((startsSymbol_iff c).mpr begins), read]

end Grammar

end Assembly

end TernaryMachine
