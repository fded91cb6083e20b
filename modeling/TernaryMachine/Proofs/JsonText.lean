import Mathlib.Data.List.Basic
import Mathlib.Tactic.IntervalCases
import TernaryMachine.Json
import TernaryMachine.Proofs.Notation

/-!
JSON texts and the values that they are read as. A text is read as a value whatever follows it, as
long as that ends a value. Decimals are read as integers, and members with plain names that stand
one after the other make up an object.
-/

set_option autoImplicit false
set_option relaxedAutoImplicit false

namespace TernaryMachine

namespace Text

theorem eq_zero_of_natDigits {n : Nat} (h : (natDigits n).head? = some '0') : n = 0 := by
  fun_induction natDigits n with
  | case1 n small =>
    have digit : ∀ d < 10, Nat.digitChar d = '0' → d = 0 := by decide
    exact digit n small (Option.some.inj h)
  | case2 n large ih =>
    rw [List.head?_append_of_ne_nil _ (natDigits_ne_nil _)] at h
    have := ih h
    omega

end Text

namespace Json

/-- What may stand behind a value: nothing, or a character that ends the value. -/
def Ends (rest : List Char) : Prop := ∀ c ∈ rest.head?, c = ',' ∨ c = ']' ∨ c = '\x7d'

/-- The text is read as the value, with one unit of fuel for each character and one more. -/
def Reads (text : List Char) (v : Json) : Prop :=
  ∀ fuel rest, text.length < fuel → Ends rest → value? fuel (text ++ rest) = some (v, rest)

theorem ends_nil : Ends [] := by simp [Ends]

theorem Reads.parse? {text : List Char} {v : Json} (h : Reads text v) : parse? text = some v := by
  have whole := h (text.length + 1) [] (Nat.lt_succ_self _) ends_nil
  rw [List.append_nil] at whole
  rw [Json.parse?, whole]
  rfl

theorem skipSpace_of_head {c : Char} (h : isSpace c = false) (rest : List Char) :
    skipSpace (c :: rest) = c :: rest :=
  List.dropWhile_cons_of_neg (by simp [h])

section Numbers

variable {rest : List Char} (ends : Ends rest)
include ends

theorem digits?_append {ds : List Char} (nonempty : ds ≠ [])
    (digits : ∀ c ∈ ds, Text.isDigit c = true) : digits? (ds ++ rest) = some (ds, rest) := by
  have stop : ∀ c ∈ rest.head?, ¬ Text.isDigit c = true := by
    intro c member
    rcases ends c member with rfl | rfl | rfl <;> decide
  have taken : (ds ++ rest).takeWhile Text.isDigit = ds := by
    rw [List.takeWhile_append_of_pos digits]
    cases rest with
    | nil => simp
    | cons c rest => rw [List.takeWhile_cons_of_neg (stop c rfl), List.append_nil]
  have left : (ds ++ rest).dropWhile Text.isDigit = rest := by
    rw [List.dropWhile_append_of_pos digits]
    cases rest with
    | nil => rfl
    | cons c rest => exact List.dropWhile_cons_of_neg (stop c rfl)
  have filled : ds.isEmpty = false := by simpa using nonempty
  simp [Json.digits?, taken, left, filled]

theorem whole?_natDigits (n : Nat) :
    whole? (Text.natDigits n ++ rest) = some (Text.natDigits n, rest) := by
  have run := digits?_append ends (Text.natDigits_ne_nil n) (Text.isDigit_of_mem_natDigits n)
  unfold whole?
  split
  · rename_i c tail same
    have zero : n = 0 := by
      have first := congrArg List.head? same
      rw [List.head?_append_of_ne_nil _ (Text.natDigits_ne_nil n)] at first
      exact Text.eq_zero_of_natDigits first
    have single : Text.natDigits 0 = ['0'] := by rw [Text.natDigits, if_pos (by decide)]; rfl
    rw [zero, single] at same ⊢
    obtain rfl : rest = c :: tail := (List.cons.inj same).2
    have stop : Text.isDigit c = false := by
      rcases ends c rfl with rfl | rfl | rfl <;> decide
    rw [stop]
    rfl
  · exact run

theorem fraction?_of_ends : fraction? rest = some (false, rest) := by
  unfold fraction?
  split
  · rcases ends _ rfl with h | h | h <;> contradiction
  · rfl

theorem exponent?_of_ends : exponent? rest = some (false, rest) := by
  unfold exponent?
  split
  · rcases ends _ rfl with h | h | h <;> contradiction
  · rcases ends _ rfl with h | h | h <;> contradiction
  · rfl

theorem unsigned?_natDigits (negative : Bool) (n : Nat) (nonzero : negative = true → n ≠ 0) :
    unsigned? negative (Text.natDigits n ++ rest)
      = some (.integer (if negative then -(n : Int) else n), rest) := by
  have signed : (false || false || (negative && n == 0)) = false := by
    cases negative with
    | false => rfl
    | true => simpa using nonzero rfl
  rw [unsigned?, whole?_natDigits ends]
  simp only [Option.bind_eq_bind, Option.bind_some, fraction?_of_ends ends, exponent?_of_ends ends,
    Text.digits?_natDigits, signed]
  rfl

end Numbers

theorem reads_decimal (n : Int) : Reads (Text.decimal n) (.integer n) := by
  intro fuel rest enough ends
  obtain ⟨fuel, rfl⟩ : ∃ k, fuel = k + 1 := ⟨fuel - 1, by omega⟩
  by_cases negative : n < 0
  · have written : Text.decimal n = '-' :: Text.natDigits n.natAbs := if_pos negative
    have number := unsigned?_natDigits ends true n.natAbs (fun _ => by omega)
    rw [written, List.cons_append, value?, skipSpace_of_head (by decide)]
    have back : -(n.natAbs : Int) = n := by omega
    rw [if_pos rfl, back] at number
    exact number
  · have written : Text.decimal n = Text.natDigits n.natAbs := if_neg negative
    have number := unsigned?_natDigits ends false n.natAbs (fun h => Bool.noConfusion h)
    have back : (n.natAbs : Int) = n := by omega
    rw [if_neg Bool.false_ne_true, back] at number
    obtain ⟨c, cs, digits⟩ := List.exists_cons_of_ne_nil (Text.natDigits_ne_nil n.natAbs)
    have digit : Text.isDigit c = true :=
      Text.isDigit_of_mem_natDigits n.natAbs c (digits ▸ List.mem_cons_self)
    rw [written]
    rw [digits, List.cons_append] at number ⊢
    obtain ⟨d, small, rfl⟩ := Text.exists_digitChar_of_isDigit digit
    rw [value?]
    have ink : ∀ d < 10, isSpace (Nat.digitChar d) = false := by decide
    rw [skipSpace_of_head (ink d small)]
    interval_cases d <;> exact number

def isPlain (c : Char) : Bool := c != '"' && c != '\\' && decide (0x20 ≤ c.toNat)

abbrev Plain (name : String) : Prop := name.toList.all isPlain = true

theorem pieces?_plain {cs : List Char} (h : cs.all isPlain = true) (rest : List Char) :
    pieces? (cs ++ '"' :: rest) = some (cs.map .char, rest) := by
  induction cs with
  | nil => simp [pieces?]
  | cons c cs ih =>
    obtain ⟨first, others⟩ := Bool.and_eq_true_iff.mp h
    obtain ⟨⟨quote, escape⟩, control⟩ : (c ≠ '"' ∧ c ≠ '\\') ∧ 0x20 ≤ c.toNat := by
      simpa [isPlain] using first
    have shown : ¬ (c = '\\' ∨ c.toNat < 0x20) := by
      rintro (same | below)
      · exact escape same
      · omega
    rw [List.cons_append, pieces?.eq_def]
    split
    · rename_i none
      cases none
    · rename_i same
      exact absurd (List.cons.inj same).1 quote
    · rename_i same
      exact absurd (List.cons.inj same).1 escape
    · rename_i same
      exact absurd (List.cons.inj same).1 escape
    · rename_i same
      obtain ⟨rfl, rfl⟩ := List.cons.inj same
      rw [if_neg shown, ih others]
      rfl

theorem textOf?_chars (cs : List Char) : textOf? (cs.map .char) = some cs := by
  induction cs with
  | nil => rfl
  | cons c cs ih => simp [textOf?, ih]

theorem string?_plain {name : String} (h : Plain name) (rest : List Char) :
    string? (name.toList ++ '"' :: rest) = some (some name, rest) := by
  simp [string?, pieces?_plain h, textOf?_chars]

structure ReadsMember (t : String × List Char) (m : String × Json) : Prop where
  name : t.1 = m.1
  plain : Plain t.1
  value : Reads t.2 m.2

theorem readsMember_decimal {name : String} (plain : Plain name) (n : Int) :
    ReadsMember (name, Text.decimal n) (name, .integer n) := ⟨rfl, plain, reads_decimal n⟩

def membersText : List (String × List Char) → List Char
  | [] => []
  | [(name, text)] => '"' :: (name.toList ++ '"' :: ':' :: text)
  | (name, text) :: member :: members =>
    '"' :: (name.toList ++ '"' :: ':' :: (text ++ ',' :: membersText (member :: members)))

def objectText (members : List (String × List Char)) : List Char :=
  '\x7b' :: (membersText members ++ ['\x7d'])

theorem length_lt_membersText (name : String) (text : List Char)
    (texts : List (String × List Char)) :
    text.length + 1 < (membersText ((name, text) :: texts)).length := by
  cases texts with
  | nil | cons =>
    simp only [membersText, List.length_cons, List.length_append]
    omega

def afterMember? (fuel : Nat) (before : List (Option String × Json)) :
    List Char → Option (Json × List Char)
  | ',' :: rest => members? fuel before rest
  | '\x7d' :: rest => some (.object before.reverse, rest)
  | _ => none

theorem members?_append {name : String} {text : List Char} {v : Json} (plain : Plain name)
    (reads : Reads text v) {fuel : Nat} (enough : text.length < fuel) (next : List Char)
    (ends : Ends next) (before : List (Option String × Json)) :
    members? (fuel + 1) before ('"' :: (name.toList ++ '"' :: ':' :: (text ++ next)))
      = afterMember? fuel ((some name, v) :: before) (skipSpace next) := by
  rw [members?, skipSpace_of_head (by decide)]
  simp only [string?_plain plain, skipSpace_of_head (show isSpace ':' = false by decide),
    reads fuel next enough ends]
  rfl

theorem members?_membersText {texts : List (String × List Char)} {members : List (String × Json)}
    (nonempty : texts ≠ []) (h : List.Forall₂ ReadsMember texts members) {fuel : Nat}
    (enough : (membersText texts).length < fuel) (rest : List Char)
    (before : List (Option String × Json)) :
    members? fuel before (membersText texts ++ '\x7d' :: rest)
      = some (.object (before.reverse ++ members.map fun m => (some m.1, m.2)), rest) := by
  induction h generalizing fuel before with
  | nil => exact absurd rfl nonempty
  | @cons t m texts members first others ih =>
    obtain ⟨name, text⟩ := t
    obtain ⟨rfl, plain, reads⟩ := first
    obtain ⟨fuel, rfl⟩ : ∃ k, fuel = k + 1 := ⟨fuel - 1, by omega⟩
    have short : text.length < fuel := by
      have := length_lt_membersText m.1 text texts
      omega
    cases texts with
    | nil =>
      cases others
      have read := members?_append plain reads short ('\x7d' :: rest) (by simp [Ends]) before
      rw [skipSpace_of_head (by decide)] at read
      simpa [membersText, afterMember?] using read
    | cons t texts =>
      have later : (membersText (t :: texts)).length < fuel := by
        simp only [membersText, List.length_cons, List.length_append] at enough
        omega
      have read := members?_append plain reads short
        (',' :: (membersText (t :: texts) ++ '\x7d' :: rest)) (by simp [Ends]) before
      rw [skipSpace_of_head (by decide)] at read
      have others := ih (List.cons_ne_nil _ _) later ((some m.1, m.2) :: before)
      have whole := read.trans others
      simpa [membersText] using whole

theorem reads_objectText {texts : List (String × List Char)} {members : List (String × Json)}
    (nonempty : texts ≠ []) (h : List.Forall₂ ReadsMember texts members) :
    Reads (objectText texts) (.object (members.map fun m => (some m.1, m.2))) := by
  intro fuel rest enough _
  obtain ⟨fuel, rfl⟩ : ∃ k, fuel = k + 1 := ⟨fuel - 1, by omega⟩
  have shorter : (membersText texts).length < fuel := by
    simp only [objectText, List.length_cons, List.length_append] at enough
    omega
  have read := members?_membersText nonempty h shorter rest []
  obtain ⟨t, texts, rfl⟩ := List.exists_cons_of_ne_nil nonempty
  have whole : objectText (t :: texts) ++ rest
      = '\x7b' :: (membersText (t :: texts) ++ '\x7d' :: rest) := by simp [objectText]
  obtain ⟨more, begins⟩ : ∃ more, membersText (t :: texts) = '"' :: more := by
    cases texts <;> exact ⟨_, rfl⟩
  rw [whole, value?, skipSpace_of_head (by decide)]
  rw [begins, List.cons_append] at read ⊢
  simp only [skipSpace_of_head (show isSpace '"' = false by decide)]
  exact read

end Json

end TernaryMachine
