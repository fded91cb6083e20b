import Mathlib.Logic.Equiv.Basic
import TernaryMachine.Proofs.StatementGrammar
import TernaryMachine.Proofs.SymbolRenaming

/-!
A name replaced in the text of an operand or a value. An expression has at most one name, at the
beginning of its term, so that one place is looked at: behind the marks that may stand before a
term. What is read of the text with the name replaced is what was read before, with the symbol
renamed; the bare name of the accumulator alone is no symbol.
-/

set_option autoImplicit false
set_option relaxedAutoImplicit false

namespace TernaryMachine.Assembly

def precedesTerm (c : Char) : Bool :=
  Text.isBlank c || c == '#' || c == '(' || c == '<' || c == '>'

section Replace

variable (old new : List Char)

def renameName (name : List Char) : List Char := if name = old then new else name

def renameFront (cs : List Char) : List Char :=
  renameName old new (cs.takeWhile continuesSymbol) ++ cs.dropWhile continuesSymbol

/-- Replaces a name at the beginning of the first term of a text. -/
def renameTerm (cs : List Char) : List Char :=
  cs.takeWhile precedesTerm ++ renameFront old new (cs.dropWhile precedesTerm)

end Replace

def exchange (old new : List Char) : String → String :=
  Equiv.swap (String.ofList old) (String.ofList new)

theorem exchange_injective (old new : List Char) : Function.Injective (exchange old new) :=
  (Equiv.swap _ _).injective

theorem exchange_ofList {old new name : List Char}
    (other : String.ofList name ≠ String.ofList new) :
    exchange old new (String.ofList name) = String.ofList (renameName old new name) := by
  unfold renameName
  split_ifs with same
  · rw [same]
    exact Equiv.swap_apply_left _ _
  · exact Equiv.swap_apply_of_ne_of_ne (fun equal => same (String.ofList_injective equal)) other

/-- A text at whose beginning a name before it ends. -/
def Stops (cs : List Char) : Prop := ∀ c ∈ cs.head?, continuesSymbol c = false

theorem Stops.append {xs ys : List Char} (h : Stops xs) (k : Stops ys) : Stops (xs ++ ys) := by
  cases xs with
  | nil => exact k
  | cons x xs => exact h

theorem continuesSymbol_eq_false_of_isBlank {c : Char} (h : Text.isBlank c = true) :
    continuesSymbol c = false := by
  rw [← Bool.not_eq_true]
  intro continues
  have ink := isInk_of_continuesSymbol continues
  rw [Text.isInk_eq_false_of_isBlank h] at ink
  cases ink

theorem Stops.of_detached {cs : List Char} (h : Text.Detached cs) : Stops cs :=
  fun c member => continuesSymbol_eq_false_of_isBlank (h c member)

section Terms

variable {old new : List Char}

theorem renameFront_append {name rest : List Char} (valid : isSymbol name = true)
    (stop : Stops rest) : renameFront old new (name ++ rest) = renameName old new name ++ rest := by
  have letters : ∀ c ∈ name, continuesSymbol c = true := by
    obtain ⟨c, cs, rfl, begins, continues⟩ := (Grammar.isSymbol_iff name).mp valid
    refine List.forall_mem_cons.mpr ⟨(Grammar.continuesSymbol_iff c).mpr (.inl begins), ?_⟩
    exact fun d member => (Grammar.continuesSymbol_iff d).mpr (continues d member)
  rw [renameFront, List.takeWhile_append_of_pos letters, List.dropWhile_append_of_pos letters]
  cases rest with
  | nil => simp
  | cons c rest => simp [stop c rfl]

theorem renameFront_name {name : List Char} (valid : isSymbol name = true) :
    renameFront old new name = renameName old new name := by
  have none : Stops [] := by simp [Stops]
  have alone : renameFront old new (name ++ []) = renameName old new name ++ [] :=
    renameFront_append valid none
  rwa [List.append_nil, List.append_nil] at alone

theorem isSymbol_renameName (valid : isSymbol new = true) {name : List Char}
    (symbol : isSymbol name = true) : isSymbol (renameName old new name) = true := by
  unfold renameName
  split_ifs
  · exact valid
  · exact symbol

theorem renameFront_of_head (valid : isSymbol old = true) {cs : List Char}
    (other : ∀ c ∈ cs.head?, startsSymbol c = false) : renameFront old new cs = cs := by
  have unlike : cs.takeWhile continuesSymbol ≠ old := by
    rintro rfl
    cases cs with
    | nil => cases valid
    | cons c cs =>
      rw [List.takeWhile_cons] at valid
      split_ifs at valid
      · simp [isSymbol, other c rfl] at valid
      · cases valid
  rw [renameFront, renameName, if_neg unlike, List.takeWhile_append_dropWhile]

theorem precedesTerm_of_mem {cs : List Char} (blank : Text.Blanks cs) :
    ∀ c ∈ cs, precedesTerm c = true :=
  fun c member => by simp [precedesTerm, blank c member]

variable (old new) in
theorem renameTerm_append {front rest : List Char} (precedes : ∀ c ∈ front, precedesTerm c = true)
    (term : ∀ c ∈ rest.head?, precedesTerm c = false) :
    renameTerm old new (front ++ rest) = front ++ renameFront old new rest := by
  rw [renameTerm, List.takeWhile_append_of_pos precedes, List.dropWhile_append_of_pos precedes]
  cases rest with
  | nil => simp
  | cons c rest => simp [term c rfl]

end Terms

/-- A text in which a name is replaced in the same way whatever marks stand before it and whatever
follows it. -/
def InPlace (old new cs : List Char) : Prop :=
  ∀ front rest, (∀ c ∈ front, precedesTerm c = true) → Stops rest →
    renameTerm old new (front ++ (cs ++ rest)) = front ++ (renameTerm old new cs ++ rest)

theorem InPlace.surround {old new cs front rest : List Char} (h : InPlace old new cs)
    (marks : ∀ c ∈ front, precedesTerm c = true) (stop : Stops rest) :
    InPlace old new (front ++ (cs ++ rest)) := by
  intro before after marks' stop'
  have further := h (before ++ front) (rest ++ after)
    (List.forall_mem_append.mpr ⟨marks', marks⟩) (stop.append stop')
  rw [h front rest marks stop]
  simpa only [List.append_assoc] using further

theorem inPlace_of_head {old : List Char} (new : List Char) (valid : isSymbol old = true) {c : Char}
    (cs : List Char) (mark : precedesTerm c = false) (other : startsSymbol c = false) :
    renameTerm old new (c :: cs) = c :: cs ∧ InPlace old new (c :: cs) := by
  have whole (front rest : List Char) (marks : ∀ c ∈ front, precedesTerm c = true) :
      renameTerm old new (front ++ (c :: cs ++ rest)) = front ++ (c :: cs ++ rest) := by
    rw [renameTerm_append old new marks (by rintro _ ⟨⟩; exact mark),
      renameFront_of_head valid (by rintro _ ⟨⟩; exact other)]
  have alone : renameTerm old new (c :: cs) = c :: cs := by
    simpa using whole [] [] (by simp)
  refine ⟨alone, fun front rest marks _ => ?_⟩
  rw [alone]
  exact whole front rest marks

section Grammar

open Grammar

variable {old new : List Char} (valid : isSymbol old = true) (valid' : isSymbol new = true)
include valid valid'

theorem rename_of_denotesTerm {text : List Char} {t : Term} (h : DenotesTerm text t)
    (other : ∀ name offset, t = .symbol name offset → name ≠ String.ofList new) :
    DenotesTerm (renameFront old new text) (t.rename (exchange old new)) ∧ ∀ rest, Stops rest →
      renameFront old new (text ++ rest) = renameFront old new text ++ rest := by
  have number {c : Char} {cs : List Char} {n : Int} (begins : startsSymbol c = false)
      (h : DenotesTerm (c :: cs) (.number n)) :
      DenotesTerm (renameFront old new (c :: cs)) (.number n) ∧ ∀ rest, Stops rest →
        renameFront old new (c :: cs ++ rest) = renameFront old new (c :: cs) ++ rest := by
    have same (rest : List Char) : renameFront old new (c :: cs ++ rest) = c :: cs ++ rest :=
      renameFront_of_head valid (by rintro _ ⟨⟩; exact begins)
    have alone := same []
    rw [List.append_nil] at alone
    rw [alone]
    exact ⟨h, fun rest _ => same rest⟩
  have written := h
  cases h with
  | decimal decimal fits =>
    obtain ⟨c, cs, rfl, head⟩ := head_of_decimal decimal
    refine number ?_ written
    rcases head with rfl | rfl | digit
    · decide
    · decide
    · obtain ⟨k, small, rfl⟩ := Text.exists_digitChar_of_isDigit digit
      interval_cases k <;> decide
  | @numeral r => exact number (by cases r <;> decide) written
  | character => exact number (by decide) written
  | symbol name =>
    have symbol := (isSymbol_iff text).mpr name
    rw [renameFront_name symbol, Term.rename, exchange_ofList (other _ _ rfl)]
    refine ⟨.symbol ((isSymbol_iff _).mp (isSymbol_renameName valid' symbol)), ?_⟩
    exact fun rest stop => renameFront_append symbol stop
  | @offset name distance n symbol decimal fits =>
    have symbol := (isSymbol_iff name).mpr symbol
    have stop : Stops distance := by
      cases decimal <;> rintro _ ⟨⟩ <;> decide
    rw [renameFront_append symbol stop, Term.rename, exchange_ofList (other _ _ rfl)]
    refine ⟨.offset ((isSymbol_iff _).mp (isSymbol_renameName valid' symbol)) decimal fits, ?_⟩
    intro rest stop'
    rw [List.append_assoc, renameFront_append symbol (stop.append stop'), List.append_assoc]

theorem rename_of_denotesExpression {inner : List Char} {e : Expression}
    (h : DenotesExpression inner e) (other : e.symbol? ≠ some (String.ofList new)) :
    DenotesExpression (renameTerm old new inner) (e.rename (exchange old new))
      ∧ InPlace old new inner := by
  obtain ⟨before, text, after, blank, blank', term, rfl⟩ := h
  have named : ∀ name offset, e.term = .symbol name offset → name ≠ String.ofList new := by
    rintro name offset same rfl
    exact other (by rw [Expression.symbol?, same])
  obtain ⟨denotes, follows⟩ := rename_of_denotesTerm valid valid' term named
  obtain ⟨c, cs, head, begins⟩ := (ends_of_denotesTerm term).first
  have starts (rest : List Char) : ∀ c ∈ (text ++ rest).head?, precedesTerm c = false := by
    rw [head]
    rintro _ ⟨⟩
    simp only [beginsTerm, Text.isInk, Bool.and_eq_true, bne_iff_ne, Bool.not_eq_true'] at begins
    simp [precedesTerm, begins]
  have precedes : ∀ c ∈ before ++ selection e.selector, precedesTerm c = true := by
    refine List.forall_mem_append.mpr ⟨precedesTerm_of_mem blank, ?_⟩
    exact List.all_eq_true.mp (by cases e.selector <;> decide)
  -- Read with what stands around it, the text gives both the new expression and its place.
  have whole (front rest : List Char) (marks : ∀ c ∈ front, precedesTerm c = true)
      (stop : Stops rest) :
      renameTerm old new (front ++ (before ++ (selection e.selector ++ text) ++ after ++ rest))
        = front
          ++ (before ++ (selection e.selector ++ renameFront old new text) ++ after ++ rest) := by
    have split := renameTerm_append old new
      (List.forall_mem_append.mpr ⟨marks, precedes⟩) (starts (after ++ rest))
    rw [follows _ ((Stops.of_detached blank'.detached).append stop)] at split
    simpa only [List.append_assoc] using split
  have none : Stops [] := by simp [Stops]
  have alone := whole [] [] (List.forall_mem_nil _) none
  simp only [List.nil_append, List.append_nil] at alone
  refine ⟨?_, fun front rest marks stop => ?_⟩
  · rw [alone]
    exact ⟨before, _, after, blank, blank', denotes, rfl⟩
  · rw [alone]
    exact whole front rest marks stop

end Grammar

/-- The text around the expression of an operand. The form does not depend on the expression, but
for the one text that is no expression. -/
theorem exists_frame {cs inner : List Char} {mode : AddressMode}
    (form : Grammar.Form cs mode inner) : ∃ front rest, (∀ c ∈ front, precedesTerm c = true)
      ∧ Stops rest ∧ cs = front ++ (inner ++ rest) ∧ ∀ inner', (cs = inner → inner' ≠ ['A']) →
        Grammar.Form (front ++ (inner' ++ rest)) mode inner' := by
  have precede (cs : List Char) (all : cs.all precedesTerm = true) :
      ∀ c ∈ cs, precedesTerm c = true :=
    List.all_eq_true.mp all
  have stops (c : Char) (rest : List Char) (other : continuesSymbol c = false) :
      Stops (c :: rest) := by
    rintro _ ⟨⟩
    exact other
  cases form with
  | immediate cs =>
    refine ⟨['#'], [], precede _ (by decide), by simp [Stops], by simp, fun inner' _ => ?_⟩
    simpa using Grammar.Form.immediate inner'
  | indirect cs =>
    exact ⟨['('], [')'], precede _ (by decide), stops _ _ (by decide), rfl,
      fun inner' _ => .indirect inner'⟩
  | indexedXIndirect index cs =>
    exact ⟨['('], [',', _, ')'], precede _ (by decide), stops _ _ (by decide), rfl,
      fun inner' _ => .indexedXIndirect index inner'⟩
  | indirectIndexedY index cs =>
    exact ⟨['('], [')', ',', _], precede _ (by decide), stops _ _ (by decide), rfl,
      fun inner' _ => .indirectIndexedY index inner'⟩
  | absoluteX index cs =>
    exact ⟨[], [',', _], by simp, stops _ _ (by decide), rfl,
      fun inner' _ => .absoluteX index inner'⟩
  | absoluteY index cs =>
    exact ⟨[], [',', _], by simp, stops _ _ (by decide), rfl,
      fun inner' _ => .absoluteY index inner'⟩
  | absolute =>
    refine ⟨[], [], by simp, by simp [Stops], by simp, fun inner' other => ?_⟩
    simpa using Grammar.Form.absolute (other rfl)

private theorem solid_replace {xs ys ys' zs : List Char} (solid : Text.Solid (xs ++ (ys ++ zs)))
    (nonempty : ys' ≠ []) (ink : Text.Inked ys') : Text.Solid (xs ++ (ys' ++ zs)) := by
  constructor
  · intro c member
    cases xs with
    | nil =>
      rw [List.nil_append, List.head?_append_of_ne_nil _ nonempty] at member
      exact ink c (List.mem_of_head? member)
    | cons x xs => exact solid.first c member
  · intro c member
    rcases List.eq_nil_or_concat zs with rfl | ⟨zs, z, rfl⟩
    · rw [List.append_nil, List.getLast?_append_of_ne_nil _ nonempty] at member
      exact ink c (List.mem_of_getLast? member)
    · refine solid.last c ?_
      simpa using member

theorem exists_renamed (old new cs : List Char) : ∃ front name rest,
    (∀ c ∈ front, precedesTerm c = true) ∧ cs = front ++ (name ++ rest)
      ∧ renameTerm old new cs = front ++ (renameName old new name ++ rest) := by
  refine ⟨cs.takeWhile precedesTerm, _, _, fun c member => List.mem_takeWhile_imp member, ?_, rfl⟩
  rw [List.takeWhile_append_dropWhile, List.takeWhile_append_dropWhile]

section Operands

variable {old new : List Char} (valid : isSymbol new = true)
include valid

theorem solid_renameTerm {cs : List Char} (solid : Text.Solid cs) :
    Text.Solid (renameTerm old new cs) := by
  obtain ⟨front, name, rest, -, whole, renamed⟩ := exists_renamed old new cs
  rw [whole] at solid
  rw [renamed]
  unfold renameName
  split_ifs
  · exact solid_replace solid (ne_nil_of_isWord (isWord_of_isSymbol valid))
      (inked_of_isWord (isWord_of_isSymbol valid))
  · exact solid

theorem inked_renameTerm {cs : List Char} (ink : Text.Inked cs) :
    Text.Inked (renameTerm old new cs) := by
  obtain ⟨front, name, rest, -, whole, renamed⟩ := exists_renamed old new cs
  rw [whole] at ink
  obtain ⟨first, ink⟩ := List.forall_mem_append.mp ink
  obtain ⟨second, third⟩ := List.forall_mem_append.mp ink
  rw [renamed]
  refine List.forall_mem_append.mpr ⟨first, List.forall_mem_append.mpr ⟨?_, third⟩⟩
  unfold renameName
  split_ifs
  · exact inked_of_isWord (isWord_of_isSymbol valid)
  · exact second

theorem renameTerm_ne_nil {cs : List Char} (nonempty : cs ≠ []) : renameTerm old new cs ≠ [] := by
  obtain ⟨front, name, rest, -, whole, renamed⟩ := exists_renamed old new cs
  rw [renamed]
  unfold renameName
  split_ifs
  · have filled := ne_nil_of_isWord (isWord_of_isSymbol valid)
    exact List.append_ne_nil_of_right_ne_nil _ (List.append_ne_nil_of_left_ne_nil filled _)
  · rwa [← whole]

theorem renameTerm_ne_accumulator {cs : List Char} (other : cs ≠ ['A'])
    (unlike : cs = old → new ≠ ['A']) : renameTerm old new cs ≠ ['A'] := by
  obtain ⟨front, name, rest, marks, rfl, renamed⟩ := exists_renamed old new cs
  rw [renamed]
  unfold renameName
  split_ifs with same
  · intro bare
    cases front with
    | cons c front =>
      obtain ⟨rfl, -⟩ := List.cons.inj bare
      exact absurd (marks 'A' List.mem_cons_self) (by decide)
    | nil =>
      change new ++ rest = ['A'] at bare
      rcases List.append_eq_singleton_iff.mp bare with ⟨none, -⟩ | ⟨only, rfl⟩
      · exact ne_nil_of_isWord (isWord_of_isSymbol valid) none
      · exact unlike (by simpa using same) only
  · exact other

end Operands

def Operand.rename (f : String → String) (o : Operand) : Operand :=
  ⟨o.mode, o.expression?.map (Expression.rename f)⟩

section Reading

variable {old new : List Char} (valid : isSymbol old = true) (valid' : isSymbol new = true)
include valid valid'

theorem rename_of_parseOperand {cs : List Char} {o : Operand} (solid : Text.Solid cs)
    (read : Operand.parse cs = .ok o)
    (fresh : ∀ e ∈ o.expression?, e.symbol? ≠ some (String.ofList new)) (other : cs ≠ ['A'])
    (unlike : cs = old → new ≠ ['A']) :
    Operand.parse (renameTerm old new cs) = .ok (o.rename (exchange old new))
      ∧ InPlace old new cs := by
  cases Grammar.denotes_of_parse solid read with
  | accumulator => exact absurd rfl other
  | @expression _ inner mode e form denotes =>
    obtain ⟨denotes', follows⟩ := rename_of_denotesExpression valid valid' denotes (fresh e rfl)
    obtain ⟨front, rest, marks, stop, whole, form'⟩ := exists_frame form
    have renamed : renameTerm old new cs = front ++ (renameTerm old new inner ++ rest) := by
      rw [whole, follows front rest marks stop]
    constructor
    · refine Grammar.parse_of_form (solid_renameTerm valid' solid) ?_ denotes'
      rw [renamed]
      refine form' _ fun same => ?_
      rw [← same]
      exact renameTerm_ne_accumulator valid' other unlike
    · rw [whole]
      exact follows.surround marks stop

end Reading

end TernaryMachine.Assembly
