import Mathlib.Data.List.TakeWhile
import TernaryMachine.Assembly.Operand
import TernaryMachine.Proofs.SourceText
import TernaryMachine.Proofs.TermGrammar

/-!
The grammar of operands. An operand is read exactly if it is the bare name of the accumulator or has
one of seven forms around an expression, and what is read is what the form and the expression
denote. The reader looks at the first character and the last three before it reads the expression.
This finds the form, because an expression begins with no mark of a form and has no comma but as the
character of a literal, where it stands last.
-/

set_option autoImplicit false
set_option relaxedAutoImplicit false

namespace TernaryMachine

namespace Text

def Blanks (cs : List Char) : Prop := ∀ c ∈ cs, isBlank c = true

structure Solid (cs : List Char) : Prop where
  first : ∀ c ∈ cs.head?, isInk c = true
  last : ∀ c ∈ cs.getLast?, isInk c = true

private theorem trimStart_surrounded {before : List Char} (blanks : Blanks before)
    (cs : List Char) : trimStart (before ++ cs) = trimStart cs :=
  List.dropWhile_append_of_pos blanks

private theorem exists_trimStart (cs : List Char) :
    ∃ before, Blanks before ∧ cs = before ++ trimStart cs := by
  refine ⟨cs.takeWhile isBlank, ?_, List.takeWhile_append_dropWhile.symm⟩
  intro c member
  exact List.mem_takeWhile_imp member

private theorem head_trimStart (cs : List Char) : ∀ c ∈ (trimStart cs).head?, isInk c = true := by
  intro c member
  have stop := List.head?_dropWhile_not isBlank cs
  rw [trimStart] at member
  rw [Option.mem_def.mp member] at stop
  simpa [isInk] using stop

theorem exists_trim (cs : List Char) : ∃ before after, Blanks before ∧ Blanks after
    ∧ cs = before ++ trim cs ++ after ∧ Solid (trim cs) := by
  obtain ⟨before, blank, front⟩ := exists_trimStart cs
  obtain ⟨behind, blank', back⟩ := exists_trimStart (trimStart cs).reverse
  have rest : trimStart cs = trim cs ++ behind.reverse := by
    rw [trim, trimEnd, ← List.reverse_append, ← back, List.reverse_reverse]
  have first := head_trimStart cs
  have last := head_trimStart (trimStart cs).reverse
  refine ⟨before, behind.reverse, blank, fun c h => blank' c (List.mem_reverse.mp h), ?_, ?_, ?_⟩
  · rw [List.append_assoc, ← rest]
    exact front
  · intro c member
    apply first
    rw [rest, List.head?_append, Option.mem_def.mp member]
    rfl
  · intro c member
    rw [trim, trimEnd, List.getLast?_reverse] at member
    exact last c member

theorem trim_surrounded {before text after : List Char} (blank : Blanks before)
    (blank' : Blanks after) (nonempty : text ≠ []) (solid : Solid text) :
    trim (before ++ text ++ after) = text := by
  obtain ⟨c, cs, rfl⟩ := List.exists_cons_of_ne_nil nonempty
  have ink : isBlank c = false := isBlank_eq_false_of_isInk (solid.first c rfl)
  have front : trimStart (before ++ (c :: cs) ++ after) = c :: cs ++ after := by
    rw [List.append_assoc, trimStart_surrounded blank]
    exact List.dropWhile_cons_of_neg (by simp [ink])
  have back : trimEnd (c :: cs ++ after) = trimEnd (c :: cs) := by
    rw [trimEnd, List.reverse_append, trimStart_surrounded]
    · rfl
    · exact fun c h => blank' c (List.mem_reverse.mp h)
  have whole : trim (c :: cs) = c :: cs := trim_of_ink solid.first solid.last
  rw [trim, trimStart, List.dropWhile_cons_of_neg (by simp [ink])] at whole
  rw [trim, front, back, whole]

end Text

namespace Assembly

namespace Grammar

def selection : Selector → List Char
  | .full => []
  | .low => ['<']
  | .high => ['>']

/-- A term after its selector, with any blanks around the two. -/
def DenotesExpression (cs : List Char) (e : Expression) : Prop :=
  ∃ before text after, Text.Blanks before ∧ Text.Blanks after ∧ DenotesTerm text e.term
    ∧ cs = before ++ (selection e.selector ++ text) ++ after

/-- The forms of an operand with an expression: the whole text, the addressing mode that it means
and the text of its expression. -/
inductive Form : List Char → AddressMode → List Char → Prop
  | immediate (cs : List Char) : Form ('#' :: cs) .immediate cs
  | indirect (cs : List Char) : Form ('(' :: (cs ++ [')'])) .indirect cs
  | indexedXIndirect {x : Char} (index : x = 'X' ∨ x = 'x') (cs : List Char) :
    Form ('(' :: (cs ++ [',', x, ')'])) .indexedXIndirect cs
  | indirectIndexedY {y : Char} (index : y = 'Y' ∨ y = 'y') (cs : List Char) :
    Form ('(' :: (cs ++ [')', ',', y])) .indirectIndexedY cs
  | absoluteX {x : Char} (index : x = 'X' ∨ x = 'x') (cs : List Char) :
    Form (cs ++ [',', x]) .absoluteX cs
  | absoluteY {y : Char} (index : y = 'Y' ∨ y = 'y') (cs : List Char) :
    Form (cs ++ [',', y]) .absoluteY cs
  | absolute {cs : List Char} (other : cs ≠ ['A']) : Form cs .absolute cs

inductive Denotes : List Char → Operand → Prop
  | accumulator : Denotes ['A'] ⟨.accumulator, none⟩
  | expression {cs inner : List Char} {mode : AddressMode} {e : Expression}
    (form : Form cs mode inner) (denotes : DenotesExpression inner e) :
    Denotes cs ⟨mode, some e⟩

/-- What a term may begin with. None of these characters is a blank, a selector or the mark of an
addressing mode. -/
def beginsTerm (c : Char) : Bool :=
  Text.isInk c && c != '<' && c != '>' && c != '#' && c != '('

private theorem beginsTerm_of_isDigit {c : Char} (h : Text.isDigit c = true) :
    beginsTerm c = true ∧ c ≠ ',' := by
  obtain ⟨k, small, rfl⟩ := Text.exists_digitChar_of_isDigit h
  interval_cases k <;> decide

theorem beginsTerm_of_continuesName {c : Char} (h : ContinuesName c) :
    beginsTerm c = true ∧ c ≠ ',' := by
  have letter := (continuesSymbol_iff c).mpr h
  have other {b : Char} (no : continuesSymbol b = false) : c ≠ b := by
    rintro rfl
    rw [no] at letter
    contradiction
  have ink : Text.isInk c = true := by
    simp only [ContinuesName, BeginsName, Char.le_def, UInt32.le_iff_toNat_le] at h
    have range : (65 ≤ c.toNat ∧ c.toNat ≤ 90 ∨ 97 ≤ c.toNat ∧ c.toNat ≤ 122 ∨ c = '_')
      ∨ 48 ≤ c.toNat ∧ c.toNat ≤ 57 ∨ c = '.' := h
    by_cases special : c = '_' ∨ c = '.'
    · rcases special with rfl | rfl <;> decide
    · simp only [(not_or.mp special).1, (not_or.mp special).2, or_false] at range
      exact isInk_of_code (by omega)
  refine ⟨?_, other (by decide)⟩
  simp only [beginsTerm, ink, Bool.true_and, Bool.and_eq_true, bne_iff_ne]
  exact ⟨⟨⟨other (by decide), other (by decide)⟩, other (by decide)⟩, other (by decide)⟩

private theorem beginsTerm_of_decimal {cs : List Char} {n : Int} (h : Decimal cs n) :
    ∀ c ∈ cs, beginsTerm c = true ∧ c ≠ ',' := by
  have digits {cs : List Char} {n : Int} (number : Numeral 10 DecimalDigit cs n) :
      ∀ c ∈ cs, beginsTerm c = true ∧ c ≠ ',' :=
    fun c member => beginsTerm_of_isDigit (isDigit_of_numeral number c member)
  rcases h with number | ⟨number⟩ | ⟨number⟩
  · exact digits number
  · exact List.forall_mem_cons.mpr ⟨by decide, digits number⟩
  · exact List.forall_mem_cons.mpr ⟨by decide, digits number⟩

private theorem beginsTerm_of_name {cs : List Char} (h : Name cs) :
    ∀ c ∈ cs, beginsTerm c = true ∧ c ≠ ',' := by
  obtain ⟨c, rest, rfl, begins, continues⟩ := h
  exact List.forall_mem_cons.mpr ⟨beginsTerm_of_continuesName (.inl begins),
    fun c member => beginsTerm_of_continuesName (continues c member)⟩

private theorem ink_of_numeral {r : Radix} {cs : List Char} {n : Int}
    (h : Numeral r.base (fun c d => r.digit? c = some d) cs n) :
    ∀ c ∈ cs, Text.isInk c = true ∧ c ≠ ',' := by
  obtain ⟨-, ds, digits, -⟩ := h
  induction digits with
  | nil => simp
  | cons digit _ ih => exact List.forall_mem_cons.mpr ⟨(digit_spec digit).2, ih⟩

/-- The ends of a term. It has no comma but as the character of a literal, and does not end in a
blank. -/
structure Ends (cs : List Char) : Prop where
  first : ∃ c rest, cs = c :: rest ∧ beginsTerm c = true
  last : ∃ front c, cs = front ++ [c] ∧ Text.isInk c = true ∧ front.getLast? ≠ some ','

private theorem ends_of_plain {c : Char} {rest : List Char} (begins : beginsTerm c = true)
    (plain : ∀ b ∈ c :: rest, Text.isInk b = true ∧ b ≠ ',') : Ends (c :: rest) := by
  refine ⟨⟨c, rest, rfl, begins⟩, ?_⟩
  obtain ⟨front, b, same⟩ :=
    List.eq_nil_or_concat (c :: rest) |>.resolve_left (List.cons_ne_nil c rest)
  rw [List.concat_eq_append] at same
  rw [same] at plain ⊢
  refine ⟨front, b, rfl, (plain b (by simp)).1, ?_⟩
  intro comma
  exact (plain ',' (List.mem_append_left _ (List.mem_of_getLast? comma))).2 rfl

theorem ends_of_denotesTerm {cs : List Char} {t : Term} (h : DenotesTerm cs t) :
    Ends cs := by
  have plain {cs : List Char} (nonempty : cs ≠ []) (h : ∀ c ∈ cs, beginsTerm c = true ∧ c ≠ ',') :
      Ends cs := by
    obtain ⟨c, rest, rfl⟩ := List.exists_cons_of_ne_nil nonempty
    refine ends_of_plain (h c List.mem_cons_self).1 fun b member => ⟨?_, (h b member).2⟩
    have begins := (h b member).1
    simp only [beginsTerm, Bool.and_eq_true] at begins
    exact begins.1.1.1.1
  have name_ne_nil {cs : List Char} (name : Name cs) : cs ≠ [] := by
    obtain ⟨_, _, rfl, -⟩ := name
    exact List.cons_ne_nil _ _
  cases h with
  | decimal number _ =>
    obtain ⟨_, _, rfl, -⟩ := head_of_decimal number
    exact plain (List.cons_ne_nil _ _) (beginsTerm_of_decimal number)
  | @numeral r cs n digits _ =>
    have marked : Text.isInk (mark r) = true ∧ mark r ≠ ',' := by cases r <;> decide
    exact ends_of_plain (by cases r <;> decide)
      (List.forall_mem_cons.mpr ⟨marked, ink_of_numeral digits⟩)
  | character literal _ =>
    refine ⟨⟨_, _, rfl, by decide⟩, ?_⟩
    cases literal with
    | plain ink _ => exact ⟨['\x27'], _, rfl, ink, by decide⟩
    | newline => exact ⟨['\x27', '\\'], 'n', rfl, by decide, by decide⟩
    | tab => exact ⟨['\x27', '\\'], 't', rfl, by decide, by decide⟩
    | null => exact ⟨['\x27', '\\'], '0', rfl, by decide, by decide⟩
    | backslash => exact ⟨['\x27', '\\'], '\\', rfl, by decide, by decide⟩
    | apostrophe => exact ⟨['\x27', '\\'], '\x27', rfl, by decide, by decide⟩
    | quote => exact ⟨['\x27', '\\'], '"', rfl, by decide, by decide⟩
  | symbol name => exact plain (name_ne_nil name) (beginsTerm_of_name name)
  | @offset name distance n symbol decimal _ =>
    refine plain (List.append_ne_nil_of_left_ne_nil (name_ne_nil symbol) _) ?_
    exact List.forall_mem_append.mpr
      ⟨beginsTerm_of_name symbol, beginsTerm_of_decimal (.inr decimal)⟩

theorem isInk_of_denotesTerm {cs : List Char} {t : Term} (h : DenotesTerm cs t) :
    ∀ c ∈ cs, Text.isInk c = true := by
  have plain {cs : List Char} (h : ∀ c ∈ cs, beginsTerm c = true ∧ c ≠ ',') :
      ∀ c ∈ cs, Text.isInk c = true := by
    intro c member
    have begins := (h c member).1
    simp only [beginsTerm, Bool.and_eq_true] at begins
    exact begins.1.1.1.1
  cases h with
  | decimal number _ => exact plain (beginsTerm_of_decimal number)
  | @numeral r cs n digits _ =>
    have marked : Text.isInk (mark r) = true := by cases r <;> decide
    exact List.forall_mem_cons.mpr ⟨marked, fun c member => (ink_of_numeral digits c member).1⟩
  | character literal _ =>
    refine List.forall_mem_cons.mpr ⟨by decide, ?_⟩
    cases literal with
    | plain ink _ => exact List.forall_mem_singleton.mpr ink
    | _ => simp [Text.isInk, Text.isBlank]
  | symbol name => exact plain (beginsTerm_of_name name)
  | offset symbol decimal _ =>
    exact plain (List.forall_mem_append.mpr
      ⟨beginsTerm_of_name symbol, beginsTerm_of_decimal (.inr decimal)⟩)

theorem solid_of_ends {text : List Char} (ends : Ends text) (s : Selector) :
    Text.Solid (selection s ++ text) := by
  obtain ⟨⟨c, rest, front, begins⟩, ⟨init, d, back, ink, -⟩⟩ := ends
  simp only [beginsTerm, Bool.and_eq_true] at begins
  constructor
  · rw [front]
    cases s
    · rintro _ ⟨⟩
      exact begins.1.1.1.1
    · rintro _ ⟨⟩
      decide
    · rintro _ ⟨⟩
      decide
  · rw [back, ← List.append_assoc, List.getLast?_concat]
    rintro _ ⟨⟩
    exact ink

theorem parseExpression_eq_ok_iff (cs : List Char) (e : Expression) :
    Expression.parse cs = .ok e ↔ DenotesExpression cs e := by
  constructor
  · intro read
    obtain ⟨before, after, blank, blank', whole, solid⟩ := Text.exists_trim cs
    have last := solid.last
    unfold Expression.parse at read
    split at read
    · contradiction
    · rename_i rest same
      rw [same] at whole last
      obtain ⟨t, term, rfl⟩ := map_eq_ok_iff.mp read
      exact ⟨before, rest, after, blank, blank',
        (readTerm_eq_ok_iff (last_of_cons last) t).mp term, whole⟩
    · rename_i rest same
      rw [same] at whole last
      obtain ⟨t, term, rfl⟩ := map_eq_ok_iff.mp read
      exact ⟨before, rest, after, blank, blank',
        (readTerm_eq_ok_iff (last_of_cons last) t).mp term, whole⟩
    · obtain ⟨t, term, rfl⟩ := map_eq_ok_iff.mp read
      exact ⟨before, Text.trim cs, after, blank, blank', (readTerm_eq_ok_iff last t).mp term, whole⟩
  · obtain ⟨s, t⟩ := e
    rintro ⟨before, text, after, blank, blank', term, rfl⟩
    have ends := ends_of_denotesTerm term
    have solid := solid_of_ends ends s
    obtain ⟨c, rest, rfl, begins⟩ := ends.first
    have trimmed := Text.trim_surrounded blank blank' (by simp) solid
    have read := fun last => (readTerm_eq_ok_iff last t).mpr term
    unfold Expression.parse
    rw [trimmed]
    cases s with
    | full =>
      simp only [beginsTerm, Bool.and_eq_true, bne_iff_ne] at begins
      simp only [selection, List.nil_append] at solid ⊢
      split
      · contradiction
      · exact absurd (List.cons.inj ‹_›).1 begins.1.1.1.2
      · exact absurd (List.cons.inj ‹_›).1 begins.1.1.2
      · rw [read solid.last]
        rfl
    | low =>
      simp only [selection, List.cons_append, List.nil_append, read (last_of_cons solid.last)]
      rfl
    | high =>
      simp only [selection, List.cons_append, List.nil_append, read (last_of_cons solid.last)]
      rfl

private theorem ne_nil_of_denotesExpression {cs : List Char} {e : Expression}
    (h : DenotesExpression cs e) : cs ≠ [] := by
  obtain ⟨before, text, after, -, -, term, rfl⟩ := h
  obtain ⟨c, rest, rfl, -⟩ := (ends_of_denotesTerm term).first
  simp

private theorem head_of_denotesExpression {c : Char} {cs : List Char} {e : Expression}
    (h : DenotesExpression (c :: cs) e) (ink : Text.isInk c = true) : c ≠ '#' ∧ c ≠ '(' := by
  obtain ⟨before, text, after, blank, -, term, whole⟩ := h
  obtain ⟨d, rest, rfl, begins⟩ := (ends_of_denotesTerm term).first
  cases before with
  | cons b before =>
    obtain ⟨rfl, -⟩ := List.cons.inj whole
    simp [Text.isInk, blank c List.mem_cons_self] at ink
  | nil =>
    cases selector : e.selector with
    | full =>
      rw [selector] at whole
      obtain ⟨rfl, -⟩ := List.cons.inj whole
      simp only [beginsTerm, Bool.and_eq_true, bne_iff_ne] at begins
      exact ⟨begins.1.2, begins.2⟩
    | low =>
      rw [selector] at whole
      obtain ⟨rfl, -⟩ := List.cons.inj whole
      decide
    | high =>
      rw [selector] at whole
      obtain ⟨rfl, -⟩ := List.cons.inj whole
      decide

private theorem ne_index_of_denotesExpression {cs front : List Char} {x : Char} {e : Expression}
    (h : DenotesExpression cs e) (ink : Text.isInk x = true) : cs ≠ front ++ [',', x] := by
  rintro rfl
  obtain ⟨before, text, after, blank, blank', term, whole⟩ := h
  obtain ⟨init, d, rfl, -, comma⟩ := (ends_of_denotesTerm term).last
  have split : front ++ [',', x] = (front ++ [',']) ++ [x] := by simp
  rcases List.eq_nil_or_concat after with rfl | ⟨others, b, rfl⟩
  · have pieces : before ++ (selection e.selector ++ (init ++ [d])) ++ []
        = (before ++ (selection e.selector ++ init)) ++ [d] := by simp
    rw [split, pieces] at whole
    have last := congrArg List.getLast? (List.append_inj' whole rfl).1
    rw [List.getLast?_concat, List.getLast?_append, List.getLast?_append] at last
    cases inner : init.getLast? with
    | some c =>
      rw [inner] at last comma
      exact comma last.symm
    | none =>
      rw [inner] at last
      cases selector : e.selector with
      | full =>
        rw [selector] at last
        exact absurd (blank ',' (List.mem_of_getLast? last.symm)) (by decide)
      | low =>
        rw [selector] at last
        exact absurd last (by simp [selection])
      | high =>
        rw [selector] at last
        exact absurd last (by simp [selection])
  · rw [List.concat_eq_append, split, ← List.append_assoc] at whole
    obtain ⟨rfl⟩ := (List.cons.inj (List.append_inj' whole rfl).2).1
    simp [Text.isInk, blank' x (by simp)] at ink

private theorem toUpper_spec (c : Char) : (c.toUpper = ')' ↔ c = ')') ∧ (c.toUpper = ',' ↔ c = ',')
    ∧ (c.toUpper = 'X' ↔ c = 'X' ∨ c = 'x') ∧ (c.toUpper = 'Y' ↔ c = 'Y' ∨ c = 'y') := by
  by_cases lower : 97 ≤ c.toNat ∧ c.toNat ≤ 122
  · obtain ⟨lower, upper⟩ := lower
    rw [← Char.ofNat_toNat c]
    generalize c.toNat = n at lower upper ⊢
    interval_cases n <;> decide
  · have same : c.toUpper = c := by
      unfold Char.toUpper
      rw [dif_neg]
      exact lower
    have x : c ≠ 'x' := by
      rintro rfl
      exact lower (by decide)
    have y : c ≠ 'y' := by
      rintro rfl
      exact lower (by decide)
    simp [same, x, y]

private theorem before?_eq_some_iff (ending : Char × Char × Char) (cs inner : List Char) :
    Operand.before? ending cs = some inner ↔ ∃ a b c, cs = inner ++ [a, b, c]
      ∧ (a.toUpper, b.toUpper, c.toUpper) = ending := by
  have turned (a b c : Char) (rest : List Char) :
      cs.reverse = c :: b :: a :: rest ↔ cs = rest.reverse ++ [a, b, c] := by
    rw [List.reverse_eq_iff]
    simp
  unfold Operand.before?
  split
  · rename_i c b a rest same
    have whole := (turned a b c rest).mp same
    constructor
    · intro found
      split at found
      · rename_i same
        cases found
        exact ⟨a, b, c, whole, same⟩
      · contradiction
    · rintro ⟨a', b', c', whole', same⟩
      obtain ⟨rfl, ends⟩ := List.append_inj' (whole.symm.trans whole') rfl
      cases ends
      rw [if_pos same]
  · rename_i short
    simp only [reduceCtorEq, false_iff]
    rintro ⟨a, b, c, rfl, -⟩
    exact short c b a inner.reverse (by simp)

private theorem form_of_split {cs inner : List Char} {mode : AddressMode}
    (other : cs ≠ ['A']) (h : Operand.split cs = some (mode, inner)) : Form cs mode inner := by
  unfold Operand.split at h
  split at h
  · cases h
    exact .immediate _
  · unfold Operand.splitParenthesised at h
    split at h
    · rename_i found
      cases h
      obtain ⟨a, b, c, rfl, same⟩ := (before?_eq_some_iff _ _ _).mp found
      simp only [Prod.mk.injEq, toUpper_spec] at same
      obtain ⟨rfl, rfl, index⟩ := same
      exact .indirectIndexedY index _
    · split at h
      · rename_i found
        cases h
        obtain ⟨a, b, c, rfl, same⟩ := (before?_eq_some_iff _ _ _).mp found
        simp only [Prod.mk.injEq, toUpper_spec] at same
        obtain ⟨rfl, index, rfl⟩ := same
        exact .indexedXIndirect index _
      · split at h
        · rename_i inner same
          cases h
          rw [List.reverse_eq_iff] at same
          rw [same, List.reverse_cons]
          exact .indirect _
        · contradiction
  · simp only [Option.some.injEq, Operand.splitIndex] at h
    split at h
    · rename_i c inner same
      rw [List.reverse_eq_iff] at same
      have whole : cs = inner.reverse ++ [',', c] := by simp [same]
      split at h
      · rename_i index
        cases h
        rw [whole]
        exact .absoluteX index _
      · split at h
        · rename_i index
          cases h
          rw [whole]
          exact .absoluteY index _
        · cases h
          exact .absolute other
    · cases h
      exact .absolute other

private theorem split_of_head {c : Char} (h : c ≠ '#' ∧ c ≠ '(') (rest : List Char) :
    Operand.split (c :: rest) = some (Operand.splitIndex (c :: rest)) := by
  unfold Operand.split
  split
  · exact absurd (List.cons.inj ‹_›).1 h.1
  · exact absurd (List.cons.inj ‹_›).1 h.2
  · rfl

private theorem before?_of_parenthesis (a b : Char) (cs : List Char) :
    Operand.before? (a, b, 'Y') (cs ++ [')']) = none := by
  cases found : Operand.before? (a, b, 'Y') (cs ++ [')']) with
  | none => rfl
  | some inner =>
    obtain ⟨a', b', c', whole, same⟩ := (before?_eq_some_iff _ _ _).mp found
    have pieces : inner ++ [a', b', c'] = inner ++ [a', b'] ++ [c'] := by simp
    rw [pieces] at whole
    obtain ⟨rfl⟩ := (List.cons.inj (List.append_inj' whole rfl).2).1
    simp only [Prod.mk.injEq] at same
    exact absurd same.2.2 (by decide)

private theorem ink_of_index {x upper lower : Char} (index : x = upper ∨ x = lower)
    (letters : Text.isInk upper = true ∧ Text.isInk lower = true) : Text.isInk x = true := by
  rcases index with rfl | rfl
  · exact letters.1
  · exact letters.2

private theorem before?_of_denotesExpression {cs : List Char} {e : Expression}
    (expression : DenotesExpression cs e) :
    Operand.before? (',', 'X', ')') (cs ++ [')']) = none := by
  cases found : Operand.before? (',', 'X', ')') (cs ++ [')']) with
  | none => rfl
  | some front =>
    obtain ⟨a, x, c, whole, same⟩ := (before?_eq_some_iff _ _ _).mp found
    simp only [Prod.mk.injEq, toUpper_spec] at same
    obtain ⟨rfl, index, rfl⟩ := same
    have pieces : front ++ [',', x, ')'] = front ++ [',', x] ++ [')'] := by simp
    rw [pieces] at whole
    exact absurd (List.append_inj' whole rfl).1
      (ne_index_of_denotesExpression expression (ink_of_index index (by decide)))

private theorem splitIndex_of_denotesExpression {cs : List Char} {e : Expression}
    (expression : DenotesExpression cs e) : Operand.splitIndex cs = (.absolute, cs) := by
  have unindexed {upper lower x : Char} {rest : List Char} (index : x = upper ∨ x = lower)
      (letters : Text.isInk upper = true ∧ Text.isInk lower = true) :
      cs.reverse ≠ x :: ',' :: rest := by
    intro ends
    have whole : cs = rest.reverse ++ [',', x] := by
      rw [List.reverse_eq_iff.mp ends]
      simp
    exact ne_index_of_denotesExpression expression (ink_of_index index letters) whole
  unfold Operand.splitIndex
  split
  · rename_i ends
    split
    · rename_i index
      exact absurd ends (unindexed index (by decide))
    · split
      · rename_i index
        exact absurd ends (unindexed index (by decide))
      · rfl
  · rfl

private theorem split_of_form {cs inner : List Char} {mode : AddressMode} {e : Expression}
    (form : Form cs mode inner) (expression : DenotesExpression inner e)
    (first : ∀ c ∈ cs.head?, Text.isInk c = true) : Operand.split cs = some (mode, inner) := by
  have bare (rest : List Char) (ink : ∀ c ∈ (inner ++ rest).head?, Text.isInk c = true) :
      Operand.split (inner ++ rest) = some (Operand.splitIndex (inner ++ rest)) := by
    obtain ⟨c, others, rfl⟩ := List.exists_cons_of_ne_nil (ne_nil_of_denotesExpression expression)
    exact split_of_head (head_of_denotesExpression expression (ink c rfl)) (others ++ rest)
  cases form with
  | immediate => rfl
  | indirect =>
    have second := before?_of_denotesExpression expression
    simp [Operand.split, Operand.splitParenthesised, before?_of_parenthesis, second]
  | @indexedXIndirect x index =>
    have pieces : inner ++ [',', x, ')'] = inner ++ [',', x] ++ [')'] := by simp
    have first : Operand.before? (')', ',', 'Y') (inner ++ [',', x, ')']) = none := by
      rw [pieces, before?_of_parenthesis]
    have second : Operand.before? (',', 'X', ')') (inner ++ [',', x, ')']) = some inner := by
      rw [before?_eq_some_iff]
      refine ⟨',', x, ')', rfl, ?_⟩
      simpa [toUpper_spec] using index
    simp [Operand.split, Operand.splitParenthesised, first, second]
  | @indirectIndexedY y index =>
    have first : Operand.before? (')', ',', 'Y') (inner ++ [')', ',', y]) = some inner := by
      rw [before?_eq_some_iff]
      refine ⟨')', ',', y, rfl, ?_⟩
      simpa [toUpper_spec] using index
    simp [Operand.split, Operand.splitParenthesised, first]
  | absoluteX index =>
    rw [bare _ first]
    rcases index with rfl | rfl <;> simp [Operand.splitIndex]
  | absoluteY index =>
    rw [bare _ first]
    rcases index with rfl | rfl <;> simp [Operand.splitIndex]
  | absolute =>
    have whole := bare [] (by simpa using first)
    rw [List.append_nil, splitIndex_of_denotesExpression expression] at whole
    exact whole

theorem denotes_of_parse {cs : List Char} (solid : Text.Solid cs) {o : Operand}
    (read : Operand.parse cs = .ok o) : Denotes cs o := by
  unfold Operand.parse at read
  simp only [Text.trim_of_ink solid.first solid.last] at read
  split_ifs at read with empty bare
  · cases read
    rw [bare]
    exact .accumulator
  · split at read
    · cases read
    · rename_i mode inner found
      split at read
      · rename_i e parsed
        cases read
        have denotes := (parseExpression_eq_ok_iff inner e).mp parsed
        exact .expression (form_of_split bare found) denotes
      · cases read
      · cases read

theorem parse_of_form {cs inner : List Char} {mode : AddressMode} {e : Expression}
    (solid : Text.Solid cs) (form : Form cs mode inner) (denotes : DenotesExpression inner e) :
    Operand.parse cs = .ok ⟨mode, some e⟩ := by
  have found := split_of_form form denotes solid.first
  have parsed := (parseExpression_eq_ok_iff inner e).mpr denotes
  have bare : cs ≠ ['A'] := by
    cases form with
    | absolute other => exact other
    | _ => simp [List.append_eq_singleton_iff]
  have filled : cs ≠ [] := by
    cases form with
    | absolute => exact ne_nil_of_denotesExpression denotes
    | _ => simp
  unfold Operand.parse
  simp only [Text.trim_of_ink solid.first solid.last, List.isEmpty_iff, filled, bare, found, parsed,
    if_false]

private theorem parse_trim (cs : List Char) : Operand.parse (Text.trim cs) = Operand.parse cs := by
  obtain ⟨-, -, -, -, -, solid⟩ := Text.exists_trim cs
  unfold Operand.parse
  rw [Text.trim_of_ink solid.first solid.last]

/-- A text is read as an operand exactly if, without the blanks around it, it denotes that operand:
it is the bare name of the accumulator or has one of the seven forms with an expression. -/
theorem parse_eq_ok_iff_denotes (cs : List Char) (o : Operand) :
    Operand.parse cs = .ok o ↔ Denotes (Text.trim cs) o := by
  obtain ⟨-, -, -, -, -, solid⟩ := Text.exists_trim cs
  rw [← parse_trim]
  generalize Text.trim cs = text at solid
  constructor
  · exact denotes_of_parse solid
  · intro denotes
    cases denotes with
    | accumulator => rfl
    | expression form expression => exact parse_of_form solid form expression

example : Operand.parse "(')),y".toList
    = .ok ⟨.indirectIndexedY, some ⟨.full, .number (-10)⟩⟩ := by
  decide +kernel

end Grammar

end Assembly

end TernaryMachine
