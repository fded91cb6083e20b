import TernaryMachine.Proofs.CommentScan
import TernaryMachine.Proofs.Denotation
import TernaryMachine.Proofs.Words

/-!
The grammar of statements. A statement is a word, the name of an instruction or directive, and
behind blanks an argument. What is read of it depends on the two only, and the search for a comment
goes through every statement that is read.
-/

set_option autoImplicit false
set_option relaxedAutoImplicit false

namespace TernaryMachine

namespace Assembly

def parsePhrase (word argument : List Char) : Except Cause Statement :=
  match word with
  | '.' :: name => parseDirective (String.ofList (name.map Char.toLower)) argument
  | _ => parseInstruction (String.ofList (word.map Char.toUpper)) argument

/-- What stands behind the first word of a statement: nothing, or the argument behind blanks. -/
inductive Behind : List Char → List Char → Prop
  | nothing : Behind [] []
  | argument {gap argument : List Char} (blank : Text.Blanks gap) (separated : gap ≠ [])
    (nonempty : argument ≠ []) (solid : Text.Solid argument) : Behind (gap ++ argument) argument

inductive Phrase : List Char → Statement → Prop
  | mk {word rest argument : List Char} {statement : Statement} (behind : Behind rest argument)
    (read : parsePhrase word argument = .ok statement) : Phrase (word ++ rest) statement

def isWordChar (c : Char) : Bool := isPlain c && c != ':'

def isWord (cs : List Char) : Bool := !cs.isEmpty && cs.all isWordChar

theorem toUpper_eq_or (c : Char) :
    c.toUpper = c ∨ ∃ n, 97 ≤ n ∧ n ≤ 122 ∧ c = Char.ofNat n := by
  by_cases small : 97 ≤ c.toNat ∧ c.toNat ≤ 122
  · exact .inr ⟨c.toNat, small.1, small.2, (Char.ofNat_toNat c).symm⟩
  · exact .inl (dif_neg small)

theorem toLower_eq_or (c : Char) :
    c.toLower = c ∨ ∃ n, 65 ≤ n ∧ n ≤ 90 ∧ c = Char.ofNat n := by
  by_cases capital : 65 ≤ c.toNat ∧ c.toNat ≤ 90
  · exact .inr ⟨c.toNat, capital.1, capital.2, (Char.ofNat_toNat c).symm⟩
  · exact .inl (dif_neg capital)

theorem isWordChar_toUpper (c : Char) : isWordChar c.toUpper = isWordChar c := by
  rcases toUpper_eq_or c with same | ⟨n, first, last, rfl⟩
  · rw [same]
  · interval_cases n <;> decide

theorem isWordChar_toLower (c : Char) : isWordChar c.toLower = isWordChar c := by
  rcases toLower_eq_or c with same | ⟨n, first, last, rfl⟩
  · rw [same]
  · interval_cases n <;> decide

theorem isWord_map {f : Char → Char} (same : ∀ c, isWordChar (f c) = isWordChar c)
    (cs : List Char) : isWord (cs.map f) = isWord cs := by
  have every : isWordChar ∘ f = isWordChar := funext same
  simp [isWord, List.all_map, every]

theorem isWordChar_of_mem {cs : List Char} (h : isWord cs = true) :
    ∀ c ∈ cs, isWordChar c = true := by
  simp only [isWord, Bool.and_eq_true] at h
  exact List.all_eq_true.mp h.2

theorem ne_nil_of_isWord {cs : List Char} (h : isWord cs = true) : cs ≠ [] := by
  rintro rfl
  cases h

theorem isPlain_of_isWord {cs : List Char} (h : isWord cs = true) : ∀ c ∈ cs, isPlain c = true := by
  intro c member
  have letter := isWordChar_of_mem h c member
  simp only [isWordChar, Bool.and_eq_true] at letter
  exact letter.1

theorem inked_of_isWord {cs : List Char} (h : isWord cs = true) : Text.Inked cs :=
  fun c member => isInk_of_isPlain (isPlain_of_isWord h c member)

theorem colon_not_mem_of_isWord {cs : List Char} (h : isWord cs = true) : ':' ∉ cs :=
  fun member => absurd (isWordChar_of_mem h ':' member) (by decide)

private theorem isWord_of_denotes {name : String} {mode? : Option AddressMode} {i : Instruction}
    (h : Instruction.Denotes name mode? i) : isWord name.toList = true := by
  cases h with
  | @alu _ op mode mem _ =>
    have all : ∀ name ∈ op.names, isWord name.toList = true := by cases op <;> decide +kernel
    exact all name mem
  | extended op => cases op <;> decide +kernel
  | @branch _ mode flag comparison digit mem _ =>
    have all : ∀ name ∈ Instruction.branchNames flag comparison digit,
        isWord name.toList = true := by
      cases flag <;> cases comparison <;> cases digit <;> decide +kernel
    exact all name mem

theorem isWord_of_parsePhrase {word argument : List Char} {statement : Statement}
    (h : parsePhrase word argument = .ok statement) : isWord word = true := by
  unfold parsePhrase at h
  split at h
  · rename_i name
    have named (s : String) (known : isWord ('.' :: s.toList) = true)
        (same : String.ofList (name.map Char.toLower) = s) : isWord ('.' :: name) = true := by
      rw [← isWord_map isWordChar_toLower, List.map_cons, ← String.toList_ofList
        (l := name.map Char.toLower), same]
      exact known
    unfold parseDirective at h
    split at h
    · exact named "org" (by decide +kernel) ‹_›
    · exact named "equ" (by decide +kernel) ‹_›
    · exact named "word" (by decide +kernel) ‹_›
    · exact named "tryte" (by decide +kernel) ‹_›
    · exact named "data" (by decide +kernel) ‹_›
    · cases h
  · have taken := h
    obtain ⟨operand?, read, -⟩ := bind_eq_ok_iff.mp taken
    obtain ⟨i, argument?, -, denotes, -⟩ := parseInstruction_eq_ok read h
    have known := isWord_of_denotes denotes
    rw [String.toList_ofList, isWord_map isWordChar_toUpper] at known
    exact known

theorem isInk_of_continuesSymbol {c : Char} (h : continuesSymbol c = true) :
    Text.isInk c = true := by
  have begins := (Grammar.beginsTerm_of_continuesName ((Grammar.continuesSymbol_iff c).mp h)).1
  simp only [Grammar.beginsTerm, Bool.and_eq_true] at begins
  exact begins.1.1.1.1

theorem isWordChar_of_continuesSymbol {c : Char} (h : continuesSymbol c = true) :
    isWordChar c = true := by
  have ordinary := Grammar.isOrdinary_of_continuesSymbol h
  have colon : c ≠ ':' := by
    rintro rfl
    exact absurd h (by decide)
  simp only [isOrdinary, Bool.and_eq_true, bne_iff_ne] at ordinary
  simp only [isWordChar, isPlain, Bool.and_eq_true, bne_iff_ne]
  exact ⟨⟨⟨⟨isInk_of_continuesSymbol h, ordinary.1.1⟩, ordinary.1.2⟩, ordinary.2⟩, colon⟩

theorem isWord_of_isSymbol {name : List Char} (h : isSymbol name = true) : isWord name = true := by
  obtain ⟨c, rest, rfl, begins, continues⟩ := (Grammar.isSymbol_iff name).mp h
  have letters {d : Char} (h : Grammar.ContinuesName d) : isWordChar d = true :=
    isWordChar_of_continuesSymbol ((Grammar.continuesSymbol_iff d).mpr h)
  simp only [isWord, List.isEmpty_cons, Bool.not_false, Bool.true_and, List.all_cons,
    Bool.and_eq_true, List.all_eq_true]
  exact ⟨letters (.inl begins), fun d member => letters (continues d member)⟩

theorem closed_of_isSymbol {name : List Char} (h : isSymbol name = true) : Closed name :=
  .of_plain (isPlain_of_isWord (isWord_of_isSymbol h))

theorem parseDefinition_eq_ok_iff {cs : List Char} {statement : Statement} :
    parseDefinition cs = .ok statement ↔ ∃ before value gap name after e, Text.Blanks before
      ∧ Text.Inked value ∧ value ≠ [] ∧ Text.Blanks gap ∧ gap ≠ [] ∧ isSymbol name = true
      ∧ Text.Blanks after ∧ cs = before ++ (value ++ (gap ++ (name ++ after)))
      ∧ Expression.parse value = .ok e ∧ statement = .define (String.ofList name) e := by
  constructor
  · intro h
    unfold parseDefinition at h
    split at h
    · cases h
    · cases h
    · rename_i value name found
      split_ifs at h with invalid
      obtain ⟨e, read, rfl⟩ := map_eq_ok_iff.mp h
      obtain ⟨before, rest, blank, ink, nonempty, stop, whole, second⟩ :=
        Text.exists_of_words_eq_cons found
      obtain ⟨gap, after, blank', ink', nonempty', stop', rfl, none⟩ :=
        Text.exists_of_words_eq_cons second
      refine ⟨before, value, gap, name, after, e, blank, ink, nonempty, blank', ?_,
        by simpa using invalid, Text.blanks_of_words none, whole, ?_, rfl⟩
      · rintro rfl
        obtain ⟨c, cs, rfl⟩ := List.exists_cons_of_ne_nil nonempty'
        have ink := ink' c List.mem_cons_self
        rw [Text.isInk_eq_false_of_isBlank (stop c rfl)] at ink
        cases ink
      · unfold parseValue at read
        split at read
        · cases read
          assumption
        · cases read
    · cases h
  · rintro ⟨before, value, gap, name, after, e, blank, ink, nonempty, blank', separated, valid,
      blank'', rfl, read, rfl⟩
    have word := isWord_of_isSymbol valid
    have stop : Text.Detached (gap ++ (name ++ after)) :=
      blank'.detached.append fun none => absurd none separated
    have first := Text.words_append blank ink nonempty stop
    have second := Text.words_append blank' (inked_of_isWord word) (ne_nil_of_isWord word)
      blank''.detached
    rw [second, Text.words_of_blanks blank''] at first
    simp only [parseDefinition, first, valid, parseValue, read]
    rfl

theorem parseValue_eq_ok_iff {cs : List Char} {e : Expression} :
    parseValue cs = .ok e ↔ Expression.parse cs = .ok e := by
  unfold parseValue
  cases Expression.parse cs <;> simp

private theorem closed_of_parse {cs : List Char} {e : Expression}
    (h : Expression.parse cs = .ok e) : Closed cs :=
  Grammar.closed_of_denotesExpression ((Grammar.parseExpression_eq_ok_iff cs e).mp h)

private theorem closed_of_parseDirective {name : String} {argument : List Char}
    {statement : Statement} (h : parseDirective name argument = .ok statement) :
    Closed argument := by
  have layout {directive : String} {layout : Layout}
      (h : parseLayout directive layout argument = .ok statement) : Closed argument := by
    unfold parseLayout at h
    split_ifs at h
    obtain ⟨e, read, -⟩ := map_eq_ok_iff.mp h
    exact closed_of_parse (parseValue_eq_ok_iff.mp read)
  unfold parseDirective at h
  split at h
  · split_ifs at h
    obtain ⟨e, read, -⟩ := map_eq_ok_iff.mp h
    exact closed_of_parse (parseValue_eq_ok_iff.mp read)
  · obtain ⟨before, value, gap, name, after, e, blank, -, -, blank', -, valid, blank'', rfl, read,
      -⟩ := parseDefinition_eq_ok_iff.mp h
    exact (Closed.of_blanks blank).append ((closed_of_parse read).append
      ((Closed.of_blanks blank').append ((closed_of_isSymbol valid).append (.of_blanks blank''))))
  · exact layout h
  · exact layout h
  · unfold parseData at h
    split_ifs at h
    split at h
    · cases h
    · exact closed_of_parseString ‹_›
  · cases h

theorem closed_of_parsePhrase {word argument : List Char} {statement : Statement}
    (solid : Text.Solid argument) (h : parsePhrase word argument = .ok statement) :
    Closed argument := by
  unfold parsePhrase at h
  split at h
  · exact closed_of_parseDirective h
  · obtain ⟨operand?, read, -⟩ := bind_eq_ok_iff.mp h
    unfold operandOf? at read
    split_ifs at read with empty
    · rw [List.isEmpty_iff.mp empty]
      exact .nil
    · split at read
      · exact Grammar.closed_of_parseOperand solid ‹_›
      · cases read

namespace Phrase

variable {text : List Char} {statement : Statement}

theorem spec (h : Phrase text statement) : text ≠ [] ∧ Text.Solid text ∧ Closed text := by
  obtain ⟨behind, read⟩ := h
  rename_i word rest argument
  have valid := isWord_of_parsePhrase read
  have nonempty := ne_nil_of_isWord valid
  have closed : Closed word := .of_plain (isPlain_of_isWord valid)
  have solid := (inked_of_isWord valid).solid
  refine ⟨List.append_ne_nil_of_left_ne_nil nonempty _, ?_⟩
  cases behind with
  | nothing =>
    rw [List.append_nil]
    exact ⟨solid, closed⟩
  | @argument gap _ blank separated nonempty' solid' =>
    exact ⟨solid.append nonempty solid' nonempty' gap,
      closed.append ((Closed.of_blanks blank).append (closed_of_parsePhrase solid' read))⟩

theorem separated (h : Phrase text statement) {gap tail : List Char}
    (stop : Text.Detached (gap ++ (text ++ tail))) : gap ≠ [] := by
  rintro rfl
  obtain ⟨nonempty, solid, -⟩ := h.spec
  obtain ⟨c, cs, rfl⟩ := List.exists_cons_of_ne_nil nonempty
  have ink := solid.first c rfl
  rw [Text.isInk_eq_false_of_isBlank (stop c rfl)] at ink
  cases ink

end Phrase

private theorem behind_trim {front rest : List Char} (solid : Text.Solid (front ++ rest))
    (stop : Text.Detached rest) : Behind rest (Text.trim rest) := by
  have last (xs : List Char) {after : List Char} (same : front ++ rest = xs ++ after)
      (blank : Text.Blanks after) : after = [] := by
    by_contra nonempty
    rw [same] at solid
    have ends : (xs ++ after).getLast? = some (after.getLast nonempty) := by
      rw [List.getLast?_append_of_ne_nil _ nonempty, List.getLast?_eq_some_getLast nonempty]
    have ink := solid.last _ ends
    rw [Text.isInk_eq_false_of_isBlank (blank _ (List.getLast_mem nonempty))] at ink
    cases ink
  obtain ⟨before, after, blank, blank', whole, solid'⟩ := Text.exists_trim rest
  obtain rfl : after = [] := by
    refine last (front ++ (before ++ Text.trim rest)) ?_ blank'
    rw [List.append_assoc, ← whole]
  rw [List.append_nil] at whole
  by_cases empty : Text.trim rest = []
  · obtain rfl : rest = [] := last front rfl (Text.blanks_of_trim empty)
    exact .nothing
  · have separated : before ≠ [] := by
      rintro rfl
      obtain ⟨c, cs, same⟩ := List.exists_cons_of_ne_nil empty
      have ink := solid'.first c (by rw [same]; rfl)
      have blank := stop c (by rw [whole, same]; rfl)
      rw [Text.isInk_eq_false_of_isBlank blank] at ink
      cases ink
    have behind := Behind.argument blank separated empty solid'
    rw [← whole] at behind
    exact behind

namespace Behind

variable {rest argument : List Char}

theorem detached (h : Behind rest argument) : Text.Detached rest := by
  cases h with
  | nothing => exact fun _ none => absurd none (by simp)
  | argument blank separated => exact blank.detached.append fun none => absurd none separated

theorem trim_eq (h : Behind rest argument) : Text.trim rest = argument := by
  cases h with
  | nothing => rfl
  | @argument gap _ blank _ nonempty solid =>
    have whole := Text.trim_surrounded blank Text.blanks_nil nonempty solid
    rwa [List.append_nil] at whole

end Behind

private theorem parseStatement_append {word rest : List Char} (ink : Text.Inked word)
    (nonempty : word ≠ []) (stop : Text.Detached rest) :
    parseStatement (word ++ rest) = (parsePhrase word (Text.trim rest)).map some := by
  have argument := Text.trim_drop_one stop
  have filled : (word ++ rest).isEmpty = false := by simp [nonempty]
  rw [parseStatement, filled]
  simp only [Bool.false_eq_true, if_false, Text.cutAtBlank, Text.headWord_append ink stop,
    Text.afterWord_append ink stop, argument]
  obtain ⟨c, name, rfl⟩ := List.exists_cons_of_ne_nil nonempty
  by_cases dot : c = '.'
  · subst dot
    rfl
  · simp [parsePhrase, dot]

theorem Phrase.parseStatement_eq {text : List Char} {statement : Statement}
    (h : Phrase text statement) : parseStatement text = .ok (some statement) := by
  obtain ⟨behind, read⟩ := h
  have valid := isWord_of_parsePhrase read
  rw [parseStatement_append (inked_of_isWord valid) (ne_nil_of_isWord valid) behind.detached,
    behind.trim_eq, read]
  rfl

theorem exists_headWord {text : List Char} (nonempty : text ≠ [])
    (solid : Text.Solid text) : Text.headWord text ≠ []
      ∧ Behind (Text.afterWord text) (Text.trim (Text.afterWord text)) := by
  constructor
  · obtain ⟨c, rest, rfl⟩ := List.exists_cons_of_ne_nil nonempty
    rw [Text.headWord, List.takeWhile_cons_of_pos (solid.first c rfl)]
    exact List.cons_ne_nil _ _
  · rw [← Text.headWord_append_afterWord text] at solid
    exact behind_trim solid (Text.detached_afterWord text)

theorem phrase_of_parseStatement {text : List Char} {statement? : Option Statement}
    (nonempty : text ≠ []) (solid : Text.Solid text) (h : parseStatement text = .ok statement?) :
    ∃ statement, statement? = some statement ∧ Phrase text statement := by
  obtain ⟨filled, behind⟩ := exists_headWord nonempty solid
  rw [← Text.headWord_append_afterWord text, parseStatement_append (Text.inked_headWord text) filled
    (Text.detached_afterWord text)] at h
  obtain ⟨statement, read, rfl⟩ := map_eq_ok_iff.mp h
  refine ⟨statement, rfl, ?_⟩
  rw [← Text.headWord_append_afterWord text]
  exact ⟨behind, read⟩

end Assembly

end TernaryMachine
