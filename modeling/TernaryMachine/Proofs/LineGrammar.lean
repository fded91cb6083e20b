import TernaryMachine.Proofs.StatementGrammar

/-!
The grammar of lines. A line holds nothing, or behind blanks a label, a statement or both, and at
its end blanks and a comment. It is read without a fault exactly if it has this form and its
statement is read, and then it holds the label and the statement that stand there.
-/

set_option autoImplicit false
set_option relaxedAutoImplicit false

namespace TernaryMachine

namespace Assembly

/-- The end of a line: nothing but blanks, or a comment where one may begin. -/
inductive Ending (afterBlank : Bool) : List Char → Prop
  | blanks {cs : List Char} (blank : Text.Blanks cs) : Ending afterBlank cs
  | comment {gap : List Char} (blank : Text.Blanks gap)
    (separated : blankBehind afterBlank gap = true) (text : List Char) :
    Ending afterBlank (gap ++ ';' :: text)

namespace Ending

theorem detached {cs : List Char} (h : Ending false cs) : Text.Detached cs := by
  cases h with
  | blanks blank => exact blank.detached
  | comment blank separated =>
    refine blank.detached.append fun none => ?_
    rw [none] at separated
    cases separated

theorem append {afterBlank : Bool} {cs more : List Char} (h : Ending afterBlank cs)
    (k : Ending (blankBehind afterBlank cs) more) : Ending afterBlank (cs ++ more) := by
  cases h with
  | blanks blank =>
    cases k with
    | blanks blank' => exact .blanks (blank.append blank')
    | comment blank' separated text =>
      rw [← List.append_assoc]
      exact .comment (blank.append blank') (by rw [blankBehind_append, separated]) text
  | comment blank separated text =>
    rw [List.append_assoc, List.cons_append]
    exact .comment blank separated _

theorem prepend {afterBlank : Bool} {gap cs : List Char} (blank : Text.Blanks gap)
    (h : Ending (blankBehind afterBlank gap) cs) : Ending afterBlank (gap ++ cs) :=
  (Ending.blanks blank).append h

theorem of_append {afterBlank : Bool} {gap cs : List Char} (blank : Text.Blanks gap)
    (h : Ending afterBlank (gap ++ cs)) : Ending (blankBehind afterBlank gap) cs := by
  generalize whole : gap ++ cs = all at h
  cases h with
  | blanks blanks =>
    subst whole
    exact .blanks fun c member => blanks c (List.mem_append_right gap member)
  | @comment gap' blank' separated text =>
    obtain ⟨more, rfl, rest⟩ : ∃ more, gap' = gap ++ more ∧ cs = more ++ ';' :: text := by
      rcases List.append_eq_append_iff.mp whole with ⟨more, rfl, rest⟩ | ⟨more, rfl, rest⟩
      · exact ⟨more, rfl, rest⟩
      · cases more with
        | nil => exact ⟨[], by simp, by simpa using rest.symm⟩
        | cons c more =>
          obtain ⟨rfl, -⟩ := List.cons.inj rest
          exact absurd (blank ';' (by simp)) (by decide)
    rw [blankBehind_append] at separated
    rw [rest]
    exact .comment (fun c member => blank' c (List.mem_append_right gap member)) separated text

theorem stripComment_append {cs tail : List Char} {afterBlank : Bool} (closed : Closed cs)
    (h : Ending (blankBehind afterBlank cs) tail) :
    ∃ gap, Text.Blanks gap ∧ stripComment false afterBlank (cs ++ tail) = .ok (cs ++ gap) := by
  cases h with
  | blanks blank =>
    exact ⟨tail, blank, (closed.append (.of_blanks blank)).stripComment_eq afterBlank⟩
  | @comment gap blank separated text =>
    refine ⟨gap, blank, ?_⟩
    rw [← List.append_assoc]
    rw [← blankBehind_append] at separated
    exact (closed.append (.of_blanks blank)).stripComment_comment separated text

end Ending

/-- The search goes on behind a piece of the line. Its flag is false there unless the piece is a
single ordinary character, so that it tells of a blank. -/
private theorem cut_append {afterBlank flag : Bool} (front : List Char) {cs line : List Char}
    (behind : flag = true → blankBehind afterBlank front = true)
    (h : line = cs ∨ blankBehind flag cs = true ∧ ∃ text, line = cs ++ ';' :: text) :
    front ++ line = front ++ cs ∨ blankBehind afterBlank (front ++ cs) = true
      ∧ ∃ text, front ++ line = front ++ cs ++ ';' :: text := by
  rcases h with rfl | ⟨separated, text, rfl⟩
  · exact .inl rfl
  · refine .inr ⟨?_, text, (List.append_assoc _ _ _).symm⟩
    rw [blankBehind_append]
    cases cs with
    | nil => exact behind separated
    | cons c cs => exact separated

theorem eq_or_exists_of_stripComment {inString afterBlank : Bool} {line cs : List Char}
    (h : stripComment inString afterBlank line = .ok cs) :
    line = cs ∨ blankBehind afterBlank cs = true ∧ ∃ text, line = cs ++ ';' :: text := by
  fun_induction stripComment inString afterBlank line generalizing cs with
  | case1 =>
    cases h
    exact .inl rfl
  | case2 _ _ rest ih =>
    obtain ⟨cs, stripped, rfl⟩ := map_eq_ok_iff.mp h
    exact cut_append ['"'] (by simp) (ih stripped)
  | case3 | case5 | case6 =>
    cases h
    exact .inl rfl
  | case4 _ _ c _ _ d rest ih =>
    obtain ⟨cs, stripped, rfl⟩ := map_eq_ok_iff.mp h
    exact cut_append [c, d] (by simp) (ih stripped)
  | case7 _ _ c _ _ _ d rest ih =>
    obtain ⟨cs, stripped, rfl⟩ := map_eq_ok_iff.mp h
    exact cut_append [c, '\\', d] (by simp) (ih stripped)
  | case8 _ _ c _ _ _ d rest _ _ ih =>
    obtain ⟨cs, stripped, rfl⟩ := map_eq_ok_iff.mp h
    exact cut_append [c, d] (by simp) (ih stripped)
  | case9 _ c rest _ _ _ semicolon =>
    cases h
    obtain ⟨rfl, -⟩ := semicolon
    exact .inr ⟨rfl, rest, rfl⟩
  | case10 => cases h
  | case11 _ _ c rest _ _ _ _ ih =>
    obtain ⟨cs, stripped, rfl⟩ := map_eq_ok_iff.mp h
    exact cut_append [c] id (ih stripped)

theorem blankBehind_of_solid {afterBlank : Bool} {cs : List Char} (solid : Text.Solid cs)
    (nonempty : cs ≠ []) : blankBehind afterBlank cs = false := by
  rcases List.eq_nil_or_concat cs with rfl | ⟨front, c, rfl⟩
  · exact absurd rfl nonempty
  · rw [List.concat_eq_append] at solid ⊢
    rw [blankBehind_concat]
    exact Text.isBlank_eq_false_of_isInk (solid.last c (by simp))

theorem exists_of_stripComment {line cs : List Char} (h : stripComment false true line = .ok cs) :
    Text.trim cs = [] ∧ Ending true line ∨ Text.trim cs ≠ [] ∧ Text.Solid (Text.trim cs)
      ∧ ∃ before tail, Text.Blanks before ∧ Ending false tail
        ∧ line = before ++ (Text.trim cs ++ tail) := by
  obtain ⟨before, after, blank, blank', whole, solid⟩ := Text.exists_trim cs
  by_cases empty : Text.trim cs = []
  · refine .inl ⟨empty, ?_⟩
    have blanks := Text.blanks_of_trim empty
    rcases eq_or_exists_of_stripComment h with rfl | ⟨separated, text, rfl⟩
    · exact .blanks blanks
    · exact .comment blanks separated text
  · refine .inr ⟨empty, solid, before, ?_⟩
    rcases eq_or_exists_of_stripComment h with rfl | ⟨separated, text, rfl⟩
    · exact ⟨after, blank, .blanks blank', by rw [← List.append_assoc]; exact whole⟩
    · refine ⟨after ++ ';' :: text, blank, .comment blank' ?_ text, ?_⟩
      · rw [whole, blankBehind_append, blankBehind_append, blankBehind_of_solid solid empty]
          at separated
        exact separated
      · conv => lhs; rw [whole]
        simp only [List.append_assoc]

theorem trim_of_stripComment {before text tail : List Char} (blank : Text.Blanks before)
    (nonempty : text ≠ []) (solid : Text.Solid text) (closed : Closed text)
    (h : Ending false tail) : ∃ cs, stripComment false true (before ++ (text ++ tail)) = .ok cs
      ∧ Text.trim cs = text := by
  have behind : blankBehind true (before ++ text) = false := by
    rw [blankBehind_append, blankBehind_of_solid solid nonempty]
  rw [← behind] at h
  obtain ⟨gap, blank', stripped⟩ := h.stripComment_append ((Closed.of_blanks blank).append closed)
  rw [List.append_assoc] at stripped
  exact ⟨_, stripped, Text.trim_surrounded blank blank' nonempty solid⟩

/-- The text of a line between the blanks before it and its end. -/
inductive Body : List Char → Option String → Option Statement → Prop
  | label {name : List Char} (valid : isSymbol name = true) :
    Body (name ++ [':']) (some (String.ofList name)) none
  | statement {text : List Char} {statement : Statement} (phrase : Phrase text statement) :
    Body text none (some statement)
  | labelled {name gap text : List Char} {statement : Statement} (valid : isSymbol name = true)
    (blank : Text.Blanks gap) (separated : gap ≠ []) (phrase : Phrase text statement) :
    Body (name ++ ':' :: (gap ++ text)) (some (String.ofList name)) (some statement)

inductive Reads : List Char → Option String → Option Statement → Prop
  | empty {line : List Char} (ending : Ending true line) : Reads line none none
  | body {before text tail : List Char} {label? : Option String} {statement? : Option Statement}
    (blank : Text.Blanks before) (body : Body text label? statement?)
    (ending : Ending false tail) : Reads (before ++ (text ++ tail)) label? statement?

theorem isPlain_labelWord {name : List Char} (valid : isSymbol name = true) :
    ∀ c ∈ name ++ [':'], isPlain c = true :=
  List.forall_mem_append.mpr
    ⟨isPlain_of_isWord (isWord_of_isSymbol valid), List.all_eq_true.mp (by decide)⟩

theorem inked_labelWord {name : List Char} (valid : isSymbol name = true) :
    Text.Inked (name ++ [':']) :=
  fun c member => isInk_of_isPlain (isPlain_labelWord valid c member)

private theorem cutLabel_append {name rest : List Char} (ink : Text.Inked name)
    (stop : Text.Detached rest) : cutLabel (name ++ ':' :: rest) = (some name, Text.trim rest) := by
  have ink' : Text.Inked (name ++ [':']) :=
    List.forall_mem_append.mpr ⟨ink, by simp [Text.isInk, Text.isBlank]⟩
  rw [List.append_cons, cutLabel, Text.headWord_append ink' stop, Text.afterWord_append ink' stop,
    List.reverse_concat]
  exact congrArg (fun name => (some name, Text.trim rest)) (List.reverse_reverse name)

theorem cutLabel_phrase {text : List Char} {statement : Statement}
    (h : Phrase text statement) : cutLabel text = (none, text) := by
  obtain ⟨behind, read⟩ := h
  have valid := isWord_of_parsePhrase read
  unfold cutLabel
  rw [Text.headWord_append (inked_of_isWord valid) behind.detached]
  split
  · rename_i label same
    exact absurd (List.mem_reverse.mp (same ▸ List.mem_cons_self)) (colon_not_mem_of_isWord valid)
  · rfl

theorem cutLabel_labelled {name gap text : List Char} {statement : Statement}
    (valid : isSymbol name = true) (blank : Text.Blanks gap) (separated : gap ≠ [])
    (phrase : Phrase text statement) :
    cutLabel (name ++ ':' :: (gap ++ text)) = (some name, text) := by
  obtain ⟨nonempty, solid, -⟩ := phrase.spec
  rw [cutLabel_append (inked_of_isWord (isWord_of_isSymbol valid))
    (blank.detached.append fun none => absurd none separated)]
  exact congrArg (some name, ·) (Behind.argument blank separated nonempty solid).trim_eq

namespace Body

variable {text : List Char} {label? : Option String} {statement? : Option Statement}

theorem spec (h : Body text label? statement?) :
    text ≠ [] ∧ Text.Solid text ∧ Closed text := by
  cases h with
  | @label name valid =>
    exact ⟨by simp, (inked_labelWord valid).solid, .of_plain (isPlain_labelWord valid)⟩
  | statement phrase => exact phrase.spec
  | @labelled name gap text _ valid blank separated phrase =>
    obtain ⟨nonempty, solid, closed⟩ := phrase.spec
    rw [List.append_cons]
    exact ⟨by simp, (inked_labelWord valid).solid.append (by simp) solid nonempty gap,
      (Closed.of_plain (isPlain_labelWord valid)).append ((Closed.of_blanks blank).append closed)⟩

theorem exists_cutLabel (h : Body text label? statement?) : ∃ name? rest,
    cutLabel text = (name?, rest) ∧ (∀ name ∈ name?, isSymbol name = true)
      ∧ name?.map String.ofList = label? ∧ parseStatement rest = .ok statement? := by
  cases h with
  | @label name valid =>
    refine ⟨some name, [], ?_, by simpa using valid, rfl, rfl⟩
    exact cutLabel_append (inked_of_isWord (isWord_of_isSymbol valid))
      fun _ none => absurd none (by simp)
  | statement phrase =>
    exact ⟨none, text, cutLabel_phrase phrase, by simp, rfl, phrase.parseStatement_eq⟩
  | @labelled name gap text _ valid blank separated phrase =>
    exact ⟨some name, text, cutLabel_labelled valid blank separated phrase, by simpa using valid,
      rfl, phrase.parseStatement_eq⟩

theorem of_cutLabel {name? : Option (List Char)} {rest : List Char} (nonempty : text ≠ [])
    (solid : Text.Solid text) (cut : cutLabel text = (name?, rest))
    (valid : ∀ name ∈ name?, isSymbol name = true) (read : parseStatement rest = .ok statement?) :
    Body text (name?.map String.ofList) statement? := by
  unfold cutLabel at cut
  split at cut
  · rename_i label reversed
    obtain ⟨rfl, rfl⟩ := Prod.mk.inj cut
    have valid := valid label.reverse rfl
    have head : Text.headWord text = label.reverse ++ [':'] := by
      rw [List.reverse_eq_iff.mp reversed, List.reverse_cons]
    have whole : text = label.reverse ++ ':' :: Text.afterWord text := by
      rw [List.append_cons, ← head, Text.headWord_append_afterWord]
    obtain ⟨-, behind⟩ := exists_headWord nonempty solid
    generalize Text.afterWord text = after at *
    generalize Text.trim after = argument at *
    subst whole
    cases behind with
    | nothing =>
      cases read
      exact .label valid
    | argument blank separated nonempty' solid' =>
      obtain ⟨statement, rfl, phrase⟩ := phrase_of_parseStatement nonempty' solid' read
      exact .labelled valid blank separated phrase
  · obtain ⟨rfl, rfl⟩ := Prod.mk.inj cut
    obtain ⟨statement, rfl, phrase⟩ := phrase_of_parseStatement nonempty solid read
    exact .statement phrase

end Body

/-- A line is read without a fault exactly if it has the form of a line, and then it holds the label
and the statement that stand in it. -/
theorem contents?_eq_some_iff {line : List Char} {label? : Option String}
    {statement? : Option Statement} :
    contents? line = some (label?, statement?) ↔ Reads line label? statement? := by
  constructor
  · intro h
    obtain ⟨l, parsed, h⟩ := Option.bind_eq_some_iff.mp h
    obtain ⟨s, stated, same⟩ := Option.bind_eq_some_iff.mp h
    obtain ⟨rfl, rfl⟩ := Prod.mk.inj (Option.some.inj same)
    rw [toOption_eq_some_iff] at parsed stated
    unfold Line.parse at parsed
    split at parsed
    · cases parsed
    · rename_i cs stripped
      rcases exists_of_stripComment stripped with
        ⟨empty, ending⟩ | ⟨nonempty, solid, before, tail, blank, ending, rfl⟩
      · rw [empty] at parsed
        cases parsed
        cases stated
        exact .empty ending
      · split at parsed
        · rename_i rest cut
          cases parsed
          exact .body blank (.of_cutLabel nonempty solid cut (by simp) stated) ending
        · rename_i label rest cut
          split_ifs at parsed with valid
          cases parsed
          exact .body blank (.of_cutLabel nonempty solid cut (by simpa using valid) stated) ending
  · intro h
    cases h with
    | empty ending =>
      obtain ⟨gap, blank, stripped⟩ := ending.stripComment_append Closed.nil
      simp only [List.nil_append] at stripped
      simp [contents?, Line.parse, stripped, Text.trim_of_blanks blank, cutLabel, Text.headWord,
        parseStatement, Except.toOption]
    | @body before text tail _ _ blank body ending =>
      obtain ⟨nonempty, solid, closed⟩ := body.spec
      obtain ⟨cs, stripped, trimmed⟩ := trim_of_stripComment blank nonempty solid closed ending
      obtain ⟨name?, rest, cut, valid, rfl, read⟩ := body.exists_cutLabel
      cases name? with
      | none => simp [contents?, Line.parse, stripped, trimmed, cut, read, Except.toOption]
      | some name =>
        simp [contents?, Line.parse, stripped, trimmed, cut, read, Except.toOption, valid name rfl]

theorem Ending.eq_semicolon {afterBlank : Bool} {gap rest : List Char} {c : Char}
    (h : Ending afterBlank (gap ++ c :: rest)) (blank : Text.Blanks gap)
    (ink : Text.isInk c = true) : c = ';' := by
  generalize whole : gap ++ c :: rest = cs at h
  cases h with
  | blanks blanks =>
    have other := blanks c (by simp [← whole])
    rw [Text.isBlank_eq_false_of_isInk ink] at other
    cases other
  | comment blank' separated text =>
    have same := congrArg (List.dropWhile Text.isBlank) whole
    rw [(Text.span_blanks blank ink).2, (Text.span_blanks blank' (by decide)).2] at same
    exact (List.cons.inj same).1

theorem Reads.indent {gap line : List Char} {label? : Option String} {statement? : Option Statement}
    (blank : Text.Blanks gap) (h : Reads line label? statement?) :
    Reads (gap ++ line) label? statement? := by
  cases h with
  | empty ending =>
    have behind : blankBehind true gap = true := blankBehind_of_blanks blank fun _ => rfl
    rw [← behind] at ending
    exact .empty (.prepend blank ending)
  | body blank' body ending =>
    rw [← List.append_assoc]
    exact .body (blank.append blank') body ending

theorem Reads.of_indent {gap line : List Char} {label? : Option String}
    {statement? : Option Statement} (blank : Text.Blanks gap)
    (h : Reads (gap ++ line) label? statement?) : Reads line label? statement? := by
  generalize whole : gap ++ line = all at h
  cases h with
  | empty ending =>
    rw [← whole] at ending
    have ending := ending.of_append blank
    rw [blankBehind_of_blanks blank fun _ => rfl] at ending
    exact .empty ending
  | @body before text tail _ _ blank' body ending =>
    obtain ⟨more, rfl, rfl⟩ : ∃ more, before = gap ++ more ∧ line = more ++ (text ++ tail) := by
      rcases List.append_eq_append_iff.mp whole with ⟨more, rfl, rest⟩ | ⟨more, rfl, rest⟩
      · exact ⟨more, rfl, rest⟩
      · obtain ⟨nonempty, solid, -⟩ := body.spec
        obtain ⟨c, cs, rfl⟩ := List.exists_cons_of_ne_nil nonempty
        cases more with
        | nil => exact ⟨[], by simp, by simpa using rest.symm⟩
        | cons d more =>
          obtain ⟨rfl, -⟩ := List.cons.inj rest
          have ink := solid.first c rfl
          rw [Text.isInk_eq_false_of_isBlank (blank c (by simp))] at ink
          cases ink
    exact .body (fun c member => blank' c (List.mem_append_right gap member)) body ending

theorem isWord_labelWord (name : List Char) : isWord (name ++ [':']) = false := by
  rw [← Bool.not_eq_true]
  exact fun valid => colon_not_mem_of_isWord valid (by simp)

private theorem not_ending_of_isWord {afterBlank : Bool} {before word rest : List Char}
    (blank : Text.Blanks before) (valid : isWord word = true) :
    ¬ Ending afterBlank (before ++ (word ++ rest)) := by
  intro ending
  obtain ⟨c, cs, rfl⟩ := List.exists_cons_of_ne_nil (ne_nil_of_isWord valid)
  have ink := inked_of_isWord valid c List.mem_cons_self
  obtain rfl := ending.eq_semicolon blank ink
  exact absurd (isWordChar_of_mem valid ';' List.mem_cons_self) (by decide)

theorem Reads.exists_label {line : List Char} {label : String} {statement? : Option Statement}
    (h : Reads line (some label) statement?) : ∃ before name rest, Text.Blanks before
      ∧ isSymbol name = true ∧ Text.Detached rest ∧ label = String.ofList name
      ∧ line = before ++ (name ++ ':' :: rest) := by
  cases h with
  | @body before text tail _ _ blank body ending =>
    cases body with
    | @label name valid =>
      exact ⟨before, name, tail, blank, valid, ending.detached, rfl, by simp⟩
    | @labelled name gap text _ valid blank' separated phrase =>
      refine ⟨before, name, gap ++ (text ++ tail), blank, valid, ?_, rfl, by simp⟩
      exact blank'.detached.append fun none => absurd none separated

section FirstWord

variable {before rest : List Char} {label? : Option String} {statement? : Option Statement}

theorem reads_word_iff {word : List Char} (blank : Text.Blanks before) (valid : isWord word = true)
    (stop : Text.Detached rest) : Reads (before ++ (word ++ rest)) label? statement?
      ↔ label? = none ∧ ∃ written tail argument statement, rest = written ++ tail
        ∧ Behind written argument ∧ Ending false tail
        ∧ parsePhrase word argument = .ok statement ∧ statement? = some statement := by
  have ink := inked_of_isWord valid
  have nonempty := ne_nil_of_isWord valid
  -- A label ends with a colon, which the first word of a statement does not hold.
  have unlabelled {before' name rest' : List Char} (blank' : Text.Blanks before')
      (symbol : isSymbol name = true) (stop' : Text.Detached rest') :
      before ++ (word ++ rest) ≠ before' ++ (name ++ [':'] ++ rest') := by
    intro same
    obtain ⟨-, rfl, -⟩ := Text.first_word_unique blank blank' ink (inked_labelWord symbol) nonempty
      (by simp) stop stop' same
    rw [isWord_labelWord] at valid
    cases valid
  constructor
  · intro h
    generalize whole : before ++ (word ++ rest) = line at h
    cases h with
    | empty ending =>
      rw [← whole] at ending
      exact absurd ending (not_ending_of_isWord blank valid)
    | @body before' text tail _ _ blank' body ending =>
      cases body with
      | label symbol => exact absurd whole (unlabelled blank' symbol ending.detached)
      | @labelled name gap text _ symbol blank'' separated _ =>
        rw [List.append_cons, List.append_assoc] at whole
        refine absurd whole (unlabelled blank' symbol ?_)
        rw [List.append_assoc]
        exact blank''.detached.append fun none => absurd none separated
      | statement phrase =>
        obtain ⟨behind, read⟩ := phrase
        rename_i word' written argument
        have valid' := isWord_of_parsePhrase read
        rw [List.append_assoc] at whole
        obtain ⟨rfl, rfl, rfl⟩ := Text.first_word_unique blank blank' ink (inked_of_isWord valid')
          nonempty (ne_nil_of_isWord valid') stop
          (behind.detached.append fun _ => ending.detached) whole
        exact ⟨rfl, written, tail, argument, _, rfl, behind, ending, read, rfl⟩
  · rintro ⟨rfl, written, tail, argument, statement, rfl, behind, ending, read, rfl⟩
    rw [← List.append_assoc word]
    exact .body blank (.statement ⟨behind, read⟩) ending

theorem reads_label_iff {name : List Char} (blank : Text.Blanks before)
    (valid : isSymbol name = true) (stop : Text.Detached rest) :
    Reads (before ++ (name ++ ':' :: rest)) label? statement?
      ↔ label? = some (String.ofList name) ∧ Reads rest none statement? := by
  have word := isWord_of_isSymbol valid
  constructor
  · intro h
    generalize whole : before ++ (name ++ ':' :: rest) = line at h
    cases h with
    | empty ending =>
      rw [← whole] at ending
      exact absurd ending (not_ending_of_isWord blank word)
    | @body before' text tail _ _ blank' body ending =>
      rw [List.append_cons] at whole
      have unique {word' rest' : List Char} (ink : Text.Inked word') (nonempty : word' ≠ [])
          (stop' : Text.Detached rest') (same : text ++ tail = word' ++ rest') :
          name ++ [':'] = word' ∧ rest = rest' := by
        rw [same] at whole
        exact (Text.first_word_unique blank blank' (inked_labelWord valid) ink (by simp) nonempty
          stop stop' whole).2
      cases body with
      | @label name' symbol =>
        obtain ⟨same, rfl⟩ := unique (inked_labelWord symbol) (by simp) ending.detached rfl
        obtain rfl := List.append_cancel_right same
        refine ⟨rfl, .empty ?_⟩
        -- Behind the label a semicolon needs a blank before it, at the start of a line it does not.
        cases ending with
        | blanks blank => exact .blanks blank
        | comment blank separated text =>
          exact .comment blank (blankBehind_of_blanks blank fun _ => rfl) text
      | statement phrase =>
        obtain ⟨behind, read⟩ := phrase
        have valid' := isWord_of_parsePhrase read
        obtain ⟨rfl, -⟩ := unique (inked_of_isWord valid') (ne_nil_of_isWord valid')
          (behind.detached.append fun _ => ending.detached) (List.append_assoc _ _ _)
        rw [isWord_labelWord] at valid'
        cases valid'
      | @labelled name' gap text _ symbol blank'' separated phrase =>
        have stop' : Text.Detached (gap ++ (text ++ tail)) :=
          blank''.detached.append fun none => absurd none separated
        obtain ⟨same, rfl⟩ := unique (inked_labelWord symbol) (by simp) stop' (by simp)
        obtain rfl := List.append_cancel_right same
        exact ⟨rfl, .body blank'' (.statement phrase) ending⟩
  · rintro ⟨rfl, h⟩
    cases h with
    | empty ending =>
      rw [List.append_cons]
      refine .body blank (.label valid) ?_
      cases ending with
      | blanks blank => exact .blanks blank
      | @comment gap blank separated text =>
        refine .comment blank (blankBehind_of_blanks blank ?_) text
        rintro rfl
        exact absurd (stop ';' rfl) (by decide)
    | @body gap text tail _ _ blank' body ending =>
      cases body with
      | statement phrase =>
        have separated := phrase.separated stop
        have labelled := Reads.body blank (.labelled valid blank' separated phrase) ending
        simpa using labelled

end FirstWord

end Assembly

end TernaryMachine
