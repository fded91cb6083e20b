import TernaryMachine.Proofs.LineGrammar
import TernaryMachine.Proofs.TermRenaming

/-!
Source text in which a label has another name. The name is replaced where the label stands and
where it begins the term of an operand or of a value; comments, strings, literals and the names of
registers stay. If nothing else bears the new name, the lines hold what they held, under the new
name. The one name that means something else is `A`, where it is the whole operand of an
instruction.
-/

set_option autoImplicit false
set_option relaxedAutoImplicit false

namespace TernaryMachine.Assembly

def operandText? (line : List Char) : Option (List Char) := do
  let text ← (stripComment false true line).toOption
  let (word, rest) := Text.cutAtBlank (cutLabel (Text.trim text)).2
  if word.isEmpty || word.head? == some '.' then none else some (Text.trim rest)

section Replace

variable (old new : List Char)

/-- Replaces a name behind the first word of a text, unless this is a comment or what stands there
is the accumulator. -/
def renameStatement (text : List Char) : List Char :=
  let before := text.takeWhile Text.isBlank
  let body := text.dropWhile Text.isBlank
  if body.head? = some ';' ∨ operandText? text = some ['A'] then text
  else before ++ (Text.headWord body ++ renameTerm old new (Text.afterWord body))

/-- The label of a line with the blanks before it and the text behind its colon. -/
def labelOf? (line : List Char) : Option (List Char × List Char × List Char) :=
  let before := line.takeWhile Text.isBlank
  let body := line.dropWhile Text.isBlank
  match (Text.headWord body).reverse with
  | ':' :: label =>
    if isSymbol label.reverse then some (before, label.reverse, Text.afterWord body) else none
  | _ => none

def renameLine (line : List Char) : List Char :=
  match labelOf? line with
  | some (before, name, rest) =>
    before ++ (renameName old new name ++ ':' :: renameStatement old new rest)
  | none => renameStatement old new line

end Replace

def instructionWith (mnemonic : String) (operand? : Option Operand) : Except Cause Statement :=
  match branch? mnemonic with
  | some (flag, comparison, digit) =>
    branchStatement mnemonic (.branch flag comparison digit) operand?
  | none =>
    match AluOp.ofMnemonic? mnemonic with
    | some op => aluStatement mnemonic op operand?
    | none =>
      if ExtendedOp.isMnemonic mnemonic then extendedStatement mnemonic operand?
      else .error (.unknownMnemonic mnemonic)

theorem parseInstruction_eq (mnemonic : String) (text : List Char) :
    parseInstruction mnemonic text = operandOf? text >>= instructionWith mnemonic := rfl

theorem withOperand_rename (f : String → String) (i : Instruction) (o : Operand) :
    withOperand i (o.rename f) = (withOperand i o).rename f := by
  obtain ⟨mode, expression?⟩ := o
  cases layout : layout? mode <;> cases expression? <;>
    simp [withOperand, Operand.rename, Statement.rename, layout]

theorem instructionWith_rename (f : String → String) (mnemonic : String)
    (operand? : Option Operand) : instructionWith mnemonic (operand?.map (Operand.rename f))
      = (instructionWith mnemonic operand?).map (Statement.rename f) := by
  have mode (o : Operand) : (o.rename f).mode = o.mode := rfl
  unfold instructionWith
  split
  · cases operand? with
    | none => rfl
    | some o =>
      obtain ⟨mode, expression?⟩ := o
      cases mode <;> cases expression? <;> rfl
  · split
    · cases operand? with
      | none => rfl
      | some o =>
        simp only [aluStatement, Option.map_some, mode, withOperand_rename]
        split
        · rfl
        · split <;> rfl
    · split_ifs
      · cases operand? with
        | none =>
          simp only [extendedStatement, Option.map_none]
          split <;> rfl
        | some o =>
          simp only [extendedStatement, Option.map_some, mode, withOperand_rename]
          split
          · rfl
          · split_ifs <;> rfl
      · rfl

theorem expression?_of_parseInstruction {mnemonic : String} {text : List Char}
    {operand? : Option Operand} {statement : Statement} (read : operandOf? text = .ok operand?)
    (h : parseInstruction mnemonic text = .ok statement) :
    statement.expression? = operand?.bind Operand.expression? := by
  obtain ⟨i, argument?, rfl, -, takes⟩ := parseInstruction_eq_ok read h
  cases takes with
  | nothing _ none => exact none.symm
  | value => rfl
  | target => rfl

theorem expression?_of_parsePhrase_nil {word : List Char} {statement : Statement}
    (read : parsePhrase word [] = .ok statement) : statement.expression? = none := by
  unfold parsePhrase at read
  split at read
  · unfold parseDirective at read
    split at read <;> cases read
  · exact expression?_of_parseInstruction rfl read

theorem expression?_of_accumulator {word : List Char} {statement : Statement}
    (instruction : word.head? ≠ some '.') (read : parsePhrase word ['A'] = .ok statement) :
    statement.expression? = none := by
  unfold parsePhrase at read
  split at read
  · exact absurd rfl instruction
  · exact expression?_of_parseInstruction rfl read

theorem renameTerm_of_ending {old new tail : List Char} (valid : isSymbol old = true)
    (ending : Ending false tail) :
    renameTerm old new tail = tail := by
  have none : renameFront old new [] = [] := renameFront_of_head valid (by simp)
  cases ending with
  | blanks blank =>
    have split : renameTerm old new (tail ++ []) = tail ++ renameFront old new [] :=
      renameTerm_append old new (precedesTerm_of_mem blank) (by simp)
    rwa [none, List.append_nil] at split
  | @comment gap blank separated text =>
    rw [renameTerm_append old new (precedesTerm_of_mem blank) (by rintro _ ⟨⟩; decide),
      renameFront_of_head valid (by rintro _ ⟨⟩; decide)]

section Phrases

variable {old new : List Char} (valid : isSymbol old = true) (valid' : isSymbol new = true)
include valid valid'

private theorem rename_of_parseValue {cs : List Char} {e : Expression}
    (read : parseValue cs = .ok e) (fresh : e.symbol? ≠ some (String.ofList new)) :
    parseValue (renameTerm old new cs) = .ok (e.rename (exchange old new))
      ∧ InPlace old new cs := by
  rw [parseValue_eq_ok_iff, Grammar.parseExpression_eq_ok_iff] at read ⊢
  exact rename_of_denotesExpression valid valid' read fresh

private theorem rename_of_parseDefinition {cs : List Char} {statement : Statement}
    (read : parseDefinition cs = .ok statement)
    (fresh : statement.symbol? ≠ some (String.ofList new)) :
    parseDefinition (renameTerm old new cs) = .ok (statement.rename (exchange old new))
      ∧ InPlace old new cs := by
  obtain ⟨before, value, gap, name, after, e, blank, ink, nonempty, blank', separated, symbol,
    blank'', rfl, parsed, rfl⟩ := parseDefinition_eq_ok_iff.mp read
  have denotes := (Grammar.parseExpression_eq_ok_iff value e).mp parsed
  obtain ⟨denotes', follows⟩ := rename_of_denotesExpression valid valid' denotes fresh
  have marks := precedesTerm_of_mem blank
  have stop : Stops (gap ++ (name ++ after)) :=
    .of_detached (blank'.detached.append fun none => absurd none separated)
  refine ⟨?_, follows.surround marks stop⟩
  rw [follows before _ marks stop, parseDefinition_eq_ok_iff]
  exact ⟨before, _, gap, name, after, _, blank, inked_renameTerm valid' ink,
    renameTerm_ne_nil valid' nonempty, blank', separated, symbol, blank'', rfl,
    (Grammar.parseExpression_eq_ok_iff _ _).mpr denotes', rfl⟩

theorem rename_of_parseDirective {name : String} {argument : List Char} {statement : Statement}
    (nonempty : argument ≠ []) (read : parseDirective name argument = .ok statement)
    (fresh : statement.symbol? ≠ some (String.ofList new)) :
    parseDirective name (renameTerm old new argument) = .ok (statement.rename (exchange old new))
      ∧ InPlace old new argument := by
  have filled : argument.isEmpty = false := by simpa using nonempty
  have filled' : (renameTerm old new argument).isEmpty = false := by
    simpa using renameTerm_ne_nil valid' nonempty
  have layout {directive : String} {layout : Layout}
      (read : parseLayout directive layout argument = .ok statement) :
      parseLayout directive layout (renameTerm old new argument)
        = .ok (statement.rename (exchange old new)) ∧ InPlace old new argument := by
    rw [parseLayout, filled] at read
    obtain ⟨e, value, rfl⟩ := map_eq_ok_iff.mp read
    obtain ⟨value', follows⟩ := rename_of_parseValue valid valid' value fresh
    rw [parseLayout, filled', value']
    exact ⟨rfl, follows⟩
  have whole := read
  unfold parseDirective at read
  split at read
  · rw [filled] at read
    obtain ⟨e, value, rfl⟩ := map_eq_ok_iff.mp read
    obtain ⟨value', follows⟩ := rename_of_parseValue valid valid' value fresh
    refine ⟨?_, follows⟩
    change (if (renameTerm old new argument).isEmpty then _
      else (parseValue (renameTerm old new argument)).map Statement.origin) = _
    rw [filled', value']
    rfl
  · exact rename_of_parseDefinition valid valid' read fresh
  · exact layout read
  · exact layout read
  · unfold parseData at read
    rw [filled] at read
    simp only [Bool.false_eq_true, if_false] at read
    split at read
    · cases read
    · rename_i chars text
      obtain ⟨trytes, codes, rfl⟩ := map_eq_ok_iff.mp read
      obtain ⟨inner, rfl, -⟩ := exists_of_parseString text
      have mark : precedesTerm '"' = false ∧ startsSymbol '"' = false := by decide
      obtain ⟨same, follows⟩ := inPlace_of_head new valid (inner ++ ['"']) mark.1 mark.2
      refine ⟨?_, follows⟩
      rw [same]
      exact whole
  · cases read

theorem rename_of_parsePhrase {word argument : List Char} {statement : Statement}
    (nonempty : argument ≠ []) (solid : Text.Solid argument)
    (read : parsePhrase word argument = .ok statement)
    (fresh : statement.symbol? ≠ some (String.ofList new))
    (operand : word.head? ≠ some '.' → argument ≠ ['A'] ∧ (argument = old → new ≠ ['A'])) :
    parsePhrase word (renameTerm old new argument) = .ok (statement.rename (exchange old new))
      ∧ InPlace old new argument := by
  unfold parsePhrase at read ⊢
  split at read
  · exact rename_of_parseDirective valid valid' nonempty read fresh
  · rename_i instruction
    obtain ⟨other, unlike⟩ := operand fun dot => by
      obtain ⟨name, rfl⟩ := List.head?_eq_some_iff.mp dot
      exact instruction name rfl
    rw [parseInstruction_eq] at read
    obtain ⟨operand?, given, stated⟩ := bind_eq_ok_iff.mp read
    obtain ⟨o, rfl, parsed⟩ : ∃ o, operand? = some o ∧ Operand.parse argument = .ok o := by
      unfold operandOf? at given
      split_ifs at given with empty
      · exact absurd (List.isEmpty_iff.mp empty) nonempty
      · split at given
        · cases given
          exact ⟨_, rfl, ‹_›⟩
        · cases given
    have named : ∀ e ∈ o.expression?, e.symbol? ≠ some (String.ofList new) := by
      intro e member same
      rw [← parseInstruction_eq] at read
      rw [Statement.symbol?, expression?_of_parseInstruction given read] at fresh
      exact fresh (Option.bind_eq_some_iff.mpr ⟨e, member, same⟩)
    obtain ⟨parsed', follows⟩ := rename_of_parseOperand valid valid' solid parsed named other unlike
    have filled : renameTerm old new argument ≠ [] := renameTerm_ne_nil valid' nonempty
    have given' : operandOf? (renameTerm old new argument)
        = .ok (some (o.rename (exchange old new))) := by
      rw [operandOf?, if_neg (by simpa using filled), parsed']
    have renamed := instructionWith_rename (exchange old new)
      (String.ofList (word.map Char.toUpper)) (some o)
    rw [stated] at renamed
    refine ⟨?_, follows⟩
    rw [parseInstruction_eq, given']
    exact renamed

theorem rename_of_behind {word written argument tail : List Char} {statement : Statement}
    (behind : Behind written argument) (read : parsePhrase word argument = .ok statement)
    (fresh : statement.symbol? ≠ some (String.ofList new))
    (operand : word.head? ≠ some '.' → argument ≠ ['A'] ∧ (argument = old → new ≠ ['A']))
    (ending : Ending false tail) : ∃ written' argument',
      renameTerm old new (written ++ tail) = written' ++ tail ∧ Behind written' argument'
        ∧ parsePhrase word argument' = .ok (statement.rename (exchange old new)) := by
  cases behind with
  | nothing =>
    refine ⟨[], [], renameTerm_of_ending valid ending, .nothing, ?_⟩
    rw [statement.rename_of_expression? _ (expression?_of_parsePhrase_nil read), read]
  | @argument gap _ blank separated nonempty solid =>
    obtain ⟨read', follows⟩ := rename_of_parsePhrase valid valid' nonempty solid read fresh operand
    refine ⟨gap ++ renameTerm old new argument, _, ?_, .argument blank separated
      (renameTerm_ne_nil valid' nonempty) (solid_renameTerm valid' solid), read'⟩
    rw [List.append_assoc, List.append_assoc]
    exact follows gap tail (precedesTerm_of_mem blank) (.of_detached ending.detached)

end Phrases

theorem operandText?_of_body {before text tail word written argument : List Char}
    {label? : Option String} {statement? : Option Statement} {name? : Option (List Char)}
    (blank : Text.Blanks before) (body : Body text label? statement?) (ending : Ending false tail)
    (cut : cutLabel text = (name?, word ++ written)) (valid : isWord word = true)
    (behind : Behind written argument) : operandText? (before ++ (text ++ tail))
      = if word.head? = some '.' then none else some argument := by
  obtain ⟨nonempty, solid, closed⟩ := body.spec
  obtain ⟨cs, stripped, trimmed⟩ := trim_of_stripComment blank nonempty solid closed ending
  have filled : word.isEmpty = false := by simpa using ne_nil_of_isWord valid
  have parts : Text.cutAtBlank (word ++ written) = (word, written.drop 1) := by
    rw [Text.cutAtBlank, Text.headWord_append (inked_of_isWord valid) behind.detached,
      Text.afterWord_append (inked_of_isWord valid) behind.detached]
  rw [operandText?, stripped]
  change (if (Text.cutAtBlank (cutLabel (Text.trim cs)).2).1.isEmpty
    || (Text.cutAtBlank (cutLabel (Text.trim cs)).2).1.head? == some '.' then none
    else some (Text.trim (Text.cutAtBlank (cutLabel (Text.trim cs)).2).2)) = _
  simp only [trimmed, cut, parts, filled, Bool.false_or, beq_iff_eq,
    Text.trim_drop_one behind.detached, behind.trim_eq]

theorem renameStatement_append (old new : List Char) {before word rest : List Char}
    (blank : Text.Blanks before) (valid : isWord word = true) (stop : Text.Detached rest) :
    renameStatement old new (before ++ (word ++ rest))
      = if operandText? (before ++ (word ++ rest)) = some ['A'] then before ++ (word ++ rest)
        else before ++ (word ++ renameTerm old new rest) := by
  have ink := inked_of_isWord valid
  obtain ⟨c, cs, same⟩ := List.exists_cons_of_ne_nil (ne_nil_of_isWord valid)
  have span : (before ++ (word ++ rest)).takeWhile Text.isBlank = before
      ∧ (before ++ (word ++ rest)).dropWhile Text.isBlank = word ++ rest := by
    rw [same] at ink ⊢
    exact Text.span_blanks blank (ink c List.mem_cons_self)
  have other : (word ++ rest).head? ≠ some ';' := by
    rw [same]
    rintro ⟨⟩
    exact absurd (isWordChar_of_mem valid ';' (by simp [same])) (by decide)
  simp only [renameStatement, span, other, false_or, Text.headWord_append ink stop,
    Text.afterWord_append ink stop]

section Lines

variable {old new : List Char} (valid : isSymbol old = true)
include valid

theorem renameStatement_of_ending {line : List Char} (ending : Ending true line) :
    renameStatement old new line = line := by
  unfold renameStatement
  cases ending with
  | blanks blank =>
    have none : renameTerm old new [] = [] :=
      renameTerm_of_ending valid (.blanks Text.blanks_nil)
    have front : line.takeWhile Text.isBlank = line := List.takeWhile_eq_self_iff.mpr blank
    have rest : line.dropWhile Text.isBlank = [] := List.dropWhile_eq_nil_iff.mpr blank
    simp [front, rest, Text.headWord, Text.afterWord, none]
  | @comment gap blank separated text =>
    rw [(Text.span_blanks blank (by decide)).2, if_pos (.inl rfl)]

theorem reads_renameStatement (valid' : isSymbol new = true) {line : List Char}
    {statement? : Option Statement} (reads : Reads line none statement?)
    (fresh : ∀ statement ∈ statement?, statement.symbol? ≠ some (String.ofList new))
    (unlike : new = ['A'] → operandText? line ≠ some old) :
    Reads (renameStatement old new line) none
      (statement?.map (Statement.rename (exchange old new))) := by
  cases reads with
  | empty ending =>
    rw [renameStatement_of_ending valid ending]
    exact .empty ending
  | @body before text tail _ _ blank body ending =>
    cases body with
    | @statement _ statement phrase =>
      have body := Body.statement phrase
      have cut := cutLabel_phrase phrase
      obtain ⟨behind, read⟩ := phrase
      rename_i word written argument
      have word_valid := isWord_of_parsePhrase read
      have operand := operandText?_of_body blank body ending cut word_valid behind
      have stop : Text.Detached (written ++ tail) :=
        behind.detached.append fun _ => ending.detached
      rw [List.append_assoc] at operand unlike ⊢
      rw [renameStatement_append old new blank word_valid stop, operand]
      rw [operand] at unlike
      by_cases bare : (if word.head? = some '.' then none else some argument) = some ['A']
      · rw [if_pos bare]
        split_ifs at bare with directive
        obtain rfl := Option.some.inj bare
        have same := statement.rename_of_expression? (exchange old new)
          (expression?_of_accumulator directive read)
        rw [Option.map_some, same]
        exact (reads_word_iff blank word_valid stop).mpr
          ⟨rfl, written, tail, ['A'], statement, rfl, behind, ending, read, rfl⟩
      · rw [if_neg bare]
        have operand (instruction : word.head? ≠ some '.') :
            argument ≠ ['A'] ∧ (argument = old → new ≠ ['A']) := by
          rw [if_neg instruction] at bare unlike
          exact ⟨fun same => bare (congrArg some same),
            fun same accumulator => unlike accumulator (congrArg some same)⟩
        obtain ⟨written', argument', renamed, behind', read'⟩ :=
          rename_of_behind valid valid' behind read (fresh statement rfl) operand ending
        rw [renamed]
        exact (reads_word_iff blank word_valid
          (behind'.detached.append fun _ => ending.detached)).mpr
          ⟨rfl, written', tail, argument', _, rfl, behind', ending, read', rfl⟩

end Lines

theorem labelOf?_eq_some_iff {line before name rest : List Char} :
    labelOf? line = some (before, name, rest) ↔ Text.Blanks before ∧ isSymbol name = true
      ∧ Text.Detached rest ∧ line = before ++ (name ++ ':' :: rest) := by
  constructor
  · intro h
    simp only [labelOf?] at h
    split at h
    · rename_i label reversed
      split_ifs at h with valid
      cases h
      refine ⟨fun c member => List.mem_takeWhile_imp member, valid, Text.detached_afterWord _, ?_⟩
      have head := List.reverse_eq_iff.mp reversed
      rw [List.reverse_cons] at head
      rw [List.append_cons, ← head, Text.headWord_append_afterWord, List.takeWhile_append_dropWhile]
    · cases h
  · rintro ⟨blank, valid, stop, rfl⟩
    have ink := inked_labelWord valid
    obtain ⟨c, cs, same⟩ := List.exists_cons_of_ne_nil (ne_nil_of_isWord (isWord_of_isSymbol valid))
    have span : (before ++ (name ++ ':' :: rest)).takeWhile Text.isBlank = before
        ∧ (before ++ (name ++ ':' :: rest)).dropWhile Text.isBlank = name ++ [':'] ++ rest := by
      have first := ink c (by simp [same])
      rw [← List.append_cons, same]
      exact Text.span_blanks blank first
    simp only [labelOf?, span, Text.headWord_append ink stop, Text.afterWord_append ink stop,
      List.reverse_concat, List.reverse_reverse, valid, if_true]

theorem operandText?_label {before name rest : List Char} {statement? : Option Statement}
    (blank : Text.Blanks before) (valid : isSymbol name = true) (stop : Text.Detached rest)
    (reads : Reads rest none statement?) {operand : List Char}
    (h : operandText? rest = some operand) :
    operandText? (before ++ (name ++ ':' :: rest)) = some operand := by
  cases reads with
  | empty ending =>
    obtain ⟨gap, blank', stripped⟩ := ending.stripComment_append Closed.nil
    rw [List.nil_append, List.nil_append] at stripped
    simp [operandText?, stripped, Text.trim_of_blanks blank', cutLabel, Text.cutAtBlank,
      Text.headWord, Except.toOption] at h
  | @body gap text tail _ _ blank' body ending =>
    cases body with
    | statement phrase =>
      have separated := phrase.separated stop
      have unlabelled := Body.statement phrase
      have labelled := Body.labelled valid blank' separated phrase
      have cut := cutLabel_phrase phrase
      have cut' := cutLabel_labelled valid blank' separated phrase
      obtain ⟨behind, read⟩ := phrase
      have word := isWord_of_parsePhrase read
      rw [operandText?_of_body blank' unlabelled ending cut word behind] at h
      have whole := operandText?_of_body blank labelled ending cut' word behind
      rw [h] at whole
      simpa using whole

theorem detached_renameStatement {old new rest : List Char} (valid : isSymbol old = true)
    (stop : Text.Detached rest) : Text.Detached (renameStatement old new rest) := by
  cases rest with
  | nil =>
    rw [renameStatement_of_ending valid (.blanks Text.blanks_nil)]
    exact stop
  | cons c rest =>
    have blank := stop c rfl
    simp only [renameStatement, List.takeWhile_cons_of_pos blank]
    split_ifs
    · exact stop
    · exact stop

/-- A line with the name of a label replaced holds what the line holds, under the new name. -/
theorem reads_renameLine {old new line : List Char} {label? : Option String}
    {statement? : Option Statement} (valid : isSymbol old = true) (valid' : isSymbol new = true)
    (reads : Reads line label? statement?) (other : label? ≠ some (String.ofList new))
    (fresh : ∀ statement ∈ statement?, statement.symbol? ≠ some (String.ofList new))
    (unlike : new = ['A'] → operandText? line ≠ some old) :
    Reads (renameLine old new line) (label?.map (exchange old new))
      (statement?.map (Statement.rename (exchange old new))) := by
  unfold renameLine
  split
  · rename_i before name rest found
    obtain ⟨blank, symbol, stop, rfl⟩ := labelOf?_eq_some_iff.mp found
    obtain ⟨rfl, behind⟩ := (reads_label_iff blank symbol stop).mp reads
    have stop' : Text.Detached (renameStatement old new rest) :=
      detached_renameStatement valid stop
    refine (reads_label_iff blank (isSymbol_renameName valid' symbol) stop').mpr ⟨?_, ?_⟩
    · rw [Option.map_some, exchange_ofList fun same => other (congrArg some same)]
    · exact reads_renameStatement valid valid' behind fresh fun accumulator operand =>
        unlike accumulator (operandText?_label blank symbol stop behind operand)
  · rename_i none
    cases label? with
    | none => exact reads_renameStatement valid valid' reads fresh unlike
    | some label =>
      obtain ⟨before, name, rest, blank, symbol, stop, -, same⟩ := reads.exists_label
      rw [labelOf?_eq_some_iff.mpr ⟨blank, symbol, stop, same⟩] at none
      cases none

def Statement.defined? : Statement → Option String
  | .define name _ => some name
  | _ => none

/-- The symbols that the lines define or mention. -/
def symbolsOf (texts : List (List Char)) : List String :=
  labelsOf texts ++ (statementsOf texts).filterMap Statement.defined?
    ++ (statementsOf texts).filterMap Statement.symbol?

theorem exists_of_mem_definedOf {texts : List (List Char)} {name : String}
    (h : name ∈ definedOf texts) : ∃ base ∈ (statementsOf texts).filterMap Statement.defined?,
      name = base ∨ name = base ++ ".low" ∨ name = base ++ ".high" := by
  obtain ⟨statement, member, named⟩ := List.mem_flatMap.mp h
  cases statement with
  | define base e =>
    refine ⟨base, List.mem_filterMap.mpr ⟨_, member, rfl⟩, ?_⟩
    simpa [Statement.names] using named
  | _ => cases named

theorem isSymbol_of_mem_labelsOf {texts : List (List Char)} {name : List Char}
    (h : String.ofList name ∈ labelsOf texts) : isSymbol name = true := by
  obtain ⟨text, -, found⟩ := List.mem_filterMap.mp h
  obtain ⟨⟨label?, statement?⟩, read, rfl⟩ := Option.bind_eq_some_iff.mp found
  obtain ⟨-, symbol, -, -, valid, -, same, -⟩ := (contents?_eq_some_iff.mp read).exists_label
  rw [String.ofList_injective same]
  exact valid

/-- A source with the name of a label replaced, in its line and in every expression that mentions
it, assembles to the same program. The new name is one that nothing else bears, and if it is `A`
then the label is nowhere the whole operand of an instruction. -/
theorem assemble_of_renamed_label {source source' : List Char} {p : Program} {old new : List Char}
    (assembled : assemble source = .ok p)
    (label : String.ofList old ∈ labelsOf (Text.lines source)) (valid : isSymbol new = true)
    (dotless : '.' ∉ new) (fresh : String.ofList new ∉ symbolsOf (Text.lines source))
    (unlike : new = ['A'] → ∀ line ∈ Text.lines source, operandText? line ≠ some old)
    (renamed : Text.lines source' = (Text.lines source).map (renameLine old new)) :
    assemble source' = .ok p := by
  obtain ⟨s, surveyed, -⟩ := exists_survey_of_assemble assembled
  simp only [symbolsOf, List.mem_append, not_or] at fresh
  obtain ⟨⟨newLabel, newDefined⟩, newMentioned⟩ := fresh
  refine assemble_of_renames (exchange_injective old new) assembled renamed ?_ ?_
  · intro line member label? statement? found
    have reads := contents?_eq_some_iff.mp found
    refine contents?_eq_some_iff.mpr
      (reads_renameLine (isSymbol_of_mem_labelsOf label) valid reads ?_ ?_ fun accumulator =>
        unlike accumulator line member)
    · rintro rfl
      exact newLabel (List.mem_filterMap.mpr ⟨line, member, by rw [found]; rfl⟩)
    · rintro statement rfl mentioned
      exact newMentioned (List.mem_filterMap.mpr ⟨statement,
        List.mem_filterMap.mpr ⟨line, member, by rw [found]; rfl⟩, mentioned⟩)
  · -- The old name is a label and thus not defined by a value, the new one is not even a half.
    intro name member
    refine Equiv.swap_apply_of_ne_of_ne ?_ ?_
    · rintro rfl
      exact Survey.not_mem_definedOf surveyed label member
    · rintro rfl
      obtain ⟨base, defined, same | half | half⟩ := exists_of_mem_definedOf member
      · exact newDefined (same ▸ defined)
      · apply dotless
        rw [← String.toList_ofList (l := new), half]
        simp
      · apply dotless
        rw [← String.toList_ofList (l := new), half]
        simp

theorem assemble_of_renamed_table :
    let source := ("loop: LDA table,X ; table\n BNE loop\ntable: .data \"table\"\n"
      ++ ".equ table+1 next\n JMP (next)\n.tryte <table").toList
    let source' := ("loop: LDA A,X ; table\n BNE loop\nA: .data \"table\"\n"
      ++ ".equ A+1 next\n JMP (next)\n.tryte <A").toList
    let p : Program := ⟨0, [-109, 5, 0, 10, -5, 61, 42, 43, 53, 46, 104, 6, 0, 5].map
      fun n => Tryte.ofDigits n 0⟩
    assemble source = .ok p ∧ String.ofList "table".toList ∈ labelsOf (Text.lines source)
      ∧ isSymbol ['A'] = true ∧ '.' ∉ ['A'] ∧ String.ofList ['A'] ∉ symbolsOf (Text.lines source)
      ∧ (['A'] = ['A'] → ∀ line ∈ Text.lines source, operandText? line ≠ some "table".toList)
      ∧ Text.lines source' = (Text.lines source).map (renameLine "table".toList ['A'])
      ∧ assemble source' = .ok p := by
  intro source source' p
  have assembled : assemble source = .ok p := by decide +kernel
  have label : String.ofList "table".toList ∈ labelsOf (Text.lines source) := by decide +kernel
  have valid : isSymbol ['A'] = true := by decide
  have dotless : '.' ∉ ['A'] := by decide
  have fresh : String.ofList ['A'] ∉ symbolsOf (Text.lines source) := by decide +kernel
  have unlike : ['A'] = ['A'] → ∀ line ∈ Text.lines source,
      operandText? line ≠ some "table".toList := by
    decide +kernel
  have renamed : Text.lines source'
      = (Text.lines source).map (renameLine "table".toList ['A']) := by
    decide +kernel
  exact ⟨assembled, label, valid, dotless, fresh, unlike, renamed,
    assemble_of_renamed_label assembled label valid dotless fresh unlike renamed⟩

/-- A label that is the whole operand of an instruction, given the name of the accumulator. -/
theorem renamed_to_accumulator :
    let source := "start:\nINC start".toList
    let source' := "A:\nINC A".toList
    String.ofList "start".toList ∈ labelsOf (Text.lines source) ∧ isSymbol ['A'] = true
      ∧ '.' ∉ ['A'] ∧ String.ofList ['A'] ∉ symbolsOf (Text.lines source)
      ∧ Text.lines source' = (Text.lines source).map (renameLine "start".toList ['A'])
      ∧ assemble source = .ok ⟨0, [6, 0, 0].map fun n => Tryte.ofDigits n 0⟩
      ∧ assemble source' = .ok ⟨0, [Tryte.ofDigits 9 0]⟩ := by
  decide +kernel

end TernaryMachine.Assembly
