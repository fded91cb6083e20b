import TernaryMachine.Proofs.Denotation
import TernaryMachine.Proofs.SourceText

/-!
The text of an instruction is read as that instruction with that operand: every addressing mode puts
its punctuation where the reader looks for it, and every mnemonic, long or short, names one
instruction.
-/

set_option autoImplicit false
set_option relaxedAutoImplicit false

namespace TernaryMachine

namespace Assembly

theorem isPlain_of_isDigit {c : Char} (h : Text.isDigit c = true) : isPlain c = true := by
  obtain ⟨d, small, rfl⟩ := Text.exists_digitChar_of_isDigit h
  interval_cases d <;> decide

theorem isPlain_of_mem_decimal {n : Int} {c : Char} (h : c ∈ Text.decimal n) :
    isPlain c = true := by
  rcases Text.mem_decimal h with rfl | digit
  · decide
  · exact isPlain_of_isDigit digit

theorem isPlain_of_mem_literal {n : Int} {c : Char} (h : c ∈ Radix.ternary.write n) :
    isPlain c = true := by
  rcases Radix.mem_write_ternary h with rfl | rfl | rfl <;> decide

private theorem trim_of_plain {cs : List Char} (h : ∀ c ∈ cs, isPlain c = true) :
    Text.trim cs = cs :=
  Text.trim_of_ink (fun c hc => isInk_of_isPlain (h c (List.mem_of_head? hc)))
    fun c hc => isInk_of_isPlain (h c (List.mem_of_getLast? hc))

private theorem exists_decimal_eq_cons (n : Int) : ∃ c cs, Text.decimal n = c :: cs
    ∧ (c = '-' ∨ Text.isDigit c = true) := by
  obtain ⟨c, cs, e⟩ := List.exists_cons_of_ne_nil (Text.decimal_ne_nil n)
  exact ⟨c, cs, e, Text.mem_decimal (by rw [e]; exact List.mem_cons_self)⟩

namespace Expression

private theorem parse_of_term {c : Char} {cs : List Char} {t : Term}
    (plain : ∀ d ∈ c :: cs, isPlain d = true) (low : c ≠ '<') (high : c ≠ '>')
    (read : readTerm (c :: cs) = .ok t) : parse (c :: cs) = .ok ⟨.full, t⟩ := by
  unfold parse
  rw [trim_of_plain plain]
  split
  · contradiction
  · exact absurd (List.cons.inj ‹_›).1 low
  · exact absurd (List.cons.inj ‹_›).1 high
  · rw [read]
    rfl

private theorem parse_of_decimal {c : Char} {cs : List Char} {n : Int}
    (plain : ∀ d ∈ c :: cs, isPlain d = true)
    (first : c = '-' ∨ c = '+' ∨ Text.isDigit c = true)
    (read : Text.signed32? (c :: cs) = some n) : parse (c :: cs) = .ok (ofNumber n) := by
  have mark : c ≠ '<' ∧ c ≠ '>' ∧ c ≠ '%' ∧ c ≠ '$' ∧ c ≠ '&' ∧ c ≠ '\x27'
      ∧ startsSymbol c = false := by
    rcases first with rfl | rfl | digit
    · decide
    · decide
    · obtain ⟨d, small, rfl⟩ := Text.exists_digitChar_of_isDigit digit
      interval_cases d <;> decide
  obtain ⟨low, high, trits, nonary, base27, character, symbol⟩ := mark
  apply parse_of_term plain low high
  unfold readTerm
  split
  · contradiction
  · exact absurd (List.cons.inj ‹_›).1 trits
  · exact absurd (List.cons.inj ‹_›).1 nonary
  · exact absurd (List.cons.inj ‹_›).1 base27
  · exact absurd (List.cons.inj ‹_›).1 character
  · rename_i e
    obtain ⟨rfl, rfl⟩ := List.cons.inj e
    rw [symbol, readDecimal, read]
    rfl

theorem parse_decimal {n : Int} (h : Signed32.InRange n) :
    parse (Text.decimal n) = .ok (ofNumber n) := by
  have read := Text.signed32?_decimal h
  have plain : ∀ d ∈ Text.decimal n, isPlain d = true := fun _ => isPlain_of_mem_decimal
  obtain ⟨c, cs, e, first⟩ := exists_decimal_eq_cons n
  rw [e] at read plain ⊢
  exact parse_of_decimal plain (first.imp_right .inr) read

theorem parse_plus_decimal {n : Int} (positive : 0 < n) (h : Signed32.InRange n) :
    parse ('+' :: Text.decimal n) = .ok (ofNumber n) := by
  refine parse_of_decimal ?_ (.inr (.inl rfl)) (Text.signed32?_plus_decimal positive h)
  intro d hd
  rcases List.mem_cons.mp hd with rfl | hd
  · decide
  · exact isPlain_of_mem_decimal hd

theorem parse_literal {n : Int} (h : Signed32.InRange n) :
    parse ('%' :: Radix.ternary.write n) = .ok (ofNumber n) := by
  refine parse_of_term ?_ (by decide) (by decide) ?_
  · intro d hd
    rcases List.mem_cons.mp hd with rfl | hd
    · decide
    · exact isPlain_of_mem_literal hd
  · simp only [readTerm, readNumeral, Radix.read_write _ h]
    rfl

end Expression

namespace Operand

private theorem before?_append (ending : Char × Char × Char) (cs : List Char) (a b c : Char) :
    before? ending (cs ++ [a, b, c])
      = if (a.toUpper, b.toUpper, c.toUpper) = ending then some cs else none := by
  simp [before?]

private theorem before?_of_last {ending : Char × Char × Char} {c : Char}
    (h : c.toUpper ≠ ending.2.2) (cs : List Char) : before? ending (cs ++ [c]) = none := by
  unfold before?
  rw [List.reverse_append]
  split
  · rename_i last b a rest e
    obtain rfl : c = last := (List.cons.inj e).1
    exact if_neg fun same => h (congrArg (fun p => p.2.2) same)
  · rfl

private theorem before?_of_last_but_one {ending : Char × Char × Char} {b : Char}
    (h : b.toUpper ≠ ending.2.1) (cs : List Char) (c : Char) :
    before? ending (cs ++ [b, c]) = none := by
  unfold before?
  rw [List.reverse_append]
  split
  · rename_i last second a rest e
    obtain rfl : b = second := (List.cons.inj (List.cons.inj e).2).1
    exact if_neg fun same => h (congrArg (fun p => p.2.1) same)
  · rfl

private theorem toUpper_of_isDigit {c : Char} (h : Text.isDigit c = true) :
    c.toUpper ≠ 'X' ∧ c.toUpper ≠ 'Y' ∧ c ≠ 'X' ∧ c ≠ 'x' ∧ c ≠ 'Y' ∧ c ≠ 'y' := by
  obtain ⟨d, small, rfl⟩ := Text.exists_digitChar_of_isDigit h
  interval_cases d <;> decide

private theorem splitIndex_decimal (n : Int) :
    splitIndex (Text.decimal n) = (.absolute, Text.decimal n) := by
  obtain ⟨cs, d, e, digit⟩ := Text.exists_decimal_eq_append n
  obtain ⟨-, -, noX, nox, noY, noy⟩ := toUpper_of_isDigit digit
  unfold splitIndex
  rw [e, List.reverse_append]
  split
  · rename_i c inner same
    obtain rfl : d = c := (List.cons.inj same).1
    simp [noX, nox, noY, noy]
  · rfl

private theorem splitParenthesised_decimal (n : Int) :
    splitParenthesised (Text.decimal n ++ [')']) = some (.indirect, Text.decimal n) := by
  obtain ⟨cs, d, e, digit⟩ := Text.exists_decimal_eq_append n
  have first : before? (')', ',', 'Y') (Text.decimal n ++ [')']) = none :=
    before?_of_last (by decide) _
  have second : before? (',', 'X', ')') (Text.decimal n ++ [')']) = none := by
    rw [e, List.append_assoc]
    exact before?_of_last_but_one (toUpper_of_isDigit digit).1 cs ')'
  simp [splitParenthesised, first, second]

private def inner (mode : AddressMode) (n : Int) : List Char :=
  match mode with
  | .accumulator => []
  | .immediate => '%' :: Radix.ternary.write n
  | _ => Text.decimal n

private theorem split_of_decimal {n : Int} (rest : List Char) :
    split (Text.decimal n ++ rest) = some (splitIndex (Text.decimal n ++ rest)) := by
  obtain ⟨c, cs, e, first⟩ := exists_decimal_eq_cons n
  have mark : c ≠ '#' ∧ c ≠ '(' := by
    rcases first with rfl | digit
    · decide
    · obtain ⟨d, small, rfl⟩ := Text.exists_digitChar_of_isDigit digit
      interval_cases d <;> decide
  rw [e, List.cons_append]
  unfold split
  split
  · exact absurd (List.cons.inj ‹_›).1 mark.1
  · exact absurd (List.cons.inj ‹_›).1 mark.2
  · rfl

private theorem split_write {mode : AddressMode} (h : mode ≠ .accumulator) (n : Int) :
    split (mode.write n) = some (mode, inner mode n) := by
  cases mode with
  | accumulator => contradiction
  | immediate => rfl
  | absolute =>
    have plain := split_of_decimal (n := n) []
    rw [List.append_nil, splitIndex_decimal] at plain
    exact plain
  | absoluteX =>
    have indexed : splitIndex (Text.decimal n ++ [',', 'X']) = (.absoluteX, Text.decimal n) := by
      simp [splitIndex]
    exact (split_of_decimal _).trans (congrArg some indexed)
  | absoluteY =>
    have indexed : splitIndex (Text.decimal n ++ [',', 'Y']) = (.absoluteY, Text.decimal n) := by
      simp [splitIndex]
    exact (split_of_decimal _).trans (congrArg some indexed)
  | indirect => exact splitParenthesised_decimal n
  | indexedXIndirect => simp [AddressMode.write, split, splitParenthesised, before?_append, inner]
  | indirectIndexedY => simp [AddressMode.write, split, splitParenthesised, before?_append, inner]

theorem isPlain_of_mem_write (mode : AddressMode) (n : Int) :
    ∀ c ∈ mode.write n, isPlain c = true := by
  have decimal : (Text.decimal n).all isPlain = true :=
    List.all_eq_true.mpr fun _ => isPlain_of_mem_decimal
  have literal : (Radix.ternary.write n).all isPlain = true :=
    List.all_eq_true.mpr fun _ => isPlain_of_mem_literal
  have all : (mode.write n).all isPlain = true := by
    cases mode <;> simp +decide [AddressMode.write, decimal, literal, -List.all_eq_true]
  exact List.all_eq_true.mp all

private theorem write_ne_bare {mode : AddressMode} (h : mode ≠ .accumulator) (n : Int) :
    mode.write n ≠ ['A'] := by
  cases mode with
  | accumulator => contradiction
  | absolute =>
    intro same
    have letter : 'A' ∈ Text.decimal n := by
      change Text.decimal n = ['A'] at same
      rw [same]
      exact List.mem_singleton_self 'A'
    rcases Text.mem_decimal letter with dash | digit
    · exact absurd dash (by decide)
    · exact absurd digit (by decide)
  | _ => simp [AddressMode.write, List.append_eq_singleton_iff]

private theorem parse_of_split {cs inner : List Char} {mode : AddressMode} {e : Expression}
    (plain : ∀ c ∈ cs, isPlain c = true) (nonempty : cs ≠ []) (bare : cs ≠ ['A'])
    (found : split cs = some (mode, inner)) (read : Expression.parse inner = .ok e) :
    parse cs = .ok ⟨mode, some e⟩ := by
  have filled : cs.isEmpty = false := by simp [nonempty]
  unfold parse
  simp only [trim_of_plain plain, filled, bare, found, read, Bool.false_eq_true, if_false]

theorem parse_write (mode : AddressMode) {n : Int} (h : Signed32.InRange n) :
    parse (mode.write n)
      = .ok ⟨mode, if mode = .accumulator then none else some (.ofNumber n)⟩ := by
  by_cases acc : mode = .accumulator
  · subst acc
    rfl
  · have read : Expression.parse (inner mode n) = .ok (.ofNumber n) := by
      cases mode with
      | accumulator => contradiction
      | immediate => exact Expression.parse_literal h
      | _ => exact Expression.parse_decimal h
    have nonempty : mode.write n ≠ [] := by
      cases mode <;> simp [AddressMode.write, Text.decimal_ne_nil]
    rw [if_neg acc]
    exact parse_of_split (isPlain_of_mem_write mode n) nonempty (write_ne_bare acc n)
      (split_write acc n) read

theorem isPlain_of_mem_writeDisplacement (n : Int) :
    ∀ c ∈ Instruction.writeDisplacement n, isPlain c = true := by
  have decimal : (Text.decimal n).all isPlain = true :=
    List.all_eq_true.mpr fun _ => isPlain_of_mem_decimal
  have all : (Instruction.writeDisplacement n).all isPlain = true := by
    unfold Instruction.writeDisplacement
    split <;> simp +decide [decimal, -List.all_eq_true]
  exact List.all_eq_true.mp all

theorem parse_writeDisplacement {n : Int} (h : Signed32.InRange n) :
    parse (Instruction.writeDisplacement n) = .ok ⟨.immediate, some (.ofNumber n)⟩ := by
  have plain := isPlain_of_mem_writeDisplacement n
  unfold Instruction.writeDisplacement at plain ⊢
  split
  · rename_i positive
    rw [if_pos positive] at plain
    exact parse_of_split plain (by simp) (by simp) rfl (Expression.parse_plus_decimal positive h)
  · rename_i negative
    rw [if_neg negative] at plain
    exact parse_of_split plain (by simp) (by simp) rfl (Expression.parse_decimal h)

end Operand

end Assembly

namespace Instruction

open Assembly

def mnemonic : Instruction → String
  | .alu op _ => op.mnemonic
  | .branch flag comparison digit =>
    (branchInShort? (branchMnemonic flag comparison digit)).getD
      (branchMnemonic flag comparison digit)
  | .extended op => op.mnemonic

def operandText (i : Instruction) (value : Int) : List Char :=
  match i with
  | .alu _ mode => mode.write value
  | .branch .. => writeDisplacement value
  | .extended op => (op.mode?.map fun mode => mode.write value).getD []

private theorem write_eq_writtenLine (i : Instruction) (value : Int) :
    i.write value = writtenLine i.mnemonic.toList (i.operandText value) := by
  have line (word : String) (mode : AddressMode) :
      writtenLine word.toList (mode.write value) = word.toList ++ ' ' :: mode.write value := by
    unfold writtenLine
    cases mode <;> simp [AddressMode.write, Text.decimal_ne_nil]
  cases i with
  | alu op mode => exact (line op.mnemonic mode).symm
  | branch flag comparison digit =>
    simp only [write, operandText, mnemonic, writtenLine, writeDisplacement]
    split <;> rfl
  | extended op =>
    simp only [write, operandText, mnemonic]
    cases op.mode? with
    | none => rfl
    | some mode => exact (line op.mnemonic mode).symm

/-- A letter that upper case does not change and that begins no directive and ends no label. -/
private def isMnemonicChar (c : Char) : Bool :=
  isPlain c && c != ':' && c != '.' && c.toUpper == c

private def isMnemonicText (cs : List Char) : Bool := !cs.isEmpty && cs.all isMnemonicChar

private theorem isMnemonicText_alu (op : AluOp) : isMnemonicText op.mnemonic.toList = true := by
  cases op <;> decide +kernel

private theorem isMnemonicText_mnemonic (i : Instruction) :
    isMnemonicText i.mnemonic.toList = true := by
  cases i with
  | alu op mode => exact isMnemonicText_alu op
  | branch flag comparison digit =>
    cases flag <;> cases comparison <;> cases digit <;> decide +kernel
  | extended op => cases op <;> decide +kernel

private theorem isMnemonicChar_of_mem (i : Instruction) :
    ∀ c ∈ i.mnemonic.toList, isMnemonicChar c = true := by
  have h := i.isMnemonicText_mnemonic
  simp only [isMnemonicText, Bool.and_eq_true] at h
  exact List.all_eq_true.mp h.2

private theorem mnemonic_ne_nil (i : Instruction) : i.mnemonic.toList ≠ [] := by
  have h := i.isMnemonicText_mnemonic
  simp only [isMnemonicText, Bool.and_eq_true, Bool.not_eq_true', List.isEmpty_eq_false_iff] at h
  exact h.1

private theorem written (i : Instruction) (value : Int) :
    Written i.mnemonic.toList (i.operandText value) where
  nonempty := i.mnemonic_ne_nil
  plain c hc := by
    have h := i.isMnemonicChar_of_mem c hc
    simp only [isMnemonicChar, Bool.and_eq_true] at h
    exact h.1.1.1
  unlabelled hc := absurd (i.isMnemonicChar_of_mem ':' hc) (by decide)
  plain_argument := by
    cases i with
    | alu op mode => exact Operand.isPlain_of_mem_write mode value
    | branch flag comparison digit => exact Operand.isPlain_of_mem_writeDisplacement value
    | extended op =>
      simp only [operandText]
      cases op.mode? with
      | none => simp
      | some mode => exact Operand.isPlain_of_mem_write mode value

private theorem toUpper_mnemonic (i : Instruction) :
    String.ofList (i.mnemonic.toList.map Char.toUpper) = i.mnemonic := by
  have same : i.mnemonic.toList.map Char.toUpper = i.mnemonic.toList := by
    conv => rhs; rw [← List.map_id i.mnemonic.toList]
    apply List.map_congr_left
    intro c hc
    have h := i.isMnemonicChar_of_mem c hc
    simp only [isMnemonicChar, Bool.and_eq_true, beq_iff_eq] at h
    exact h.2
  rw [same, String.ofList_toList]

private theorem parse_written (i : Instruction) (value : Int) :
    Line.parse (i.write value)
      = .ok ⟨none, (parseInstruction i.mnemonic (i.operandText value)).map some⟩ := by
  rw [write_eq_writtenLine, (i.written value).parse_instruction, toUpper_mnemonic]
  intro dot
  exact absurd (i.isMnemonicChar_of_mem '.' (List.mem_of_head? dot)) (by decide)

def statement (i : Instruction) (value : Int) : Statement :=
  match i.operandSize with
  | 0 => .instruction i none
  | 1 => .instruction i (some (.tryte, .ofNumber value))
  | _ => .instruction i (some (.word, .ofNumber value))

private theorem withOperand_eq_statement {i : Instruction} {mode : AddressMode}
    (h : i.mode? = some mode) (value : Int) :
    withOperand i ⟨mode, if mode = .accumulator then none else some (.ofNumber value)⟩
      = i.statement value := by
  have size : i.operandSize = mode.operandSize := by
    rw [operandSize, Instruction.mode, h]
    rfl
  rw [statement, size]
  cases mode <;> rfl

private theorem operandOf?_write (mode : AddressMode) {value : Int}
    (h : Signed32.InRange value) : operandOf? (mode.write value)
      = .ok (some ⟨mode, if mode = .accumulator then none else some (.ofNumber value)⟩) := by
  have filled : (mode.write value).isEmpty = false := by
    cases mode <;> simp [AddressMode.write, Text.decimal_ne_nil]
  unfold operandOf?
  rw [filled, Operand.parse_write mode h]
  rfl

private theorem operandOf?_writeDisplacement {value : Int} (h : Signed32.InRange value) :
    operandOf? (writeDisplacement value) = .ok (some ⟨.immediate, some (.ofNumber value)⟩) := by
  have filled : (writeDisplacement value).isEmpty = false := by
    unfold writeDisplacement
    split <;> rfl
  unfold operandOf?
  rw [filled, Operand.parse_writeDisplacement h]
  rfl

private theorem branch?_mnemonic (flag : Flag) (comparison : Comparison) (digit : Trit) :
    branch? (Instruction.branch flag comparison digit).mnemonic
      = some (flag, comparison, digit) := by
  apply branch?_of_mem_branchNames
  change (branchInShort? (branchMnemonic flag comparison digit)).getD _ ∈ _
  cases short : branchInShort? (branchMnemonic flag comparison digit) with
  | none => exact List.mem_cons_self
  | some name =>
    refine List.mem_cons_of_mem _ (List.mem_cons_of_mem _ (Option.mem_toList.mpr ?_))
    exact short

private theorem lookups_mnemonic (op : AluOp) :
    branch? op.mnemonic = none ∧ AluOp.ofMnemonic? op.mnemonic = some op :=
  lookups_of_mem_names op _ op.mnemonic_mem_names

private theorem inRange_of_holds {size : Nat} {value : Int} (h : Holds size value) :
    Signed32.InRange value := by
  unfold Holds at h
  simp only [Signed32.InRange, Signed32.minValue, Signed32.maxValue]
  split at h
  · omega
  · omega
  · omega

private theorem parseInstruction_alu {op : AluOp} {mode : AddressMode} {value : Int}
    (hasOpcode : HasOpcode (.alu op mode)) (range : Signed32.InRange value) :
    parseInstruction op.mnemonic (mode.write value) = .ok (statement (.alu op mode) value) := by
  obtain ⟨digit, hdigit⟩ := Option.isSome_iff_exists.mp hasOpcode
  obtain ⟨noBranch, known⟩ := lookups_mnemonic op
  unfold parseInstruction
  rw [operandOf?_write mode range]
  simp only [bind, Except.bind, noBranch, known, aluStatement, hdigit]
  exact congrArg Except.ok (withOperand_eq_statement rfl value)

private theorem parseInstruction_extended {op : ExtendedOp} {value : Int}
    (range : Signed32.InRange value) :
    parseInstruction op.mnemonic (operandText (.extended op) value)
      = .ok (statement (.extended op) value) := by
  unfold parseInstruction
  cases halu : op.alu? with
  | some alu =>
    obtain ⟨name, mode, hmode, noDigit, found⟩ := alias_spec op alu halu
    have text : operandText (.extended op) value = mode.write value := by
      simp only [operandText, hmode, Option.map_some, Option.getD_some]
    obtain ⟨noBranch, known⟩ := lookups_mnemonic alu
    rw [text, name, operandOf?_write mode range]
    simp only [bind, Except.bind, noBranch, known, aluStatement, noDigit, found]
    exact congrArg Except.ok (withOperand_eq_statement (i := .extended op) hmode value)
  | none =>
    obtain ⟨noBranch, noAlu, known, found⟩ := own_mnemonic op halu
    cases hmode : op.mode? with
    | some mode =>
      have text : operandText (.extended op) value = mode.write value := by
        simp only [operandText, hmode, Option.map_some, Option.getD_some]
      rw [hmode] at found
      rw [text, operandOf?_write mode range]
      simp only [bind, Except.bind, noBranch, noAlu, known, if_true, extendedStatement, found]
      exact congrArg Except.ok (withOperand_eq_statement (i := .extended op) hmode value)
    | none =>
      have text : operandText (.extended op) value = [] := by
        simp only [operandText, hmode, Option.map_none, Option.getD_none]
      have size : Instruction.operandSize (.extended op) = 0 := by
        rw [operandSize, Instruction.mode, mode?, hmode]
        rfl
      rw [hmode] at found
      rw [text]
      simp only [bind, Except.bind, operandOf?, List.isEmpty_nil, if_true, noBranch, noAlu, known,
        extendedStatement, found, statement, size]

private theorem parseInstruction_branch (flag : Flag) (comparison : Comparison) (digit : Trit)
    {value : Int} (range : Signed32.InRange value) :
    parseInstruction (Instruction.branch flag comparison digit).mnemonic (writeDisplacement value)
      = .ok (statement (.branch flag comparison digit) value) := by
  unfold parseInstruction
  rw [operandOf?_writeDisplacement range]
  simp only [bind, Except.bind, branch?_mnemonic, branchStatement]
  rfl

namespace Occurrence

theorem text_ne_nil (o : Occurrence) : o.text ≠ [] := by
  have filled := (o.instruction.written o.value).isEmpty_line
  rw [← write_eq_writtenLine] at filled
  exact List.isEmpty_eq_false_iff.mp filled

theorem isPlain_of_mem_text (o : Occurrence) : ∀ c ∈ o.text, isPlain c = true ∨ c = ' ' := by
  have plain := (o.instruction.written o.value).plain_line
  rwa [← write_eq_writtenLine] at plain

theorem parse_text (o : Occurrence) :
    Line.parse o.text = .ok ⟨none, .ok (some (o.instruction.statement o.value))⟩ := by
  obtain ⟨i, value, hasOpcode, holds⟩ := o
  have range := inRange_of_holds holds
  have read : parseInstruction i.mnemonic (i.operandText value) = .ok (i.statement value) := by
    cases i with
    | alu op mode => exact parseInstruction_alu hasOpcode range
    | branch flag comparison digit => exact parseInstruction_branch flag comparison digit range
    | extended op => exact parseInstruction_extended range
  rw [text, parse_written, read]
  rfl

end Occurrence

end Instruction

end TernaryMachine
