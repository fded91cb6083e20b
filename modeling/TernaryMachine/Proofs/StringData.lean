import TernaryMachine.Proofs.LineGrammar

/-!
Text in source. A string between quotation marks lays down the codes of its characters, whatever
they are and whatever comment follows. One character literal a line lays down the same codes, but
for a space: at the end of a line it is a blank that does not count, so that nothing is left of the
literal but its mark, and the line is refused.
-/

set_option autoImplicit false
set_option relaxedAutoImplicit false

namespace TernaryMachine

namespace Charset

theorem decode?_of_encode? {c : Char} {t : Tryte} (h : encode? c = some t) :
    decode? t = some c := by
  unfold encode? at h
  split_ifs at h with null
  · cases h
    rw [null]
    decide
  · split at h
    · rename_i i found
      have value := Tryte.ofInt?_eq_some_iff.mp h
      obtain ⟨short, same, -⟩ := List.idxOf?_eq_some_iff.mp found
      have index : t.val.toNat - 1 = i := by omega
      rw [decode?, if_neg (by omega), if_pos (by omega), index]
      rw [List.getElem?_eq_getElem short, same]
    · obtain ⟨i, found, h⟩ := Option.bind_eq_some_iff.mp h
      have value := Tryte.ofInt?_eq_some_iff.mp h
      obtain ⟨short, same, -⟩ := List.idxOf?_eq_some_iff.mp found
      have index : (-t.val).toNat - 1 = i := by omega
      rw [decode?, if_neg (by omega), if_neg (by omega), index]
      rw [List.getElem?_eq_getElem short, same]

theorem mem_of_encode? {c : Char} (h : (encode? c).isSome = true) :
    c ∈ '\x00' :: (positive ++ negative) := by
  unfold encode? at h
  split_ifs at h with null
  · exact null ▸ List.mem_cons_self
  · refine List.mem_cons_of_mem _ (List.mem_append.mpr ?_)
    split at h
    · rename_i i found
      obtain ⟨short, same, -⟩ := List.idxOf?_eq_some_iff.mp found
      exact .inl (same ▸ List.getElem_mem short)
    · obtain ⟨t, known⟩ := Option.isSome_iff_exists.mp h
      obtain ⟨i, found, -⟩ := Option.bind_eq_some_iff.mp known
      obtain ⟨short, same, -⟩ := List.idxOf?_eq_some_iff.mp found
      exact .inr (same ▸ List.getElem_mem short)

theorem isInk_or_of_encode? {c : Char} (h : (encode? c).isSome = true) :
    Text.isInk c = true ∨ c = ' ' ∨ c = '\n' ∨ c = '\t' := by
  have every : ('\x00' :: (positive ++ negative)).all
      (fun c => Text.isInk c || c == ' ' || c == '\n' || c == '\t') = true := by
    decide +kernel
  simpa [or_assoc] using List.all_eq_true.mp every c (mem_of_encode? h)

end Charset

namespace Assembly

def spelling (c : Char) : List Char :=
  if c = '\n' then ['\\', 'n']
  else if c = '\t' then ['\\', 't']
  else if c = '\x00' then ['\\', '0']
  else if c = '\\' then ['\\', '\\']
  else [c]

def quotedSpelling (c : Char) : List Char := if c = '"' then ['\\', '"'] else spelling c

def quoted (s : List Char) : List Char := '"' :: (s.flatMap quotedSpelling ++ ['"'])

def dataLine (s : List Char) : List Char := ".data ".toList ++ quoted s

def literalLine (c : Char) : List Char := ".tryte '".toList ++ spelling c

theorem unescapeString_append_quotedSpelling (c : Char) (cs : List Char) :
    unescapeString (quotedSpelling c ++ cs) = (unescapeString cs).map (c :: ·) := by
  unfold quotedSpelling spelling
  split_ifs with quote newline tab null backslash
  · subst quote
    rfl
  · subst newline
    rfl
  · subst tab
    rfl
  · subst null
    rfl
  · subst backslash
    rfl
  · rw [List.singleton_append, unescapeString.eq_def]
    simp [quote, backslash]

theorem parseString_quoted (s : List Char) : parseString (quoted s) = .ok s := by
  have inner : unescapeString (s.flatMap quotedSpelling) = .ok s := by
    induction s with
    | nil => rfl
    | cons c s ih =>
      rw [List.flatMap_cons, unescapeString_append_quotedSpelling, ih]
      rfl
  simp [parseString, quoted, inner]

theorem literal_spelling {c : Char} (encodable : (Charset.encode? c).isSome = true)
    (other : c ≠ ' ') : Grammar.Literal (spelling c) c := by
  unfold spelling
  split_ifs with newline tab null backslash
  · exact newline ▸ .newline
  · exact tab ▸ .tab
  · exact null ▸ .null
  · exact backslash ▸ .backslash
  · rcases Charset.isInk_or_of_encode? encodable with ink | blank
    · exact .plain ink backslash
    · simp [other, newline, tab] at blank

theorem not_mem_spelling (c : Char) : '\n' ∉ spelling c := by
  unfold spelling
  split_ifs <;> simp_all [eq_comm]

def Codes (s : List Char) (trytes : List Tryte) : Prop :=
  List.Forall₂ (fun c t => Charset.encode? c = some t) s trytes

theorem exists_codes {s : List Char} (encodable : ∀ c ∈ s, (Charset.encode? c).isSome = true) :
    ∃ trytes, Codes s trytes := by
  induction s with
  | nil => exact ⟨[], .nil⟩
  | cons c s ih =>
    obtain ⟨first, others⟩ := List.forall_mem_cons.mp encodable
    obtain ⟨t, code⟩ := Option.isSome_iff_exists.mp first
    obtain ⟨trytes, codes⟩ := ih others
    exact ⟨t :: trytes, .cons code codes⟩

namespace Codes

variable {s : List Char} {trytes : List Tryte}

theorem encodeChars_eq (codes : Codes s trytes) : encodeChars s = .ok trytes := by
  induction codes with
  | nil => rfl
  | cons code _ ih =>
    rw [encodeChars, code, ih]
    rfl

theorem decoded (codes : Codes s trytes) : trytes.map Charset.decode? = s.map some := by
  induction codes with
  | nil => rfl
  | cons code _ ih => rw [List.map_cons, List.map_cons, Charset.decode?_of_encode? code, ih]

end Codes

private theorem reads_directive {name argument tail : List Char} {statement : Statement}
    (valid : isWord name = true) (nonempty : argument ≠ []) (solid : Text.Solid argument)
    (read : parsePhrase name argument = .ok statement) (ending : Ending false tail) :
    Reads (name ++ (' ' :: argument ++ tail)) none (some statement) := by
  have behind : Behind (' ' :: argument) argument :=
    .argument Text.blanks_space (by simp) nonempty solid
  exact (reads_word_iff Text.blanks_nil valid (behind.detached.append fun _ => ending.detached)).mpr
    ⟨rfl, _, tail, argument, statement, rfl, behind, ending, read, rfl⟩

theorem reads_dataLine {s : List Char} {trytes : List Tryte} {tail : List Char}
    (codes : Codes s trytes) (ending : Ending false tail) :
    Reads (dataLine s ++ tail) none (some (.data trytes)) := by
  have solid : Text.Solid (quoted s) := by
    refine ⟨?_, ?_⟩
    · rintro _ ⟨⟩
      decide
    · rw [quoted, ← List.cons_append, List.getLast?_concat]
      rintro _ ⟨⟩
      decide
  have read : parsePhrase ".data".toList (quoted s) = .ok (.data trytes) := by
    change parseData (quoted s) = _
    have filled : (quoted s).isEmpty = false := rfl
    rw [parseData, filled, parseString_quoted]
    change (encodeChars s).map Statement.data = _
    rw [codes.encodeChars_eq]
    rfl
  exact reads_directive (by decide) (List.cons_ne_nil _ _) solid read ending

theorem reads_literalLine {c : Char} {t : Tryte} (code : Charset.encode? c = some t)
    (other : c ≠ ' ') : Reads (literalLine c) none (some (.value .tryte (.ofNumber t.val))) := by
  have literal := literal_spelling (Option.isSome_of_eq_some code) other
  have solid : Text.Solid ('\x27' :: spelling c) := by
    refine ⟨?_, ?_⟩
    · rintro _ ⟨⟩
      decide
    · generalize spelling c = cs at literal
      cases literal with
      | plain ink _ =>
        rintro _ ⟨⟩
        exact ink
      | _ =>
        rintro _ ⟨⟩
        decide
  have denotes : Grammar.DenotesExpression ('\x27' :: spelling c) (.ofNumber t.val) :=
    ⟨[], _, [], Text.blanks_nil, Text.blanks_nil, .character literal code,
      (List.append_nil _).symm⟩
  have read : parsePhrase ".tryte".toList ('\x27' :: spelling c)
      = .ok (.value .tryte (.ofNumber t.val)) := by
    change (parseValue ('\x27' :: spelling c)).map (Statement.value .tryte) = _
    rw [parseValue_eq_ok_iff.mpr ((Grammar.parseExpression_eq_ok_iff _ _).mpr denotes)]
    rfl
  have ending : Ending false [] := .blanks Text.blanks_nil
  have reads := reads_directive (by decide) (List.cons_ne_nil _ _) solid read ending
  rw [List.append_nil] at reads
  exact reads

theorem emitLine_dataLine (a : Assembly) (number : Nat) {s : List Char} {trytes : List Tryte}
    {tail : List Char} (codes : Codes s trytes)
    (ending : Ending false tail) :
    a.emitLine number (dataLine s ++ tail) = .ok (a.append trytes) := by
  rw [a.emitLine_of_contents? number (contents?_eq_some_iff.mpr (reads_dataLine codes ending))]
  rfl

theorem emitLine_literalLine (a : Assembly) (number : Nat) {c : Char} {t : Tryte}
    (code : Charset.encode? c = some t) (other : c ≠ ' ') :
    a.emitLine number (literalLine c) = .ok (a.append [t]) := by
  rw [a.emitLine_of_contents? number (contents?_eq_some_iff.mpr (reads_literalLine code other))]
  have known : (Expression.ofNumber t.val).evaluate a.lookup = .ok (some t.val) := rfl
  change a.emitValue number .tryte (.ofNumber t.val) = _
  rw [emitValue, known]
  simp only [Layout.encode, Tryte.ofInt?_val]
  rfl

theorem emitLine_literalLine_space (a : Assembly) (number : Nat) :
    a.emitLine number (literalLine ' ') = .error (.operand (.invalidCharacter "")) := by
  have text : stripComment false true (literalLine ' ') = .ok (literalLine ' ') := by
    decide +kernel
  have cut : cutLabel (Text.trim (literalLine ' ')) = (none, ".tryte '".toList) := by
    decide +kernel
  have refused : parseStatement ".tryte '".toList = .error (.operand (.invalidCharacter "")) := by
    decide +kernel
  have read : Line.parse (literalLine ' ')
      = .ok ⟨none, .error (.operand (.invalidCharacter ""))⟩ := by
    simp only [Line.parse, text, cut, refused]
  rw [emitLine, read]
  rfl

theorem emitLines_literalLines (a : Assembly) (number : Nat) {s : List Char} {trytes : List Tryte}
    (codes : Codes s trytes) :
    a.emitLines number (s.map literalLine)
      = if ' ' ∈ s then .error ⟨number + s.idxOf ' ', .operand (.invalidCharacter "")⟩
        else .ok (a.append trytes) := by
  induction codes generalizing a number with
  | nil => simp [emitLines, append]
  | @cons c t s trytes code codes ih =>
    rw [List.map_cons, emitLines]
    by_cases space : c = ' '
    · subst space
      rw [emitLine_literalLine_space, if_pos List.mem_cons_self, List.idxOf_cons_self]
      rfl
    · rw [a.emitLine_literalLine number code space]
      change (a.append [t]).emitLines (number + 1) (s.map literalLine) = _
      rw [ih]
      have first : ' ' ≠ c := fun same => space same.symm
      have later : number + 1 + s.idxOf ' ' = number + (c :: s).idxOf ' ' := by
        rw [List.idxOf_cons_ne _ space]
        omega
      simp [first, later, append]

theorem assemble_of_append {source : List Char} {trytes : List Tryte}
    (laid : emitLines {} 1 (Text.lines source) = .ok (append {} trytes)) :
    assemble source = .ok ⟨0, trytes⟩ := by
  rw [assemble, laid]
  simp [append, fillAll, toProgram, origin, bind, Except.bind, pure, Except.pure]

theorem not_mem_dataLine (s : List Char) : '\n' ∉ dataLine s := by
  have spelt (c : Char) : '\n' ∉ quotedSpelling c := by
    unfold quotedSpelling
    split_ifs
    · decide
    · exact not_mem_spelling c
  simp [dataLine, quoted, spelt]

theorem assemble_dataLine_of_codes {s tail : List Char} {trytes : List Tryte}
    (codes : Codes s trytes) (ending : Ending false tail) (single : '\n' ∉ tail) :
    assemble (dataLine s ++ tail) = .ok ⟨0, trytes⟩ := by
  have filled : dataLine s ++ tail ≠ [] := by simp [dataLine]
  have single : '\n' ∉ dataLine s ++ tail := by simp [not_mem_dataLine, single]
  refine assemble_of_append ?_
  rw [Text.lines_of_not_mem filled single, emitLines, emitLine_dataLine _ _ codes ending]
  rfl

/-- A string is laid down character by character, whatever stands in it and whatever comment follows
it, and what is laid down decodes to the string. -/
theorem assemble_dataLine {s tail : List Char}
    (encodable : ∀ c ∈ s, (Charset.encode? c).isSome = true)
    (behind : tail = [] ∨ ∃ text, '\n' ∉ text ∧ tail = ' ' :: ';' :: text) :
    ∃ trytes, Codes s trytes ∧ assemble (dataLine s ++ tail) = .ok ⟨0, trytes⟩
      ∧ trytes.map Charset.decode? = s.map some := by
  obtain ⟨trytes, codes⟩ := exists_codes encodable
  refine ⟨trytes, codes, ?_, codes.decoded⟩
  rcases behind with rfl | ⟨text, single, rfl⟩
  · exact assemble_dataLine_of_codes codes (.blanks Text.blanks_nil) (by simp)
  · exact assemble_dataLine_of_codes codes (.comment Text.blanks_space rfl text) (by simp [single])

theorem assemble_dataLine_of_marks :
    let s := " \";'\\\n\" ".toList
    (∀ c ∈ s, (Charset.encode? c).isSome = true) ∧ ∃ trytes, Codes s trytes
      ∧ assemble ".data \" \\\";'\\\\\\n\\\" \" ; it's \"".toList = .ok ⟨0, trytes⟩
      ∧ trytes.map Charset.decode? = s.map some := by
  intro s
  have encodable : ∀ c ∈ s, (Charset.encode? c).isSome = true :=
    List.all_eq_true.mp (by decide +kernel)
  refine ⟨encodable, ?_⟩
  have whole : ".data \" \\\";'\\\\\\n\\\" \" ; it's \"".toList
      = dataLine s ++ ' ' :: ';' :: " it's \"".toList := by
    decide +kernel
  rw [whole]
  exact assemble_dataLine encodable (.inr ⟨_, by decide, rfl⟩)

/-- Character literals, one a line, lay down what the string of the characters lays down, unless one
of them is a space: the first line with one is refused. -/
theorem assemble_literalLines {s source : List Char}
    (encodable : ∀ c ∈ s, (Charset.encode? c).isSome = true)
    (written : Text.lines source = s.map literalLine) :
    assemble source = if ' ' ∈ s
      then .error ⟨s.idxOf ' ' + 1, .operand (.invalidCharacter "")⟩
      else assemble (dataLine s) := by
  obtain ⟨trytes, codes⟩ := exists_codes encodable
  have laid := emitLines_literalLines {} 1 codes
  rw [← written, Nat.add_comm] at laid
  split_ifs at laid ⊢ with space
  · rw [assemble, laid]
    rfl
  · have whole := assemble_dataLine_of_codes codes (.blanks Text.blanks_nil) (by simp)
    rw [List.append_nil] at whole
    rw [assemble_of_append laid, whole]

theorem assemble_literalLines_of_marks :
    let s := "a;'\"\n\\".toList
    let source := ".tryte 'a\n.tryte ';\n.tryte ''\n.tryte '\"\n.tryte '\\n\n.tryte '\\\\".toList
    (∀ c ∈ s, (Charset.encode? c).isSome = true) ∧ Text.lines source = s.map literalLine
      ∧ ' ' ∉ s ∧ assemble source = assemble (dataLine s) := by
  intro s source
  have encodable : ∀ c ∈ s, (Charset.encode? c).isSome = true :=
    List.all_eq_true.mp (by decide +kernel)
  have written : Text.lines source = s.map literalLine := by decide +kernel
  have free : ' ' ∉ s := by decide
  have same := assemble_literalLines encodable written
  rw [if_neg free] at same
  exact ⟨encodable, written, free, same⟩

/-- A space has a code and may stand in a string, but its literal is refused. -/
theorem literal_of_space_refused : (Charset.encode? ' ').isSome = true
    ∧ Text.lines ".tryte ' ".toList = [' '].map literalLine
    ∧ assemble ".tryte ' ".toList = .error ⟨1, .operand (.invalidCharacter "")⟩
    ∧ assemble (dataLine [' ']) = .ok ⟨0, [Tryte.ofDigits 37 0]⟩ := by
  decide +kernel

end Assembly

end TernaryMachine
