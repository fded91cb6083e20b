import TernaryMachine.Proofs.OperandGrammar

/-!
The search for a comment in text that is read afterwards. The search knows strings and character
literals but no operands, and the readers know no comments. They agree nevertheless: in every text
that a reader accepts the search finds no comment, and at the end of such a text it is neither in a
string nor in a character literal, so that it takes what follows for what it is.
-/

set_option autoImplicit false
set_option relaxedAutoImplicit false

namespace TernaryMachine.Assembly

/-- Whether a semicolon behind a text may begin a comment, as it may behind a blank. -/
def blankBehind (afterBlank : Bool) : List Char → Bool
  | [] => afterBlank
  | c :: cs => blankBehind (Text.isBlank c) cs

theorem blankBehind_append (afterBlank : Bool) (xs ys : List Char) :
    blankBehind afterBlank (xs ++ ys) = blankBehind (blankBehind afterBlank xs) ys := by
  induction xs generalizing afterBlank with
  | nil => rfl
  | cons x xs ih => exact ih (Text.isBlank x)

theorem blankBehind_concat (afterBlank : Bool) (cs : List Char) (c : Char) :
    blankBehind afterBlank (cs ++ [c]) = Text.isBlank c := by
  rw [blankBehind_append]
  rfl

theorem blankBehind_of_blanks {afterBlank : Bool} {cs : List Char} (blank : Text.Blanks cs)
    (h : cs = [] → afterBlank = true) : blankBehind afterBlank cs = true := by
  rcases List.eq_nil_or_concat cs with rfl | ⟨front, c, rfl⟩
  · exact h rfl
  · rw [List.concat_eq_append, blankBehind_concat]
    exact blank c (by simp)

def isOrdinary (c : Char) : Bool := c != '"' && c != '\x27' && c != ';'

theorem isOrdinary_of_isPlain {c : Char} (h : isPlain c = true) : isOrdinary c = true := by
  simp only [isPlain, Bool.and_eq_true] at h
  simp only [isOrdinary, Bool.and_eq_true]
  exact ⟨⟨h.1.1.2, h.1.2⟩, h.2⟩

theorem isOrdinary_of {p : Char → Bool} {c : Char} (h : p c = true) (quote : p '"' = false)
    (apostrophe : p '\x27' = false) (semicolon : p ';' = false) : isOrdinary c = true := by
  have other {b : Char} (no : p b = false) : c ≠ b := by
    rintro rfl
    rw [no] at h
    cases h
  simp only [isOrdinary, Bool.and_eq_true, bne_iff_ne]
  exact ⟨⟨other quote, other apostrophe⟩, other semicolon⟩

theorem isOrdinary_of_isBlank {c : Char} (h : Text.isBlank c = true) : isOrdinary c = true :=
  isOrdinary_of h (by decide) (by decide) (by decide)

/-- A text that the search for a comment goes through: it finds none, and is in no string and no
character literal at the end. -/
def Closed (cs : List Char) : Prop :=
  ∀ afterBlank rest, stripComment false afterBlank (cs ++ rest)
    = (stripComment false (blankBehind afterBlank cs) rest).map (cs ++ ·)

theorem map_append_map_append (xs ys : List Char) (x : Except Malformation (List Char)) :
    (x.map (ys ++ ·)).map (xs ++ ·) = x.map (xs ++ ys ++ ·) := by
  cases x with
  | error what => rfl
  | ok cs => exact congrArg Except.ok (List.append_assoc xs ys cs).symm

namespace Closed

theorem nil : Closed [] := by
  intro afterBlank rest
  rw [List.nil_append, blankBehind]
  cases stripComment false afterBlank rest <;> rfl

theorem append {xs ys : List Char} (h : Closed xs) (k : Closed ys) : Closed (xs ++ ys) := by
  intro afterBlank rest
  rw [List.append_assoc, h, k, blankBehind_append, map_append_map_append]

theorem of_ordinary {cs : List Char} (h : ∀ c ∈ cs, isOrdinary c = true) : Closed cs := by
  induction cs with
  | nil => exact nil
  | cons c cs ih =>
    obtain ⟨first, others⟩ := List.forall_mem_cons.mp h
    simp only [isOrdinary, Bool.and_eq_true, bne_iff_ne] at first
    intro afterBlank rest
    rw [List.cons_append, stripComment_cons_of_text afterBlank first.1.1 first.1.2 first.2,
      ih others]
    exact map_append_map_append [c] cs _

theorem of_plain {cs : List Char} (h : ∀ c ∈ cs, isPlain c = true) : Closed cs :=
  of_ordinary fun c member => isOrdinary_of_isPlain (h c member)

theorem of_blanks {cs : List Char} (h : Text.Blanks cs) : Closed cs :=
  of_ordinary fun c member => isOrdinary_of_isBlank (h c member)

theorem stripComment_eq {cs : List Char} (h : Closed cs) (afterBlank : Bool) :
    stripComment false afterBlank cs = .ok cs := by
  have whole := h afterBlank []
  rw [List.append_nil] at whole
  rw [whole]
  exact congrArg Except.ok (List.append_nil cs)

theorem stripComment_comment {cs : List Char} (h : Closed cs) {afterBlank : Bool}
    (separated : blankBehind afterBlank cs = true) (comment : List Char) :
    stripComment false afterBlank (cs ++ ';' :: comment) = .ok cs := by
  rw [h, separated, stripComment.eq_def]
  exact congrArg Except.ok (List.append_nil cs)

end Closed

private theorem stripComment_literal (afterBlank : Bool) (c : Char) (rest : List Char) :
    stripComment false afterBlank ('\x27' :: '\\' :: c :: rest)
      = (stripComment false false rest).map ('\x27' :: '\\' :: c :: ·) := by
  rw [stripComment.eq_def]
  simp

private theorem stripComment_literal_of_ne (afterBlank : Bool) {c : Char} (h : c ≠ '\\')
    (rest : List Char) : stripComment false afterBlank ('\x27' :: c :: rest)
      = (stripComment false false rest).map ('\x27' :: c :: ·) := by
  rw [stripComment.eq_def]
  simp [h]

theorem closed_literal {cs : List Char} {c : Char} (literal : Grammar.Literal cs c) :
    Closed ('\x27' :: cs) := by
  intro afterBlank rest
  cases literal with
  | plain ink other =>
    have behind : blankBehind afterBlank ['\x27', c] = false :=
      Text.isBlank_eq_false_of_isInk ink
    rw [behind]
    exact stripComment_literal_of_ne afterBlank other rest
  | newline | tab | null | backslash | apostrophe | quote =>
    exact stripComment_literal afterBlank _ rest

private theorem stripComment_quote (inString afterBlank : Bool) (rest : List Char) :
    stripComment inString afterBlank ('"' :: rest)
      = (stripComment (!inString) false rest).map ('"' :: ·) := by
  rw [stripComment.eq_def]
  simp

private theorem stripComment_escape (afterBlank : Bool) (c : Char) (rest : List Char) :
    stripComment true afterBlank ('\\' :: c :: rest)
      = (stripComment true false rest).map ('\\' :: c :: ·) := by
  rw [stripComment.eq_def]
  simp

private theorem stripComment_string (afterBlank : Bool) {c : Char} (quote : c ≠ '"')
    (escape : c ≠ '\\') (rest : List Char) : stripComment true afterBlank (c :: rest)
      = (stripComment true (Text.isBlank c) rest).map (c :: ·) := by
  rw [stripComment.eq_def]
  simp [quote, escape]

private theorem stripComment_of_unescapeString {inner s : List Char}
    (read : unescapeString inner = .ok s) (afterBlank : Bool) (rest : List Char) :
    stripComment true afterBlank (inner ++ '"' :: rest)
      = (stripComment false false rest).map (inner ++ ['"'] ++ ·) := by
  -- Only the end, an escape and a plain character are read; the other cases are faults.
  fun_induction unescapeString inner generalizing s afterBlank with
  | case1 => exact stripComment_quote true afterBlank rest
  | case2 => cases read
  | case3 c cs d found ih =>
    obtain ⟨t, inner, -⟩ := map_eq_ok_iff.mp read
    rw [List.cons_append, List.cons_append, stripComment_escape, ih inner]
    exact map_append_map_append ['\\', c] _ _
  | case4 => cases read
  | case5 => cases read
  | case6 c cs single pair quote ih =>
    obtain ⟨t, inner, -⟩ := map_eq_ok_iff.mp read
    have escape : c ≠ '\\' := by
      rintro rfl
      cases cs with
      | nil => exact single rfl rfl
      | cons d cs => exact pair d cs rfl rfl
    rw [List.cons_append, stripComment_string afterBlank quote escape, ih inner]
    exact map_append_map_append [c] _ _

theorem closed_quoted {inner s : List Char} (read : unescapeString inner = .ok s) :
    Closed ('"' :: (inner ++ ['"'])) := by
  intro afterBlank rest
  have behind : blankBehind afterBlank ('"' :: (inner ++ ['"'])) = false :=
    blankBehind_concat _ ('"' :: inner) '"'
  rw [behind, List.cons_append, stripComment_quote, List.append_assoc, List.singleton_append,
    Bool.not_false, stripComment_of_unescapeString read]
  exact map_append_map_append ['"'] _ _

theorem exists_of_parseString {cs s : List Char} (read : parseString cs = .ok s) :
    ∃ inner, cs = '"' :: (inner ++ ['"']) ∧ unescapeString inner = .ok s := by
  unfold parseString at read
  split at read
  · rename_i rest
    split at read
    · rename_i inner same
      refine ⟨inner.reverse, ?_, read⟩
      rw [List.reverse_eq_iff.mp same, List.reverse_cons]
    · cases read
  · cases read

theorem closed_of_parseString {cs s : List Char} (read : parseString cs = .ok s) : Closed cs := by
  obtain ⟨inner, rfl, unescaped⟩ := exists_of_parseString read
  exact closed_quoted unescaped

namespace Grammar

private theorem isOrdinary_of_isDigit {c : Char} (h : Text.isDigit c = true) :
    isOrdinary c = true :=
  isOrdinary_of h (by decide) (by decide) (by decide)

theorem isOrdinary_of_continuesSymbol {c : Char} (h : continuesSymbol c = true) :
    isOrdinary c = true :=
  isOrdinary_of h (by decide) (by decide) (by decide)

private theorem isOrdinary_of_digit? {r : Radix} {c : Char} {d : Int} (h : r.digit? c = some d) :
    isOrdinary c = true := by
  have known : (r.digit? c).isSome = true := Option.isSome_of_eq_some h
  exact isOrdinary_of (p := fun c => (r.digit? c).isSome) known (by cases r <;> decide)
    (by cases r <;> decide) (by cases r <;> decide)

private theorem isOrdinary_of_mem_decimal {cs : List Char} {n : Int} (h : Decimal cs n) :
    ∀ c ∈ cs, isOrdinary c = true := by
  have digits {cs : List Char} {n : Int} (number : Numeral 10 DecimalDigit cs n) :
      ∀ c ∈ cs, isOrdinary c = true :=
    fun c member => isOrdinary_of_isDigit (isDigit_of_numeral number c member)
  rcases h with number | ⟨number⟩ | ⟨number⟩
  · exact digits number
  · exact List.forall_mem_cons.mpr ⟨by decide, digits number⟩
  · exact List.forall_mem_cons.mpr ⟨by decide, digits number⟩

private theorem isOrdinary_of_mem_numeral {r : Radix} {cs : List Char} {n : Int}
    (h : Numeral r.base (fun c d => r.digit? c = some d) cs n) :
    ∀ c ∈ cs, isOrdinary c = true := by
  obtain ⟨-, ds, digits, -⟩ := h
  induction digits with
  | nil => simp
  | cons digit _ ih => exact List.forall_mem_cons.mpr ⟨isOrdinary_of_digit? digit, ih⟩

private theorem isOrdinary_of_mem_name {cs : List Char} (h : Name cs) :
    ∀ c ∈ cs, isOrdinary c = true := by
  obtain ⟨c, rest, rfl, begins, continues⟩ := h
  refine List.forall_mem_cons.mpr ⟨?_, fun d member => ?_⟩
  · exact isOrdinary_of_continuesSymbol ((continuesSymbol_iff c).mpr (.inl begins))
  · exact isOrdinary_of_continuesSymbol ((continuesSymbol_iff d).mpr (continues d member))

theorem closed_of_name {cs : List Char} (h : Name cs) : Closed cs :=
  .of_ordinary (isOrdinary_of_mem_name h)

theorem closed_of_denotesTerm {cs : List Char} {t : Term} (h : DenotesTerm cs t) : Closed cs := by
  cases h with
  | decimal number _ => exact .of_ordinary (isOrdinary_of_mem_decimal number)
  | @numeral r cs n digits _ =>
    refine .of_ordinary (List.forall_mem_cons.mpr ⟨?_, isOrdinary_of_mem_numeral digits⟩)
    cases r <;> decide
  | character literal _ => exact closed_literal literal
  | symbol name => exact closed_of_name name
  | offset name decimal _ =>
    exact (closed_of_name name).append (.of_ordinary (isOrdinary_of_mem_decimal (.inr decimal)))

theorem closed_of_denotesExpression {cs : List Char} {e : Expression}
    (h : DenotesExpression cs e) : Closed cs := by
  obtain ⟨before, text, after, blank, blank', term, rfl⟩ := h
  have selected : Closed (selection e.selector) := by
    apply Closed.of_ordinary
    cases e.selector <;> simp [selection, isOrdinary]
  exact ((Closed.of_blanks blank).append (selected.append (closed_of_denotesTerm term))).append
    (.of_blanks blank')

private theorem closed_of_form {cs inner : List Char} {mode : AddressMode}
    (form : Form cs mode inner) (h : Closed inner) : Closed cs := by
  have marks (cs : List Char) (ordinary : cs.all isOrdinary = true) : Closed cs :=
    .of_ordinary (List.all_eq_true.mp ordinary)
  cases form with
  | immediate => exact (marks ['#'] (by decide)).append h
  | indirect => exact (marks ['('] (by decide)).append (h.append (marks _ (by decide)))
  | indexedXIndirect index | indirectIndexedY index =>
    refine (marks ['('] (by decide)).append (h.append (marks _ ?_))
    rcases index with rfl | rfl <;> decide
  | absoluteX index | absoluteY index =>
    refine h.append (marks _ ?_)
    rcases index with rfl | rfl <;> decide
  | absolute => exact h

theorem closed_of_parseOperand {cs : List Char} (solid : Text.Solid cs) {o : Operand}
    (read : Operand.parse cs = .ok o) : Closed cs := by
  cases denotes_of_parse solid read with
  | accumulator => exact .of_plain (List.all_eq_true.mp (by decide))
  | expression form denotes => exact closed_of_form form (closed_of_denotesExpression denotes)

end Grammar

end TernaryMachine.Assembly
