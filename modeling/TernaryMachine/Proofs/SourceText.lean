import TernaryMachine.Assembly
import TernaryMachine.Proofs.Notation
import TernaryMachine.Proofs.Opcode

/-!
Source text that was written by the disassembler, read again. A written line consists of one or two
words without quotation marks, apostrophes and semicolons, so that it has no comment, no label and
no string; its mnemonic and its operand are found where they were put.
-/

set_option autoImplicit false
set_option relaxedAutoImplicit false

namespace TernaryMachine

namespace Text

theorem isBlank_eq_false_of_isInk {c : Char} (h : isInk c = true) : isBlank c = false := by
  simpa [isInk] using h

private theorem trimStart_of_ink {cs : List Char} (h : ∀ c ∈ cs.head?, isInk c = true) :
    trimStart cs = cs := by
  cases cs with
  | nil => rfl
  | cons c cs => exact List.dropWhile_cons_of_neg (by simp [isBlank_eq_false_of_isInk (h c rfl)])

theorem trim_of_ink {cs : List Char} (first : ∀ c ∈ cs.head?, isInk c = true)
    (last : ∀ c ∈ cs.getLast?, isInk c = true) : trim cs = cs := by
  rw [trim, trimStart_of_ink first, trimEnd, trimStart_of_ink, List.reverse_reverse]
  simpa using last

theorem headWord_append {word : List Char} (h : ∀ c ∈ word, isInk c = true) {rest : List Char}
    (stop : ∀ c ∈ rest.head?, isBlank c = true) : headWord (word ++ rest) = word := by
  rw [headWord, List.takeWhile_append_of_pos h]
  cases rest with
  | nil => simp
  | cons c rest => simp [isInk, stop c rfl]

theorem afterWord_append {word : List Char} (h : ∀ c ∈ word, isInk c = true) {rest : List Char}
    (stop : ∀ c ∈ rest.head?, isBlank c = true) : afterWord (word ++ rest) = rest := by
  rw [afterWord, List.dropWhile_append_of_pos h]
  cases rest with
  | nil => rfl
  | cons c rest => simp [isInk, stop c rfl]

private theorem linesFrom_append (line : List Char) {cs : List Char} (h : '\n' ∉ cs)
    (rest : List Char) : linesFrom line (cs ++ rest) = linesFrom (cs.reverse ++ line) rest := by
  induction cs generalizing line with
  | nil => rfl
  | cons c cs ih =>
    have hc : c ≠ '\n' := fun e => h (e ▸ List.mem_cons_self)
    have hcs : '\n' ∉ cs := fun m => h (List.mem_cons_of_mem c m)
    simp [linesFrom, hc, ih _ hcs]

theorem dropReturn_of_not_mem {line : List Char} (h : '\r' ∉ line) : dropReturn line = line := by
  unfold dropReturn
  split
  · rename_i r e
    exact absurd (List.mem_reverse.mp (e ▸ List.mem_cons_self)) h
  · rfl

theorem lines_append_cons {line : List Char} (newline : '\n' ∉ line) (rest : List Char) :
    lines (line ++ '\n' :: rest) = dropReturn line :: lines rest := by
  rw [lines, linesFrom_append _ newline]
  simp [linesFrom, lines]

theorem lines_append_newline {line : List Char} (newline : '\n' ∉ line) (ret : '\r' ∉ line)
    (rest : List Char) : lines (line ++ '\n' :: rest) = line :: lines rest := by
  rw [lines_append_cons newline, dropReturn_of_not_mem ret]

theorem lines_of_not_mem {line : List Char} (nonempty : line ≠ []) (newline : '\n' ∉ line) :
    lines line = [line] := by
  have h := linesFrom_append [] newline []
  simp only [List.append_nil] at h
  rw [lines, h]
  simp [linesFrom, nonempty]

theorem lines_intercalate {ls : List (List Char)} (nonempty : ∀ l ∈ ls, l ≠ [])
    (newline : ∀ l ∈ ls, '\n' ∉ l) (ret : ∀ l ∈ ls, '\r' ∉ l) :
    lines (List.intercalate ['\n'] ls) = ls := by
  induction ls with
  | nil => rfl
  | cons l ls ih =>
    cases ls with
    | nil =>
      rw [List.intercalate_singleton]
      exact lines_of_not_mem (nonempty l (by simp)) (newline l (by simp))
    | cons k ls =>
      rw [List.intercalate_cons_cons, List.append_assoc, List.singleton_append,
        lines_append_newline (newline l (by simp)) (ret l (by simp))]
      rw [ih (fun r hr => nonempty r (List.mem_cons_of_mem l hr))
        (fun r hr => newline r (List.mem_cons_of_mem l hr))
        (fun r hr => ret r (List.mem_cons_of_mem l hr))]

end Text

namespace Assembly

/-- A character that neither separates words nor begins a string, a character literal or a
comment. -/
def isPlain (c : Char) : Bool := Text.isInk c && c != '"' && c != '\x27' && c != ';'

theorem isInk_of_isPlain {c : Char} (h : isPlain c = true) : Text.isInk c = true := by
  simp only [isPlain, Bool.and_eq_true] at h
  exact h.1.1.1

theorem stripComment_cons_of_text (afterBlank : Bool) {c : Char} (quote : c ≠ '"')
    (apostrophe : c ≠ '\x27') (semicolon : c ≠ ';') (cs : List Char) :
    stripComment false afterBlank (c :: cs)
      = (stripComment false (Text.isBlank c) cs).map (c :: ·) := by
  rw [stripComment.eq_def]
  simp only [quote, apostrophe, semicolon, if_false, Bool.false_eq_true, and_false,
    not_false_eq_true, and_true]

theorem stripComment_of_plain (afterBlank : Bool) {cs : List Char}
    (h : ∀ c ∈ cs, isPlain c = true ∨ c = ' ') : stripComment false afterBlank cs = .ok cs := by
  induction cs generalizing afterBlank with
  | nil => rfl
  | cons c cs ih =>
    have text : c ≠ '"' ∧ c ≠ '\x27' ∧ c ≠ ';' := by
      rcases h c List.mem_cons_self with plain | rfl
      · simp only [isPlain, Bool.and_eq_true, bne_iff_ne] at plain
        exact ⟨plain.1.1.2, plain.1.2, plain.2⟩
      · decide
    rw [stripComment_cons_of_text afterBlank text.1 text.2.1 text.2.2,
      ih _ fun d hd => h d (List.mem_cons_of_mem c hd)]
    rfl

theorem lines_intercalate_of_plain {ls : List (List Char)}
    (h : ∀ l ∈ ls, l ≠ [] ∧ ∀ c ∈ l, isPlain c = true ∨ c = ' ') :
    Text.lines (List.intercalate ['\n'] ls) = ls := by
  apply Text.lines_intercalate
  · exact fun l hl => (h l hl).1
  · exact fun l hl feed => absurd ((h l hl).2 _ feed) (by decide)
  · exact fun l hl ret => absurd ((h l hl).2 _ ret) (by decide)

def writtenLine (word argument : List Char) : List Char :=
  if argument.isEmpty then word else word ++ ' ' :: argument

/-- A word and an argument that are found again when they are written on one line. -/
structure Written (word argument : List Char) : Prop where
  nonempty : word ≠ []
  plain : ∀ c ∈ word, isPlain c = true
  unlabelled : ':' ∉ word
  plain_argument : ∀ c ∈ argument, isPlain c = true

namespace Written

variable {word argument : List Char}

private theorem ink (w : Written word argument) : ∀ c ∈ word, Text.isInk c = true :=
  fun c hc => isInk_of_isPlain (w.plain c hc)

private theorem ink_argument (w : Written word argument) : ∀ c ∈ argument, Text.isInk c = true :=
  fun c hc => isInk_of_isPlain (w.plain_argument c hc)

private theorem exists_rest (argument : List Char) : ∃ rest,
    (∀ word, writtenLine word argument = word ++ rest) ∧ rest.drop 1 = argument
      ∧ ∀ c ∈ rest.head?, Text.isBlank c = true := by
  cases argument with
  | nil => exact ⟨[], fun word => by simp [writtenLine], rfl, by simp⟩
  | cons c argument =>
    refine ⟨' ' :: c :: argument, fun word => rfl, rfl, ?_⟩
    intro d hd
    obtain rfl : ' ' = d := Option.some.inj hd
    decide

private theorem cutAtBlank_line (w : Written word argument) :
    Text.cutAtBlank (writtenLine word argument) = (word, argument) := by
  obtain ⟨rest, line, dropped, stop⟩ := exists_rest argument
  rw [line, Text.cutAtBlank, Text.headWord_append w.ink stop, Text.afterWord_append w.ink stop,
    dropped]

private theorem cutLabel_line (w : Written word argument) :
    cutLabel (writtenLine word argument) = (none, writtenLine word argument) := by
  obtain ⟨rest, line, -, stop⟩ := exists_rest argument
  unfold cutLabel
  rw [line, Text.headWord_append w.ink stop]
  split
  · rename_i label e
    exact absurd (List.mem_reverse.mp (e ▸ List.mem_cons_self)) w.unlabelled
  · rfl

theorem plain_line (w : Written word argument) :
    ∀ c ∈ writtenLine word argument, isPlain c = true ∨ c = ' ' := by
  intro c hc
  unfold writtenLine at hc
  split at hc
  · exact .inl (w.plain c hc)
  · rcases List.mem_append.mp hc with hc | hc
    · exact .inl (w.plain c hc)
    · rcases List.mem_cons.mp hc with rfl | hc
      · exact .inr rfl
      · exact .inl (w.plain_argument c hc)

private theorem trim_line (w : Written word argument) :
    Text.trim (writtenLine word argument) = writtenLine word argument := by
  unfold writtenLine
  apply Text.trim_of_ink
  · intro c hc
    have first : c ∈ word.head? := by
      split at hc
      · exact hc
      · obtain ⟨d, ds, rfl⟩ := List.exists_cons_of_ne_nil w.nonempty
        exact hc
    exact w.ink c (List.mem_of_head? first)
  · intro c hc
    split at hc
    · exact w.ink c (List.mem_of_getLast? hc)
    · rename_i filled
      have filled : argument ≠ [] := by simpa using filled
      rw [List.getLast?_append, List.getLast?_cons_of_ne_nil filled,
        Option.or_of_isSome (by simpa using filled)] at hc
      exact w.ink_argument c (List.mem_of_getLast? hc)

private theorem trim_argument (w : Written word argument) : Text.trim argument = argument :=
  Text.trim_of_ink (fun c hc => w.ink_argument c (List.mem_of_head? hc))
    fun c hc => w.ink_argument c (List.mem_of_getLast? hc)

theorem isEmpty_line (w : Written word argument) :
    (writtenLine word argument).isEmpty = false := by
  have := w.nonempty
  unfold writtenLine
  split <;> simp [*]

private theorem parse_line (w : Written word argument) :
    Line.parse (writtenLine word argument)
      = .ok ⟨none, parseStatement (writtenLine word argument)⟩ := by
  unfold Line.parse
  rw [stripComment_of_plain true w.plain_line]
  simp only [w.trim_line, w.cutLabel_line]

theorem parse_instruction (w : Written word argument) (mnemonic : word.head? ≠ some '.') :
    Line.parse (writtenLine word argument)
      = .ok ⟨none,
        (parseInstruction (String.ofList (word.map Char.toUpper)) argument).map some⟩ := by
  rw [w.parse_line, parseStatement, w.isEmpty_line]
  simp only [w.cutAtBlank_line, w.trim_argument, Bool.false_eq_true, if_false]
  split
  · exact absurd rfl mnemonic
  · rfl

theorem parse_directive {name : List Char} (w : Written ('.' :: name) argument) :
    Line.parse (writtenLine ('.' :: name) argument)
      = .ok ⟨none,
        (parseDirective (String.ofList (name.map Char.toLower)) argument).map some⟩ := by
  rw [w.parse_line, parseStatement, w.isEmpty_line]
  simp only [w.cutAtBlank_line, w.trim_argument, Bool.false_eq_true, if_false]

end Written

end Assembly

end TernaryMachine
