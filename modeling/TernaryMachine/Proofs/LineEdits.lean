import Mathlib.Logic.Relation
import TernaryMachine.Proofs.LineGrammar
import TernaryMachine.Proofs.Relocation

/-!
Source text that is laid out anew. Empty lines and comments, blanks at the ends of a line, the case
of the names of instructions and directives, and whether a label stands on a line of its own do not
matter: none of this changes the labels and statements of the lines in their order, and nothing else
of a line reaches the first pass.
-/

set_option autoImplicit false
set_option relaxedAutoImplicit false

namespace TernaryMachine.Assembly

inductive Opening : List Char → Prop
  | blanks {before : List Char} (blank : Text.Blanks before) : Opening before
  | label {before name gap : List Char} (blank : Text.Blanks before) (valid : isSymbol name = true)
    (blank' : Text.Blanks gap) (separated : gap ≠ []) : Opening (before ++ (name ++ ':' :: gap))

/-- A change of layout: the lines that it takes away and those that it puts in their place. -/
inductive Change : List (List Char) → List (List Char) → Prop
  | emptyLine {line : List Char} (blank : Text.Blanks line) : Change [] [line]
  | commentLine {gap : List Char} (text : List Char) (blank : Text.Blanks gap) :
    Change [] [gap ++ ';' :: text]
  | indent {gap : List Char} (line : List Char) (blank : Text.Blanks gap) :
    Change [line] [gap ++ line]
  | trail {gap : List Char} (line : List Char) (blank : Text.Blanks gap) :
    Change [line] [line ++ gap]
  | comment (line text : List Char) : Change [line] [line ++ ' ' :: ';' :: text]
  /-- The name of an instruction or directive is written in other case. -/
  | respell {front rest : List Char} (word word' : List Char) (opening : Opening front)
    (valid : isWord word = true) (stop : Text.Detached rest)
    (same : word'.map Char.toLower = word.map Char.toLower) :
    Change [front ++ (word ++ rest)] [front ++ (word' ++ rest)]
  /-- A label moves to a line of its own before what stood behind it. -/
  | detach {before gap gap' : List Char} (name rest : List Char) (valid : isSymbol name = true)
    (blank : Text.Blanks before) (blank' : Text.Blanks gap) (blank'' : Text.Blanks gap')
    (separated : gap ≠ []) :
    Change [before ++ (name ++ ':' :: (gap ++ rest))] [before ++ (name ++ [':']), gap' ++ rest]

def Edit (texts texts' : List (List Char)) : Prop :=
  ∃ before removed put after, Change removed put ∧ texts = before ++ (removed ++ after)
    ∧ texts' = before ++ (put ++ after)

theorem toUpper_toLower (c : Char) : c.toLower.toUpper = c.toUpper := by
  rcases toLower_eq_or c with same | ⟨n, first, last, rfl⟩
  · rw [same]
  · interval_cases n <;> decide

theorem toLower_eq_dot_iff {c : Char} : c.toLower = '.' ↔ c = '.' := by
  rcases toLower_eq_or c with same | ⟨n, first, last, rfl⟩
  · rw [same]
  · interval_cases n <;> decide

theorem parsePhrase_respell {word word' : List Char}
    (same : word'.map Char.toLower = word.map Char.toLower) (argument : List Char) :
    parsePhrase word' argument = parsePhrase word argument := by
  have upper : word'.map Char.toUpper = word.map Char.toUpper := by
    have raised (cs : List Char) :
        (cs.map Char.toLower).map Char.toUpper = cs.map Char.toUpper := by
      rw [List.map_map]
      exact List.map_congr_left fun c _ => toUpper_toLower c
    rw [← raised, same, raised]
  have directive {cs ds name : List Char} (same : ds.map Char.toLower = cs.map Char.toLower)
      (dot : cs = '.' :: name) : ∃ name', ds = '.' :: name' := by
    subst dot
    cases ds with
    | nil => cases same
    | cons d ds =>
      obtain ⟨first, -⟩ := List.cons.inj same
      obtain rfl := toLower_eq_dot_iff.mp first
      exact ⟨ds, rfl⟩
  unfold parsePhrase
  split
  · obtain ⟨name, rfl⟩ := directive same.symm rfl
    obtain ⟨-, same⟩ := List.cons.inj same
    exact congrArg (parseDirective · argument) (congrArg String.ofList same)
  · rename_i other
    split
    · obtain ⟨name, rfl⟩ := directive same rfl
      exact absurd rfl (other name)
    · rw [upper]

namespace Reads

variable {line : List Char} {label? : Option String} {statement? : Option Statement}

theorem append (h : Reads line label? statement?) {more : List Char} (ending : Ending false more) :
    Reads (line ++ more) label? statement? := by
  have further {afterBlank : Bool} : Ending afterBlank more := by
    cases ending with
    | blanks blank => exact .blanks blank
    | @comment gap blank separated text =>
      refine .comment blank (blankBehind_of_blanks blank ?_) text
      rintro rfl
      cases separated
  cases h with
  | empty ending => exact .empty (ending.append further)
  | body blank body ending =>
    rw [List.append_assoc, List.append_assoc]
    exact .body blank body (ending.append further)

theorem respell {front word word' rest : List Char} (opening : Opening front)
    (valid : isWord word = true) (stop : Text.Detached rest)
    (same : word'.map Char.toLower = word.map Char.toLower)
    (h : Reads (front ++ (word ++ rest)) label? statement?) :
    Reads (front ++ (word' ++ rest)) label? statement? := by
  have valid' : isWord word' = true := by
    rw [← isWord_map isWordChar_toLower, same, isWord_map isWordChar_toLower, valid]
  have spelt {before : List Char} {label? : Option String} (blank : Text.Blanks before)
      (h : Reads (before ++ (word ++ rest)) label? statement?) :
      Reads (before ++ (word' ++ rest)) label? statement? := by
    rw [reads_word_iff blank valid stop] at h
    rw [reads_word_iff blank valid' stop]
    simpa only [parsePhrase_respell same] using h
  cases opening with
  | blanks blank => exact spelt blank h
  | @label before name gap blank symbol blank' separated =>
    have stop (word : List Char) : Text.Detached (gap ++ (word ++ rest)) :=
      blank'.detached.append fun none => absurd none separated
    have whole (word : List Char) : before ++ (name ++ ':' :: gap) ++ (word ++ rest)
        = before ++ (name ++ ':' :: (gap ++ (word ++ rest))) := by simp
    rw [whole, reads_label_iff blank symbol (stop word)] at h
    rw [whole, reads_label_iff blank symbol (stop word')]
    exact ⟨h.1, spelt blank' h.2⟩

end Reads

namespace Survey

variable {s t : Survey}

theorem lines?_append (s : Survey) (xs ys : List (List Char)) :
    s.lines? (xs ++ ys) = (s.lines? xs).bind fun t => t.lines? ys := by
  induction xs generalizing s with
  | nil => rfl
  | cons x xs ih =>
    change ((s.line? x).bind fun t => t.lines? (xs ++ ys)) = _
    simp only [ih]
    exact (Option.bind_assoc _ _ _).symm

theorem lines?_singleton_eq_some_iff {line : List Char} :
    s.lines? [line] = some t ↔ ∃ label? statement? u, Reads line label? statement?
      ∧ label?.elim (some s) s.label? = some u
      ∧ statement?.elim (some u) u.statement? = some t := by
  have single : s.lines? [line] = s.line? line := Option.bind_fun_some _
  rw [single, line?]
  constructor
  · intro h
    obtain ⟨⟨label?, statement?⟩, found, h⟩ := Option.bind_eq_some_iff.mp h
    obtain ⟨u, labelled, stated⟩ := Option.bind_eq_some_iff.mp h
    exact ⟨label?, statement?, u, contents?_eq_some_iff.mp found, labelled, stated⟩
  · rintro ⟨label?, statement?, u, reads, labelled, stated⟩
    exact Option.bind_eq_some_iff.mpr
      ⟨_, contents?_eq_some_iff.mpr reads, Option.bind_eq_some_iff.mpr ⟨u, labelled, stated⟩⟩

theorem lines?_of_reads {line line' : List Char}
    (same : ∀ label? statement?, Reads line label? statement? → Reads line' label? statement?)
    (h : s.lines? [line] = some t) : s.lines? [line'] = some t := by
  rw [lines?_singleton_eq_some_iff] at h ⊢
  obtain ⟨label?, statement?, u, reads, labelled, stated⟩ := h
  exact ⟨label?, statement?, u, same _ _ reads, labelled, stated⟩

theorem lines?_of_ending {line : List Char} (ending : Ending true line) :
    s.lines? [line] = some s :=
  lines?_singleton_eq_some_iff.mpr ⟨none, none, s, .empty ending, rfl, rfl⟩

/-- The first pass does not notice a change of layout. -/
theorem lines?_of_change {removed put : List (List Char)} (change : Change removed put)
    (h : s.lines? removed = some t) : s.lines? put = some t := by
  cases change with
  | emptyLine blank =>
    cases h
    exact lines?_of_ending (.blanks blank)
  | commentLine text blank =>
    cases h
    exact lines?_of_ending (.comment blank (blankBehind_of_blanks blank fun _ => rfl) text)
  | indent line blank => exact lines?_of_reads (fun _ _ => .indent blank) h
  | trail line blank => exact lines?_of_reads (fun _ _ reads => reads.append (.blanks blank)) h
  | comment line text =>
    have ending : Ending false ([' '] ++ ';' :: text) := .comment Text.blanks_space rfl text
    exact lines?_of_reads (fun _ _ reads => reads.append ending) h
  | respell word word' opening valid stop same =>
    exact lines?_of_reads (fun _ _ => .respell opening valid stop same) h
  | @detach before gap gap' name rest valid blank blank' blank'' separated =>
    obtain ⟨label?, statement?, u, reads, labelled, stated⟩ := lines?_singleton_eq_some_iff.mp h
    have stop : Text.Detached (gap ++ rest) :=
      blank'.detached.append fun none => absurd none separated
    obtain ⟨rfl, behind⟩ := (reads_label_iff blank valid stop).mp reads
    -- The label binds before the statement in either layout, so that the surveys meet in between.
    have first : s.lines? [before ++ (name ++ [':'])] = some u := by
      refine lines?_singleton_eq_some_iff.mpr ⟨_, none, u, ?_, labelled, rfl⟩
      exact (reads_label_iff blank valid fun _ none => by simp at none).mpr
        ⟨rfl, .empty (.blanks Text.blanks_nil)⟩
    have second : u.lines? [gap' ++ rest] = some t :=
      lines?_singleton_eq_some_iff.mpr
        ⟨none, statement?, u, (behind.of_indent blank').indent blank'', rfl, stated⟩
    rw [← List.singleton_append, lines?_append, first]
    exact second

theorem lines?_of_edit {texts texts' : List (List Char)} (edit : Edit texts texts')
    (h : s.lines? texts = some t) : s.lines? texts' = some t := by
  obtain ⟨before, removed, put, after, change, rfl, rfl⟩ := edit
  simp only [lines?_append, Option.bind_eq_some_iff] at h ⊢
  obtain ⟨u, first, v, changed, last⟩ := h
  exact ⟨u, first, v, lines?_of_change change changed, last⟩

theorem lines?_of_edits {texts texts' : List (List Char)}
    (edits : Relation.ReflTransGen Edit texts texts') (h : s.lines? texts = some t) :
    s.lines? texts' = some t := by
  induction edits with
  | refl => exact h
  | tail _ edit ih => exact lines?_of_edit edit ih

end Survey

/-- A source assembles to the same program however often its layout is changed. -/
theorem assemble_of_edits {source source' : List Char} {p : Program}
    (assembled : assemble source = .ok p)
    (edits : Relation.ReflTransGen Edit (Text.lines source) (Text.lines source')) :
    assemble source' = .ok p := by
  obtain ⟨s, surveyed, written⟩ := exists_survey_of_assemble assembled
  exact assemble_of_survey (Survey.lines?_of_edits edits surveyed) written

theorem assemble_of_edits_of_labelled_load :
    let source := "start: lda #';\n.data \"a;b\"".toList
    let source' := "; a table\n\nstart:\n\tLDA #'; ; \"it's\\\n.data \"a;b\" \n".toList
    let p : Program := ⟨0, [48, -16, 42, -16, 43].map fun n => Tryte.ofDigits n 0⟩
    assemble source = .ok p ∧ Relation.ReflTransGen Edit (Text.lines source) (Text.lines source')
      ∧ assemble source' = .ok p := by
  intro source source' p
  have none := Text.blanks_nil
  have space := Text.blanks_space
  have tab : Text.Blanks ['\t'] := by simp [Text.Blanks, Text.isBlank]
  have stop : Text.Detached " #';".toList := by simp [Text.Detached, Text.isBlank]
  let data := ".data \"a;b\"".toList
  let start := "start:".toList
  let load := "lda #';".toList
  let load' := "LDA #';".toList
  let noted := "\tLDA #'; ; \"it's\\".toList
  have detached : Edit (Text.lines source) [start, load, data] :=
    ⟨[], _, _, [data], .detach "start".toList load (by decide) none space none (by simp),
      by decide +kernel, by decide +kernel⟩
  have spelt : Edit [start, load, data] [start, load', data] :=
    ⟨[start], _, _, [data], .respell "lda".toList "LDA".toList (.blanks none) (by decide) stop rfl,
      by decide +kernel, by decide +kernel⟩
  have indented : Edit [start, load', data] [start, '\t' :: load', data] :=
    ⟨[start], _, _, [data], .indent load' tab, rfl, rfl⟩
  have commented : Edit [start, '\t' :: load', data] [start, noted, data] :=
    ⟨[start], _, _, [data], .comment ('\t' :: load') " \"it's\\".toList, rfl, by decide +kernel⟩
  have padded : Edit [start, noted, data] [start, noted, data ++ [' ']] :=
    ⟨[start, noted], _, _, [], .trail data space, rfl, rfl⟩
  have parted : Edit [start, noted, data ++ [' ']] [[], start, noted, data ++ [' ']] :=
    ⟨[], _, _, [start, noted, data ++ [' ']], .emptyLine none, rfl, rfl⟩
  have headed : Edit [[], start, noted, data ++ [' ']] (Text.lines source') :=
    ⟨[], _, _, [[], start, noted, data ++ [' ']], .commentLine " a table".toList none, rfl,
      by decide +kernel⟩
  have edits := (((((Relation.ReflTransGen.single detached).tail spelt).tail indented).tail
    commented).tail padded).tail parted |>.tail headed
  have assembled : assemble source = .ok p := by decide +kernel
  exact ⟨assembled, edits, assemble_of_edits assembled edits⟩

end TernaryMachine.Assembly
