import TernaryMachine.Proofs.LineEdits

/-!
A word as its two halves. A directive that lays down a word and two directives that lay down the
halves of the same term leave different items to be written. The items take the same place and bind
no name, so that the first pass goes on alike behind them, and the second pass writes the same
trytes for them or refuses both.
-/

set_option autoImplicit false
set_option relaxedAutoImplicit false

namespace TernaryMachine.Assembly

/-- Items that take the same place and for which the second pass writes the same trytes, from every
address and under every table of names, or for which it writes none. -/
structure Item.Alike (xs ys : List Item) : Prop where
  size : (xs.map Item.size).sum = (ys.map Item.size).sum
  written : ∀ table address, Item.writeAll? table address xs = Item.writeAll? table address ys

theorem Item.Alike.symm {xs ys : List Item} (h : Alike xs ys) : Alike ys xs :=
  ⟨h.size.symm, fun table address => (h.written table address).symm⟩

theorem Item.Alike.append {xs ys xs' ys' : List Item} (h : Alike xs ys) (h' : Alike xs' ys') :
    Alike (xs ++ xs') (ys ++ ys') where
  size := by simp only [List.map_append, List.sum_append, h.size, h'.size]
  written table address := by
    apply Option.ext
    intro code
    rw [writeAll?_append_eq_some_iff, writeAll?_append_eq_some_iff]
    simp only [h.written, h'.written]

theorem Item.alike_halves (t : Term) :
    Alike [.value .word ⟨.full, t⟩] [.value .tryte ⟨.low, t⟩, .value .tryte ⟨.high, t⟩] where
  size := rfl
  written table address := by
    have halves (whole : Int) : (do
        let value ← Selector.full.of? whole
        Layout.word.write? value address) = (do
        let low ← (Selector.low.of? whole).bind fun value => Layout.tryte.write? value address
        let high ← (Selector.high.of? whole).bind fun value =>
          Layout.tryte.write? value (address + 1)
        return low ++ high) := by
      cases fits : Word.ofInt? whole with
      | none => simp [Selector.of?, Layout.write?, fits]
      | some w => simp [Selector.of?, Layout.write?, fits]
    cases t with
    | number n =>
      simpa [writeAll?, write?, Expression.value?, Item.size, Layout.size] using halves n
    | symbol name offset =>
      cases bound : table name with
      | none => simp [writeAll?, write?, Expression.value?, bound]
      | some base =>
        cases sum : Signed32.add? base offset with
        | none => simp [writeAll?, write?, Expression.value?, bound, sum]
        | some whole =>
          simpa [writeAll?, write?, Expression.value?, Item.size, Layout.size, bound, sum]
            using halves whole

namespace Survey

structure Alike (s t : Survey) : Prop where
  origin? : s.origin? = t.origin?
  bindings : s.bindings = t.bindings
  items : Item.Alike s.items t.items

namespace Alike

variable {s t s' : Survey}

theorem symm (h : Alike s t) : Alike t s := ⟨h.origin?.symm, h.bindings.symm, h.items.symm⟩

theorem origin (h : Alike s t) : s.origin = t.origin := congrArg (Option.getD · 0) h.origin?

theorem count (h : Alike s t) : s.count = t.count := h.items.size

theorem address (h : Alike s t) : s.address = t.address := by
  rw [Survey.address, Survey.address, h.origin, h.count]

theorem isFresh (h : Alike s t) : s.isFresh = t.isFresh := by
  rw [Survey.isFresh, Survey.isFresh, h.origin?, h.count]

theorem lookup (h : Alike s t) : s.lookup = t.lookup := by
  have resolve : s.resolve = t.resolve := by
    funext b
    cases b with
    | start => exact h.origin
    | fixed value => rfl
  funext name
  rw [Survey.lookup, Survey.lookup, h.bindings, resolve]

theorem word? (h : Alike s t) (e : Expression) : s.word? e = t.word? e := by
  rw [Survey.word?, Survey.word?, h.lookup]

theorem program? (h : Alike s t) : s.program? = t.program? := by
  rw [Survey.program?, Survey.program?, h.origin, h.lookup, h.items.written]

theorem add (h : Alike s t) (item : Item) : Alike (s.add item) (t.add item) where
  origin? := h.origin?
  bindings := h.bindings
  items := h.items.append ⟨rfl, fun _ _ => rfl⟩

theorem bind? (h : Alike s t) {name : String} {b : Binding} (hs : s.bind? name b = some s') :
    ∃ t', t.bind? name b = some t' ∧ Alike s' t' := by
  obtain ⟨new, rfl⟩ := bind?_eq_some_iff.mp hs
  rw [h.bindings] at new
  refine ⟨_, bind?_eq_some_iff.mpr ⟨new, rfl⟩, h.origin?, ?_, h.items⟩
  exact congrArg ((name, b) :: ·) h.bindings

theorem label? (h : Alike s t) {name : String} (hs : s.label? name = some s') :
    ∃ t', t.label? name = some t' ∧ Alike s' t' := by
  rw [Survey.label?, h.isFresh, h.address] at hs
  exact h.bind? hs

theorem define? (h : Alike s t) {name : String} {w : Word} (hs : s.define? name w = some s') :
    ∃ t', t.define? name w = some t' ∧ Alike s' t' := by
  obtain ⟨s₁, whole, hs⟩ := Option.bind_eq_some_iff.mp hs
  obtain ⟨s₂, low, high⟩ := Option.bind_eq_some_iff.mp hs
  obtain ⟨t₁, whole', h₁⟩ := h.bind? whole
  obtain ⟨t₂, low', h₂⟩ := h₁.bind? low
  obtain ⟨t₃, high', h₃⟩ := h₂.bind? high
  exact ⟨t₃, Option.bind_eq_some_iff.mpr ⟨t₁, whole',
    Option.bind_eq_some_iff.mpr ⟨t₂, low', high'⟩⟩, h₃⟩

theorem moveTo? (h : Alike s t) {target : Int} (hs : s.moveTo? target = some s') :
    ∃ t', t.moveTo? target = some t' ∧ Alike s' t' := by
  unfold Survey.moveTo? at hs ⊢
  rw [← h.isFresh, ← h.address]
  split_ifs at hs ⊢
  · cases hs
    exact ⟨_, rfl, rfl, h.bindings, h.items⟩
  · cases hs
    exact ⟨_, rfl, h.add _⟩

theorem statement? (h : Alike s t) {statement : Statement}
    (hs : s.statement? statement = some s') :
    ∃ t', t.statement? statement = some t' ∧ Alike s' t' := by
  cases statement with
  | origin target =>
    obtain ⟨w, known, hs⟩ := Option.bind_eq_some_iff.mp hs
    rw [h.word?] at known
    obtain ⟨t', moved, h'⟩ := h.moveTo? hs
    exact ⟨t', Option.bind_eq_some_iff.mpr ⟨w, known, moved⟩, h'⟩
  | define name value =>
    obtain ⟨w, known, hs⟩ := Option.bind_eq_some_iff.mp hs
    rw [h.word?] at known
    obtain ⟨t', defined, h'⟩ := h.define? hs
    exact ⟨t', Option.bind_eq_some_iff.mpr ⟨w, known, defined⟩, h'⟩
  | value layout e =>
    cases hs
    exact ⟨_, rfl, h.add _⟩
  | data trytes =>
    cases hs
    exact ⟨_, rfl, h.add _⟩
  | instruction i argument? =>
    cases argument? with
    | none =>
      cases hs
      exact ⟨_, rfl, h.add _⟩
    | some argument =>
      cases hs
      exact ⟨_, rfl, (h.add _).add _⟩

theorem line? (h : Alike s t) {text : List Char} (hs : s.line? text = some s') :
    ∃ t', t.line? text = some t' ∧ Alike s' t' := by
  obtain ⟨⟨label?, statement?⟩, found, hs⟩ := Option.bind_eq_some_iff.mp hs
  obtain ⟨s₁, labelled, stated⟩ := Option.bind_eq_some_iff.mp hs
  obtain ⟨t₁, labelled', h₁⟩ : ∃ t₁, label?.elim (some t) t.label? = some t₁ ∧ Alike s₁ t₁ := by
    cases label? with
    | none =>
      cases labelled
      exact ⟨t, rfl, h⟩
    | some name => exact h.label? labelled
  obtain ⟨t', stated', h'⟩ : ∃ t', statement?.elim (some t₁) t₁.statement? = some t'
      ∧ Alike s' t' := by
    cases statement? with
    | none =>
      cases stated
      exact ⟨t₁, rfl, h₁⟩
    | some statement => exact h₁.statement? stated
  exact ⟨t', Option.bind_eq_some_iff.mpr
    ⟨_, found, Option.bind_eq_some_iff.mpr ⟨t₁, labelled', stated'⟩⟩, h'⟩

theorem lines? (h : Alike s t) {texts : List (List Char)} (hs : s.lines? texts = some s') :
    ∃ t', t.lines? texts = some t' ∧ Alike s' t' := by
  induction texts generalizing s t with
  | nil =>
    cases hs
    exact ⟨t, rfl, h⟩
  | cons text rest ih =>
    obtain ⟨s₁, line, hs⟩ := Option.bind_eq_some_iff.mp hs
    obtain ⟨t₁, line', h₁⟩ := h.line? line
    obtain ⟨t', rest', h'⟩ := ih h₁ hs
    exact ⟨t', Option.bind_eq_some_iff.mpr ⟨t₁, line', rest'⟩, h'⟩

end Alike

end Survey

theorem behind_blanks_unique {gap gap' cs cs' tail tail' : List Char} (blank : Text.Blanks gap)
    (blank' : Text.Blanks gap') (nonempty : cs ≠ []) (nonempty' : cs' ≠ [])
    (solid : Text.Solid cs) (solid' : Text.Solid cs')
    (same : gap ++ (cs ++ tail) = gap' ++ (cs' ++ tail')) : cs ++ tail = cs' ++ tail' := by
  obtain ⟨c, rest, rfl⟩ := List.exists_cons_of_ne_nil nonempty
  obtain ⟨d, rest', rfl⟩ := List.exists_cons_of_ne_nil nonempty'
  rw [List.cons_append, List.cons_append] at same ⊢
  rw [← (Text.span_blanks blank (solid.first c rfl)).2, same,
    (Text.span_blanks blank' (solid'.first d rfl)).2]

def Unselected (cs : List Char) : Prop := ∀ c ∈ cs.head?, c ≠ '<' ∧ c ≠ '>'

theorem Unselected.append {cs : List Char} (h : Unselected cs) (nonempty : cs ≠ [])
    (more : List Char) : Unselected (cs ++ more) := by
  intro c member
  rw [List.head?_append_of_ne_nil _ nonempty] at member
  exact h c member

/-- A text that begins with a term and goes on, if at all, with what may stand at the end of a
line. -/
def BeginsWith (cs : List Char) (t : Term) : Prop :=
  ∃ text more, cs = text ++ more ∧ Grammar.DenotesTerm text t
    ∧ ∀ tail, Ending false tail → Ending false (more ++ tail)

inductive LaysDown : List Char → Layout → Prop
  | word : LaysDown ".word".toList .word
  | tryte : LaysDown ".tryte".toList .tryte

/-- A directive with its name in either case, its argument behind blanks, and the end of the
line. -/
inductive Directive (name argument : List Char) : List Char → Prop
  | mk {word gap tail : List Char} (spelt : word.map Char.toLower = name)
    (blank : Text.Blanks gap) (separated : gap ≠ []) (ending : Ending false tail) :
    Directive name argument (word ++ (gap ++ (argument ++ tail)))

namespace Grammar

theorem unselected_of_denotesTerm {cs : List Char} {t : Term} (h : DenotesTerm cs t)
    (more : List Char) : Unselected (cs ++ more) := by
  obtain ⟨c, rest, rfl, begins⟩ := (ends_of_denotesTerm h).first
  simp only [beginsTerm, Bool.and_eq_true, bne_iff_ne] at begins
  rintro _ ⟨⟩
  exact ⟨begins.1.1.1.2, begins.1.1.2⟩

theorem selection_unique {s s' : Selector} {cs cs' : List Char} (h : Unselected cs)
    (h' : Unselected cs') (same : selection s ++ cs = selection s' ++ cs') : s = s' ∧ cs = cs' := by
  have clash {c : Char} {ds es : List Char} (h : Unselected ds) (mark : c = '<' ∨ c = '>') :
      ds ≠ c :: es := by
    rintro rfl
    rcases mark with rfl | rfl
    · exact (h '<' rfl).1 rfl
    · exact (h '>' rfl).2 rfl
  cases s with
  | full =>
    cases s' with
    | full => exact ⟨rfl, same⟩
    | low => exact absurd same (clash h (.inl rfl))
    | high => exact absurd same (clash h (.inr rfl))
  | low =>
    cases s' with
    | full => exact absurd same.symm (clash h' (.inl rfl))
    | low => exact ⟨rfl, (List.cons.inj same).2⟩
    | high => exact absurd (List.cons.inj same).1 (by decide)
  | high =>
    cases s' with
    | full => exact absurd same.symm (clash h' (.inr rfl))
    | low => exact absurd (List.cons.inj same).1 (by decide)
    | high => exact ⟨rfl, (List.cons.inj same).2⟩

theorem solid_selection {cs : List Char} (solid : Text.Solid cs) (nonempty : cs ≠ [])
    (s : Selector) : Text.Solid (selection s ++ cs) := by
  have marked {c : Char} (ink : Text.isInk c = true) : Text.Solid ([c] ++ cs) :=
    (Text.Inked.solid (List.forall_mem_singleton.mpr ink)).append (List.cons_ne_nil c []) solid
      nonempty []
  cases s with
  | full => exact solid
  | low => exact marked (by decide)
  | high => exact marked (by decide)

theorem exists_of_denotesExpression {cs : List Char} {e : Expression} (solid : Text.Solid cs)
    (h : DenotesExpression cs e) :
    ∃ text, DenotesTerm text e.term ∧ cs = selection e.selector ++ text := by
  obtain ⟨before, text, after, blank, blank', term, rfl⟩ := h
  have ends := ends_of_denotesTerm term
  obtain ⟨c, rest, rfl, -⟩ := ends.first
  refine ⟨_, term, ?_⟩
  rw [← Text.trim_of_ink solid.first solid.last]
  exact Text.trim_surrounded blank blank' (by simp) (solid_of_ends ends _)

end Grammar

theorem Ending.of_append_solid {more tail : List Char} (h : Ending false (more ++ tail))
    (ink : ∀ c ∈ more.getLast?, Text.isInk c = true) {other : List Char}
    (ending : Ending false other) : Ending false (more ++ other) := by
  rcases List.eq_nil_or_concat more with rfl | ⟨front, c, rfl⟩
  · exact ending
  · rw [List.concat_eq_append] at *
    have ink : Text.isInk c = true := ink c (by simp)
    have inked (member : Text.isBlank c = true) : False := by
      rw [Text.isInk_eq_false_of_isBlank member] at ink
      cases ink
    generalize whole : front ++ [c] ++ tail = cs at h
    cases h with
    | blanks blank => exact (inked (blank c (by simp [← whole]))).elim
    | @comment gap blank separated text =>
      -- The semicolon does not stand behind the text, or its last character would be a blank.
      obtain ⟨rest, same⟩ : ∃ rest, front ++ [c] = gap ++ ';' :: rest := by
        rcases List.append_eq_append_iff.mp whole with ⟨rest, rfl, -⟩ | ⟨rest, same, behind⟩
        · exact (inked (blank c (by simp))).elim
        · cases rest with
          | nil =>
            rw [List.append_nil] at same
            exact (inked (blank c (by simp [← same]))).elim
          | cons d rest =>
            obtain ⟨rfl, -⟩ := List.cons.inj behind
            exact ⟨rest, same⟩
      rw [same, List.append_assoc, List.cons_append]
      exact .comment blank separated _

theorem beginsWith_of_append {value tail text tail' : List Char} {t : Term}
    (solid : Text.Solid value) (ending : Ending false tail) (term : Grammar.DenotesTerm text t)
    (ending' : Ending false tail') (same : value ++ tail = text ++ tail') : BeginsWith value t := by
  rcases List.append_eq_append_iff.mp same with ⟨more, rfl, behind⟩ | ⟨more, rfl, rfl⟩
  · -- A term holds no blank, so that it does not reach into the end of the line.
    cases more with
    | nil =>
      rw [List.append_nil] at term
      exact ⟨value, [], by simp, term, fun _ => id⟩
    | cons c more =>
      have blank : Text.isBlank c = true := ending.detached c (by simp [behind])
      have ink := Grammar.isInk_of_denotesTerm term c (by simp)
      rw [Text.isInk_eq_false_of_isBlank blank] at ink
      cases ink
  · refine ⟨text, more, rfl, term, fun other => ending'.of_append_solid fun c member => ?_⟩
    exact solid.last c (by rw [List.getLast?_append, Option.mem_def.mp member]; rfl)

namespace LaysDown

variable {name word : List Char} {layout : Layout}

theorem isWord (h : LaysDown name layout) (spelt : word.map Char.toLower = name) :
    Assembly.isWord word = true := by
  rw [← isWord_map isWordChar_toLower, spelt]
  cases h <;> decide

theorem parsePhrase_eq (h : LaysDown name layout) (spelt : word.map Char.toLower = name)
    (argument : List Char) : parsePhrase word argument
      = if argument.isEmpty then .error (.missingOperand (String.ofList name))
        else (parseValue argument).map (.value layout) := by
  have same : word.map Char.toLower = name.map Char.toLower := by
    rw [spelt]
    cases h <;> decide
  rw [parsePhrase_respell same]
  cases h <;> rfl

theorem parsePhrase_eq_ok_iff (h : LaysDown name layout) (spelt : word.map Char.toLower = name)
    {argument : List Char} (solid : Text.Solid argument) {statement : Statement} :
    parsePhrase word argument = .ok statement ↔ ∃ s text t, argument = Grammar.selection s ++ text
      ∧ Grammar.DenotesTerm text t ∧ statement = .value layout ⟨s, t⟩ := by
  rw [h.parsePhrase_eq spelt]
  constructor
  · intro read
    split_ifs at read
    obtain ⟨⟨s, t⟩, parsed, rfl⟩ := map_eq_ok_iff.mp read
    obtain ⟨text, term, whole⟩ := Grammar.exists_of_denotesExpression solid
      ((Grammar.parseExpression_eq_ok_iff _ _).mp (parseValue_eq_ok_iff.mp parsed))
    exact ⟨s, text, t, whole, term, rfl⟩
  · rintro ⟨s, text, t, rfl, term, rfl⟩
    have filled : Grammar.selection s ++ text ≠ [] := by
      obtain ⟨c, rest, rfl, -⟩ := (Grammar.ends_of_denotesTerm term).first
      simp
    have parsed : parseValue (Grammar.selection s ++ text) = .ok ⟨s, t⟩ :=
      parseValue_eq_ok_iff.mpr ((Grammar.parseExpression_eq_ok_iff _ _).mpr
        ⟨[], text, [], Text.blanks_nil, Text.blanks_nil, term, by simp⟩)
    rw [if_neg (by simpa using filled), parsed]
    rfl

end LaysDown

section Lines

variable {name value line front : List Char} {layout : Layout} {s : Selector}
  {label? : Option String} {statement? : Option Statement}

theorem reads_directive_iff (lays : LaysDown name layout) (nonempty : value ≠ [])
    (solid : Text.Solid value) (unselected : Unselected value)
    (h : Directive name (Grammar.selection s ++ value) line) :
    Reads line label? statement? ↔ label? = none
      ∧ ∃ t, BeginsWith value t ∧ statement? = some (.value layout ⟨s, t⟩) := by
  obtain ⟨spelt, blank, separated, ending⟩ := h
  rename_i word gap tail
  have stop (rest : List Char) : Text.Detached (gap ++ rest) :=
    blank.detached.append fun none => absurd none separated
  rw [← List.nil_append (word ++ (gap ++ (Grammar.selection s ++ value ++ tail))),
    reads_word_iff Text.blanks_nil (lays.isWord spelt) (stop _)]
  refine and_congr_right fun _ => ⟨?_, ?_⟩
  · rintro ⟨written, tail', argument, statement, same, behind, ending', read, rfl⟩
    cases behind with
    | nothing =>
      rw [lays.parsePhrase_eq spelt] at read
      cases read
    | @argument gap' _ blank' _ nonempty' solid' =>
      obtain ⟨s', text, t, rfl, term, rfl⟩ := (lays.parsePhrase_eq_ok_iff spelt solid').mp read
      rw [List.append_assoc gap'] at same
      have arguments := behind_blanks_unique blank blank' (by simp [nonempty]) nonempty'
        (Grammar.solid_selection solid nonempty s) solid' same
      rw [List.append_assoc, List.append_assoc] at arguments
      obtain ⟨rfl, terms⟩ := Grammar.selection_unique (unselected.append nonempty tail)
        (Grammar.unselected_of_denotesTerm term tail') arguments
      exact ⟨t, beginsWith_of_append solid ending term ending' terms, rfl⟩
  · rintro ⟨t, ⟨text, more, rfl, term, further⟩, rfl⟩
    have solid' := Grammar.solid_of_ends (Grammar.ends_of_denotesTerm term) s
    have filled : Grammar.selection s ++ text ≠ [] := by
      obtain ⟨c, rest, rfl, -⟩ := (Grammar.ends_of_denotesTerm term).first
      simp
    exact ⟨gap ++ (Grammar.selection s ++ text), more ++ tail, Grammar.selection s ++ text, _,
      by simp, .argument blank separated filled solid', further _ ending,
      (lays.parsePhrase_eq_ok_iff spelt solid').mpr ⟨s, text, t, rfl, term, rfl⟩, rfl⟩

theorem Opening.exists_label (h : Opening front) : ∃ name? : Option String,
    ∀ {text : List Char} {label? : Option String} {statement? : Option Statement},
      (∀ label? statement?, Reads text label? statement? → label? = none) →
        (Reads (front ++ text) label? statement?
          ↔ label? = name? ∧ Reads text none statement?) := by
  cases h with
  | blanks blank =>
    refine ⟨none, fun unlabelled => ⟨fun reads => ?_, ?_⟩⟩
    · have inner := reads.of_indent blank
      obtain rfl := unlabelled _ _ inner
      exact ⟨rfl, inner⟩
    · rintro ⟨rfl, reads⟩
      exact reads.indent blank
  | @label before name gap blank valid blank' separated =>
    refine ⟨some (String.ofList name), fun {text} {label?} {statement?} _ => ?_⟩
    have stop : Text.Detached (gap ++ text) :=
      blank'.detached.append fun none => absurd none separated
    have whole : before ++ (name ++ ':' :: gap) ++ text
        = before ++ (name ++ ':' :: (gap ++ text)) := by simp
    rw [whole, reads_label_iff blank valid stop]
    exact and_congr_right fun _ => ⟨.of_indent blank', .indent blank'⟩

end Lines

/-- A line that lays down a word, and two lines that lay down its halves, the first of which keeps
the label. -/
inductive Halves : List Char → List Char → List Char → Prop
  | mk {front gap value word low high : List Char} (opening : Opening front)
    (blank : Text.Blanks gap) (nonempty : value ≠ []) (solid : Text.Solid value)
    (unselected : Unselected value) (whole : Directive ".word".toList value word)
    (lower : Directive ".tryte".toList ('<' :: value) low)
    (upper : Directive ".tryte".toList ('>' :: value) high) :
    Halves (front ++ word) (front ++ low) (gap ++ high)

namespace Halves

variable {line low high : List Char}

theorem exists_term (h : Halves line low high) : ∃ (name? : Option String) (term? : Option Term),
    (∀ label? statement?, Reads line label? statement?
      ↔ label? = name? ∧ ∃ t ∈ term?, statement? = some (.value .word ⟨.full, t⟩))
    ∧ (∀ label? statement?, Reads low label? statement?
      ↔ label? = name? ∧ ∃ t ∈ term?, statement? = some (.value .tryte ⟨.low, t⟩))
    ∧ ∀ label? statement?, Reads high label? statement?
      ↔ label? = none ∧ ∃ t ∈ term?, statement? = some (.value .tryte ⟨.high, t⟩) := by
  obtain ⟨opening, blank, nonempty, solid, unselected, whole, lower, upper⟩ := h
  rename_i front gap value word low high
  have word_iff (label? : Option String) (statement? : Option Statement) :
      Reads word label? statement? ↔ label? = none
        ∧ ∃ t, BeginsWith value t ∧ statement? = some (.value .word ⟨.full, t⟩) :=
    reads_directive_iff .word nonempty solid unselected whole
  have low_iff (label? : Option String) (statement? : Option Statement) :
      Reads low label? statement? ↔ label? = none
        ∧ ∃ t, BeginsWith value t ∧ statement? = some (.value .tryte ⟨.low, t⟩) :=
    reads_directive_iff .tryte nonempty solid unselected lower
  have high_iff (label? : Option String) (statement? : Option Statement) :
      Reads high label? statement? ↔ label? = none
        ∧ ∃ t, BeginsWith value t ∧ statement? = some (.value .tryte ⟨.high, t⟩) :=
    reads_directive_iff .tryte nonempty solid unselected upper
  obtain ⟨name?, labelled⟩ := opening.exists_label
  -- A line holds one statement at most, and so the text begins with one term at most.
  have unique {t t' : Term} (begins : BeginsWith value t) (begins' : BeginsWith value t') :
      t = t' := by
    have first := contents?_eq_some_iff.mpr ((word_iff none _).mpr ⟨rfl, t, begins, rfl⟩)
    have second := contents?_eq_some_iff.mpr ((word_iff none _).mpr ⟨rfl, t', begins', rfl⟩)
    rw [first] at second
    simpa using second
  obtain ⟨term?, holds⟩ : ∃ term? : Option Term, ∀ t, BeginsWith value t ↔ t ∈ term? := by
    by_cases begins : ∃ t, BeginsWith value t
    · obtain ⟨t, begins⟩ := begins
      exact ⟨some t, fun t' => ⟨fun begins' => congrArg some (unique begins begins'),
        fun same => Option.some.inj same ▸ begins⟩⟩
    · exact ⟨none, fun t => ⟨fun found => absurd ⟨t, found⟩ begins, nofun⟩⟩
  simp only [holds] at word_iff low_iff high_iff
  refine ⟨name?, term?, fun label? statement? => ?_, fun label? statement? => ?_,
    fun label? statement? => ?_⟩
  · rw [labelled fun _ _ reads => ((word_iff _ _).mp reads).1, word_iff]
    simp only [true_and]
  · rw [labelled fun _ _ reads => ((low_iff _ _).mp reads).1, low_iff]
    simp only [true_and]
  · rw [← high_iff]
    exact ⟨.of_indent blank, .indent blank⟩

end Halves

namespace Survey

variable {s u : Survey} {line low high : List Char}

theorem alike_add_halves (s : Survey) (t : Term) : Alike (s.add (.value .word ⟨.full, t⟩))
    ((s.add (.value .tryte ⟨.low, t⟩)).add (.value .tryte ⟨.high, t⟩)) where
  origin? := rfl
  bindings := rfl
  items := by
    have front : Item.Alike s.items s.items := ⟨rfl, fun _ _ => rfl⟩
    simpa [add] using front.append (Item.alike_halves t)

/-- Behind a word and behind its two halves the first pass goes on alike, or it has stopped on
either. -/
theorem lines?_of_halves (h : Halves line low high) (s : Survey) :
    Option.Rel Alike (s.lines? [line]) (s.lines? [low, high]) := by
  obtain ⟨name?, term?, word_iff, low_iff, high_iff⟩ := h.exists_term
  have single {text : List Char} {label? : Option String} {layout : Layout} {selector : Selector}
      (reads : ∀ label?' statement?, Reads text label?' statement?
        ↔ label?' = label? ∧ ∃ t ∈ term?, statement? = some (.value layout ⟨selector, t⟩))
      (s : Survey) : s.lines? [text] = do
        let t ← term?
        let u ← label?.elim (some s) s.label?
        return u.add (.value layout ⟨selector, t⟩) := by
    apply Option.ext
    intro u
    rw [lines?_singleton_eq_some_iff]
    simp only [reads, Option.bind_eq_bind, Option.bind_eq_some_iff, Option.pure_def,
      Option.some.injEq, Option.mem_def]
    constructor
    · rintro ⟨_, _, v, ⟨rfl, t, found, rfl⟩, labelled, stated⟩
      exact ⟨t, found, v, labelled, Option.some.inj stated⟩
    · rintro ⟨t, found, v, labelled, rfl⟩
      exact ⟨_, _, v, ⟨rfl, t, found, rfl⟩, labelled, rfl⟩
  rw [show [low, high] = [low] ++ [high] from rfl, lines?_append, single word_iff, single low_iff]
  simp only [single high_iff]
  cases term? with
  | none => exact .none
  | some t =>
    cases name?.elim (some s) s.label? with
    | none => exact .none
    | some u => exact .some (u.alike_add_halves t)

theorem lines?_in_halves (h : Halves line low high) (s : Survey) (before after : List (List Char)) :
    Option.Rel Alike (s.lines? (before ++ line :: after))
      (s.lines? (before ++ low :: high :: after)) := by
  have parts (texts : List (List Char)) : s.lines? (before ++ (texts ++ after))
      = (s.lines? before).bind fun u => (u.lines? texts).bind fun v => v.lines? after := by
    rw [lines?_append]
    simp only [lines?_append]
  rw [show line :: after = [line] ++ after from rfl, parts,
    show low :: high :: after = [low, high] ++ after from rfl, parts]
  cases s.lines? before with
  | none => exact .none
  | some u =>
    have parted := lines?_of_halves h u
    simp only [Option.bind_some]
    revert parted
    generalize u.lines? [line] = x
    generalize u.lines? [low, high] = y
    intro parted
    cases parted with
    | none => exact .none
    | @some v v' alike =>
      simp only [Option.bind_some]
      cases last : v.lines? after with
      | some w =>
        obtain ⟨w', last', alike⟩ := alike.lines? last
        rw [last']
        exact .some alike
      | none =>
        cases last' : v'.lines? after with
        | none => exact .none
        | some w' =>
          obtain ⟨w, found, -⟩ := alike.symm.lines? last'
          rw [last] at found
          cases found

end Survey

/-- A source with a word anywhere in it and the source with the two halves of that word in its place
assemble to the same program, or neither of them assembles. -/
theorem assemble_in_halves {source source' line low high : List Char}
    {before after : List (List Char)} (halves : Halves line low high)
    (whole : Text.lines source = before ++ line :: after)
    (cut : Text.lines source' = before ++ low :: high :: after) :
    (assemble source).toOption = (assemble source').toOption := by
  have surveyed {source : List Char} {p : Program} : assemble source = .ok p
      ↔ ∃ s, Survey.lines? {} (Text.lines source) = some s ∧ s.program? = some p :=
    ⟨exists_survey_of_assemble, fun ⟨_, found, written⟩ => assemble_of_survey found written⟩
  apply Option.ext
  intro p
  rw [toOption_eq_some_iff, toOption_eq_some_iff, surveyed, surveyed, whole, cut]
  have parted := Survey.lines?_in_halves halves {} before after
  revert parted
  generalize Survey.lines? {} (before ++ line :: after) = x
  generalize Survey.lines? {} (before ++ low :: high :: after) = y
  intro parted
  cases parted with
  | none => rfl
  | some alike =>
    simp only [Option.some.injEq, exists_eq_left', alike.program?]

theorem assemble_in_halves_of_forward_reference :
    let line := "start: .word end+400 ; two trytes".toList
    let low := "start: .TRYTE <end+400".toList
    let high := "\t.tryte >end+400 ;".toList
    let rest := "end: .word start".toList
    let source := line ++ '\n' :: rest
    let source' := low ++ '\n' :: (high ++ '\n' :: rest)
    Halves line low high ∧ Text.lines source = [] ++ line :: [rest]
      ∧ Text.lines source' = [] ++ low :: high :: [rest]
      ∧ (assemble source).toOption = (assemble source').toOption
      ∧ assemble source = .ok ⟨0, [-84, 2, 0, 0].map fun n => Tryte.ofDigits n 0⟩ := by
  intro line low high rest source source'
  have space := Text.blanks_space
  have opening : Opening "start: ".toList :=
    show Opening ([] ++ ("start".toList ++ ':' :: [' '])) from
      .label Text.blanks_nil (by decide) space (by simp)
  have note : Ending false " ; two trytes".toList := .comment space rfl " two trytes".toList
  have tab : Text.Blanks ['\t'] := by simp [Text.Blanks, Text.isBlank]
  have solid : Text.Solid "end+400".toList := Text.Inked.solid (by simp [Text.Inked]; decide)
  have word : Directive ".word".toList "end+400".toList ".word end+400 ; two trytes".toList :=
    @Directive.mk _ _ ".word".toList [' '] _ rfl space (by simp) note
  have lower : Directive ".tryte".toList "<end+400".toList ".TRYTE <end+400".toList :=
    @Directive.mk _ _ ".TRYTE".toList [' '] [] rfl space (by simp) (.blanks Text.blanks_nil)
  have upper : Directive ".tryte".toList ">end+400".toList ".tryte >end+400 ;".toList :=
    @Directive.mk _ _ ".tryte".toList [' '] _ rfl space (by simp) (.comment space rfl [])
  have halves : Halves line low high :=
    @Halves.mk _ ['\t'] "end+400".toList _ _ _ opening tab (by simp) solid (by simp [Unselected])
      word lower upper
  have whole : Text.lines source = [] ++ line :: [rest] := by decide +kernel
  have cut : Text.lines source' = [] ++ low :: high :: [rest] := by decide +kernel
  exact ⟨halves, whole, cut, assemble_in_halves halves whole cut, by decide +kernel⟩

end TernaryMachine.Assembly
