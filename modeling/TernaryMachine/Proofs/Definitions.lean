import TernaryMachine.Proofs.Correspondence

/-!
What a defined name means in the end. A definition takes the value that its expression has on its
line, and the name keeps it. The symbols of the expression keep their values too, all but the labels
that the first origin moves: a name that is defined from such a label stays behind where the label
was.
-/

set_option autoImplicit false
set_option relaxedAutoImplicit false

namespace TernaryMachine.Assembly

/-- Whether a symbol is a label that the first origin would move. -/
def floats (a : Assembly) (name : String) : Bool := a.isFresh && a.floating.contains name

structure BindsWord (a : Assembly) (name : String) (w : Word) : Prop where
  whole : a.lookup name = some w.val
  low : a.lookup (name ++ ".low") = some w.low.val
  high : a.lookup (name ++ ".high") = some w.high.val

theorem Expression.value?_congr {e : Expression} {table table' : String → Option Int}
    (same : ∀ name, e.symbol? = some name → table' name = table name) :
    e.value? table' = e.value? table := by
  obtain ⟨selector, term⟩ := e
  cases term with
  | number n => rfl
  | symbol name offset => simp only [value?, same name rfl]

theorem Expression.exists_of_value? {e : Expression} {table : String → Option Int} {value : Int}
    (h : e.value? table = some value) {name : String} (symbol : e.symbol? = some name) :
    ∃ base, table name = some base := by
  obtain ⟨selector, term⟩ := e
  cases term with
  | number n => cases symbol
  | symbol other offset =>
    cases symbol
    obtain ⟨base, found, -⟩ := Option.bind_eq_some_iff.mp h
    exact ⟨base, found⟩

theorem Expression.value?_full {name : String} {offset value : Int}
    {table : String → Option Int}
    (h : (⟨.full, .symbol name offset⟩ : Expression).value? table = some value) :
    ∃ base, table name = some base ∧ value = base + offset := by
  obtain ⟨base, found, h⟩ := Option.bind_eq_some_iff.mp h
  obtain ⟨whole, sum, h⟩ := Option.bind_eq_some_iff.mp h
  obtain rfl : whole = value := Option.some.inj h
  exact ⟨base, found, (Signed32.check?_eq_some_iff.mp sum).2.symm⟩

namespace Survey

def Extends (s t : Survey) : Prop :=
  ∀ name b, s.bindings.lookup name = some b → t.bindings.lookup name = some b

theorem isProgress_extends : IsProgress Extends where
  refl _ _ _ := id
  trans h k name b bound := k name b (h name b bound)
  add _ _ _ _ := id
  bind h _ _ := binding_of_bind? h
  start _ _ _ _ := id

theorem bindings_of_define? {s t : Survey} {name : String} {w : Word}
    (h : s.define? name w = some t) :
    t.bindings.lookup name = some (.fixed w.val)
      ∧ t.bindings.lookup (name ++ ".low") = some (.fixed w.low.val)
      ∧ t.bindings.lookup (name ++ ".high") = some (.fixed w.high.val) := by
  have bound {s t : Survey} {name : String} {b : Binding} (h : s.bind? name b = some t) :
      t.bindings.lookup name = some b := by
    obtain ⟨-, rfl⟩ := bind?_eq_some_iff.mp h
    exact List.lookup_cons_self
  obtain ⟨u, whole, h⟩ := Option.bind_eq_some_iff.mp h
  obtain ⟨v, low, high⟩ := Option.bind_eq_some_iff.mp h
  exact ⟨binding_of_bind? high (binding_of_bind? low (bound whole)),
    binding_of_bind? high (bound low), bound high⟩

theorem lookup_bindings_eq_some_iff {bindings : List (String × Binding)} {name : String}
    {b : Binding} (distinct : (bindings.map Prod.fst).Nodup) :
    bindings.lookup name = some b ↔ (name, b) ∈ bindings := by
  constructor
  · intro found
    obtain ⟨front, back, rfl, -⟩ := List.lookup_eq_some_iff.mp found
    simp
  · intro mem
    obtain ⟨front, back, rfl⟩ := List.append_of_mem mem
    refine List.lookup_eq_some_iff.mpr ⟨front, back, rfl, fun p earlier => ?_⟩
    rw [List.map_append, List.nodup_append] at distinct
    have differ := distinct.2.2 p.1 (List.mem_map_of_mem earlier) name (by simp)
    simp [Ne.symm differ]

end Survey

namespace Agrees

variable {a b : Assembly} {s t : Survey}

theorem floats_eq_true_iff (h : Agrees a s) {name : String} :
    a.floats name = true ↔ s.isFresh = true ∧ s.bindings.lookup name = some .start := by
  rw [floats, Bool.and_eq_true, h.isFresh, List.contains_iff_mem]
  refine and_congr_right fun fresh => ?_
  rw [h.floating fresh, Survey.lookup_bindings_eq_some_iff h.distinct]

theorem lookup_of_floats (h : Agrees a s) {name : String} (floats : a.floats name = true) :
    a.lookup name = some 0 := by
  obtain ⟨fresh, bound⟩ := h.floats_eq_true_iff.mp floats
  rw [h.lookup, Survey.lookup, bound, Option.map_some, Survey.resolve, Survey.origin,
    (s.isFresh_eq_true_iff.mp fresh).1]
  rfl

/-- What becomes of a symbol: a label that floats ends at the origin, and any other symbol keeps its
value. -/
theorem lookup_later (h : Agrees a s) (k : Agrees b t) (later : Survey.Extends s t)
    (continues : Survey.Continues s t) {name : String} {value : Int}
    (known : a.lookup name = some value) :
    b.lookup name = some (if a.floats name then b.origin else value) := by
  rw [k.lookup, k.origin]
  rw [h.lookup] at known
  obtain ⟨c, bound, rfl⟩ := Option.map_eq_some_iff.mp known
  have kept : t.lookup name = some (t.resolve c) := by
    rw [Survey.lookup, later name c bound]
    rfl
  cases floats : a.floats name with
  | true =>
    have start := (h.floats_eq_true_iff.mp floats).2
    rw [bound] at start
    cases start
    exact kept
  | false =>
    cases fresh : s.isFresh with
    | false => exact (continues.settled fresh).2.2 name _ known
    | true =>
      cases c with
      | fixed value => exact kept
      | start =>
        rw [h.floats_eq_true_iff.mpr ⟨fresh, bound⟩] at floats
        cases floats

theorem bindsWord_of_define? (h : Agrees b t) {r : Survey} {name : String} {w : Word}
    (defined : s.define? name w = some r) (later : Survey.Extends r t) : b.BindsWord name w := by
  obtain ⟨whole, low, high⟩ := Survey.bindings_of_define? defined
  have fixed {name : String} {value : Int}
      (bound : r.bindings.lookup name = some (.fixed value)) : b.lookup name = some value := by
    rw [h.lookup, Survey.lookup, later _ _ bound]
    rfl
  exact ⟨fixed whole, fixed low, fixed high⟩

end Agrees

theorem stages_of_line {source : List Char} {p : Program} (assembled : assemble source = .ok p)
    {before after : List (List Char)} {text : List Char}
    (lines : Text.lines source = before ++ text :: after) :
    ∃ a b c, emitLines {} 1 before = .ok a ∧ a.emitLine (1 + before.length) text = .ok b
      ∧ b.emitLines (1 + before.length + 1) after = .ok c
      ∧ emitLines {} 1 (Text.lines source) = .ok c ∧ ∀ s, Agrees c s → s.program? = some p := by
  obtain ⟨c, laid, filled⟩ := bind_eq_ok_iff.mp assembled
  have parts := laid
  rw [lines, emitLines_append_eq_ok_iff] at parts
  obtain ⟨a, first, rest⟩ := parts
  obtain ⟨b, line, last⟩ := bind_eq_ok_iff.mp rest
  exact ⟨a, b, c, first, onLine_eq_ok_iff.mp line, last, laid,
    fun _ agrees => agrees.toProgram_eq_ok_iff.mp filled⟩

theorem Agrees.exists_of_define {a b d : Assembly} {r : Survey} (h : Agrees a r)
    {label? : Option String} (labelled : label?.elim (.ok a) a.label = .ok b) {number : Nat}
    {name : String} {e : Expression} (defined : b.emit number (.define name e) = .ok d) :
    ∃ s t w, Agrees b s ∧ Agrees d t ∧ e.value? b.lookup = some w.val
      ∧ s.define? name w = some t := by
  obtain ⟨s, agrees⟩ : ∃ s, Agrees b s := by
    cases label? with
    | none =>
      cases labelled
      exact ⟨r, h⟩
    | some label =>
      have next := h.follows_label label
      change a.label label = .ok b at labelled
      rw [labelled] at next
      obtain ⟨s, -, agrees⟩ := next.exists_of_ok
      exact ⟨s, agrees⟩
  have next := agrees.follows_emit number (.define name e)
  rw [defined] at next
  obtain ⟨t, surveyed, agrees'⟩ := next.exists_of_ok
  obtain ⟨w, word, bound⟩ := Option.bind_eq_some_iff.mp surveyed
  obtain ⟨value, known, fits⟩ := Option.bind_eq_some_iff.mp word
  obtain rfl := Word.ofInt?_eq_some_iff.mp fits
  rw [← agrees.lookup] at known
  exact ⟨s, t, w, agrees, agrees', known, bound⟩

/-- Every definition in a source that assembles. The name has in the end the value that its
expression has on its line, and its two halves make it up. Between the line and the end a label that
floats moves from zero to the origin and no other symbol changes, so that the expression has that
value in the end too unless it depends on a label that floats and the origin is not zero; a label
with an offset means the label in the end unless it floats, and then the offset alone. -/
theorem define_of_assemble {source : List Char} {p : Program}
    (assembled : assemble source = .ok p) {before after : List (List Char)} {text : List Char}
    (lines : Text.lines source = before ++ text :: after) {label? : Option String}
    {name : String} {e : Expression}
    (written : contents? text = some (label?, some (.define name e))) :
    ∃ (a b c : Assembly) (w : Word),
      emitLines {} 1 before = .ok a ∧ label?.elim (.ok a) a.label = .ok b
        ∧ emitLines {} 1 (Text.lines source) = .ok c ∧ c.origin = p.origin
        ∧ e.value? b.lookup = some w.val
        ∧ c.BindsWord name w ∧ w.low.val + 243 * w.high.val = w.val
        ∧ (∀ symbol value, b.lookup symbol = some value →
          c.lookup symbol = some (if b.floats symbol then p.origin else value)
            ∧ (b.floats symbol = true → value = 0))
        ∧ ((∀ symbol, e.symbol? = some symbol → b.floats symbol = true → p.origin = 0) →
          e.value? c.lookup = some w.val)
        ∧ ∀ symbol offset, e = ⟨.full, .symbol symbol offset⟩ → ∃ base,
          c.lookup symbol = some base
            ∧ w.val = (if b.floats symbol then 0 else base) + offset := by
  obtain ⟨a, d, c, first, line, last, laid, program⟩ := stages_of_line assembled lines
  rw [a.emitLine_of_contents? _ written, bind_eq_ok_iff] at line
  obtain ⟨b, labelled, defined⟩ := line
  change b.emit (1 + before.length) (.define name e) = .ok d at defined
  have start := Agrees.initial.follows_emitLines 1 before
  rw [first] at start
  obtain ⟨r, -, agreesA⟩ := start.exists_of_ok
  obtain ⟨s, u, w, agreesB, agreesD, known, bound⟩ := agreesA.exists_of_define labelled defined
  have ending := agreesD.follows_emitLines (1 + before.length + 1) after
  rw [last] at ending
  obtain ⟨t, later, agreesC⟩ := ending.exists_of_ok
  have origin : c.origin = p.origin := by
    obtain ⟨code, -, rfl⟩ := Option.map_eq_some_iff.mp (program t agreesC)
    exact agreesC.origin
  have binds : c.BindsWord name w :=
    agreesC.bindsWord_of_define? bound (Survey.isProgress_extends.of_lines? later)
  have moves {symbol : String} {value : Int} (found : b.lookup symbol = some value) :
      c.lookup symbol = some (if b.floats symbol then p.origin else value) := by
    rw [← origin]
    exact agreesB.lookup_later agreesC
      (Survey.isProgress_extends.trans (Survey.isProgress_extends.of_define? bound)
        (Survey.isProgress_extends.of_lines? later))
      ((Survey.isProgress_continues.of_define? bound).trans (Survey.continues_of_lines? later))
      found
  have zero {symbol : String} {value : Int} (found : b.lookup symbol = some value)
      (floats : b.floats symbol = true) : value = 0 :=
    Option.some.inj (found.symm.trans (agreesB.lookup_of_floats floats))
  refine ⟨a, b, c, w, first, labelled, laid, origin, known, binds, w.low_add_high,
    fun symbol value found => ⟨moves found, zero found⟩, ?_, ?_⟩
  · intro settled
    rw [← known]
    refine Expression.value?_congr fun symbol occurs => ?_
    obtain ⟨value, found⟩ := Expression.exists_of_value? known occurs
    rw [moves found, found]
    split_ifs with floats
    · rw [settled symbol occurs floats, zero found floats]
    · rfl
  · rintro symbol offset rfl
    obtain ⟨value, found, sum⟩ := Expression.value?_full known
    refine ⟨_, moves found, ?_⟩
    rw [sum]
    split_ifs with floats
    · rw [zero found floats]
    · rfl

theorem define_of_assemble_settled :
    let source := ".org 100\nhere: .equ here+1 next\n.word next".toList
    let text := "here: .equ here+1 next".toList
    let e : Expression := ⟨.full, .symbol "here" 1⟩
    assemble source = .ok ⟨100, [Tryte.ofDigits 101 0, .zero]⟩
      ∧ Text.lines source = [".org 100".toList] ++ text :: [".word next".toList]
      ∧ contents? text = some (some "here", some (.define "next" e))
      ∧ ∃ c w, emitLines {} 1 (Text.lines source) = .ok c ∧ c.lookup "next" = some (Word.val w)
        ∧ e.value? c.lookup = some w.val ∧ w.val = 101 := by
  intro source text e
  have assembled : assemble source = .ok ⟨100, [Tryte.ofDigits 101 0, .zero]⟩ := by
    decide +kernel
  have lines : Text.lines source = [".org 100".toList] ++ text :: [".word next".toList] := by
    decide +kernel
  have written : contents? text = some (some "here", some (.define "next" e)) := by
    decide +kernel
  refine ⟨assembled, lines, written, ?_⟩
  obtain ⟨a, b, c, w, first, labelled, laid, -, known, binds, -, -, settled, -⟩ :=
    define_of_assemble assembled lines written
  obtain rfl : a = { origin? := some 100 } :=
    Except.ok.inj (first.symm.trans (by decide +kernel))
  obtain rfl : b = { origin? := some 100, symbols := [("here", 100)] } :=
    Except.ok.inj (labelled.symm.trans (by decide +kernel))
  refine ⟨c, w, laid, binds.whole, settled fun _ _ floats => ?_, ?_⟩
  · cases floats
  · exact Option.some.inj (known.symm.trans (by decide +kernel))

/-- A definition from a label that floats: the label moves to the origin, and the name stays. -/
theorem define_left_behind :
    let source := "start:\n.equ start+1 next\n.org 100\n.word start\n.word next".toList
    let e : Expression := ⟨.full, .symbol "start" 1⟩
    contents? ".equ start+1 next".toList = some (none, some (.define "next" e))
      ∧ ".equ start+1 next".toList ∈ Text.lines source
      ∧ assemble source
        = .ok ⟨100, [Tryte.ofDigits 100 0, .zero, Tryte.ofDigits 1 0, .zero]⟩
      ∧ ((emitLines {} 1 (Text.lines source)).toOption.map fun c =>
          (c.lookup "start", c.lookup "next", e.value? c.lookup))
        = some (some 100, some 1, some 101) := by
  decide +kernel

end TernaryMachine.Assembly
