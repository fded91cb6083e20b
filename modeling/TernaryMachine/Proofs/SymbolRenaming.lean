import Mathlib.Data.List.Nodup
import TernaryMachine.Proofs.Relocation

/-!
Symbols under other names. An injective change of names turns the survey of a source into the survey
of the source with the labels and the expressions renamed, provided that it leaves the names that
are defined by values alone. The second pass writes the same program from both.
-/

set_option autoImplicit false
set_option relaxedAutoImplicit false

namespace TernaryMachine.Assembly

def Term.rename (f : String → String) : Term → Term
  | .number n => .number n
  | .symbol name offset => .symbol (f name) offset

def Expression.rename (f : String → String) (e : Expression) : Expression :=
  ⟨e.selector, e.term.rename f⟩

/-- The statement with the symbols of its expression renamed. A name that it defines stays. -/
def Statement.rename (f : String → String) : Statement → Statement
  | .origin target => .origin (target.rename f)
  | .define name e => .define name (e.rename f)
  | .value layout e => .value layout (e.rename f)
  | .data trytes => .data trytes
  | .instruction i argument? => .instruction i (argument?.map fun a => (a.1, a.2.rename f))

def Statement.expression? : Statement → Option Expression
  | .origin target => some target
  | .define _ e => some e
  | .value _ e => some e
  | .data _ => none
  | .instruction _ argument? => argument?.map Prod.snd

def Statement.symbol? (statement : Statement) : Option String :=
  statement.expression?.bind Expression.symbol?

theorem Statement.rename_of_expression? (f : String → String) {statement : Statement}
    (h : statement.expression? = none) : statement.rename f = statement := by
  cases statement with
  | origin | define | value => cases h
  | data => rfl
  | instruction i argument? =>
    obtain rfl : argument? = none := Option.map_eq_none_iff.mp h
    rfl

def Item.rename (f : String → String) : Item → Item
  | .known trytes => .known trytes
  | .value layout e => .value layout (e.rename f)

def Survey.rename (f : String → String) (s : Survey) : Survey :=
  { s with
    items := s.items.map (Item.rename f)
    bindings := s.bindings.map fun b => (f b.1, b.2) }

section Items

variable {f : String → String} {table table' : String → Option Int}

theorem Expression.value?_rename (same : ∀ name, table' (f name) = table name) (e : Expression) :
    (e.rename f).value? table' = e.value? table := by
  obtain ⟨selector, term⟩ := e
  cases term with
  | number n => rfl
  | symbol name offset => simp only [rename, Term.rename, value?, same]

theorem Item.size_rename (f : String → String) (item : Item) :
    (item.rename f).size = item.size := by
  cases item <;> rfl

theorem Item.write?_rename (same : ∀ name, table' (f name) = table name) (address : Int)
    (item : Item) : (item.rename f).write? table' address = item.write? table address := by
  cases item with
  | known trytes => rfl
  | value layout e => simp only [rename, write?, Expression.value?_rename same]

theorem Item.writeAll?_rename (same : ∀ name, table' (f name) = table name) (address : Int)
    (items : List Item) :
    writeAll? table' address (items.map (rename f)) = writeAll? table address items := by
  induction items generalizing address with
  | nil => rfl
  | cons item items ih =>
    simp only [List.map_cons, writeAll?, write?_rename same, size_rename, ih]

end Items

namespace Survey

variable {f : String → String} {s t : Survey}

theorem count_rename (f : String → String) (s : Survey) : (s.rename f).count = s.count := by
  have sizes : Item.size ∘ Item.rename f = Item.size := funext (Item.size_rename f)
  simp only [count, rename, List.map_map, sizes]

theorem isFresh_rename (f : String → String) (s : Survey) : (s.rename f).isFresh = s.isFresh := by
  simp only [isFresh, count_rename]
  rfl

theorem address_rename (f : String → String) (s : Survey) : (s.rename f).address = s.address := by
  simp only [address, count_rename]
  rfl

theorem add_rename (f : String → String) (s : Survey) (item : Item) :
    (s.rename f).add (item.rename f) = (s.add item).rename f := by
  simp [add, rename]

section Injective

variable (injective : Function.Injective f)
include injective

theorem binding_rename (bindings : List (String × Binding)) (name : String) :
    (bindings.map fun b => (f b.1, b.2)).lookup (f name) = bindings.lookup name := by
  induction bindings with
  | nil => rfl
  | cons b bindings ih =>
    have same : (f name == f b.1) = (name == b.1) := by
      rw [Bool.eq_iff_iff, beq_iff_eq, beq_iff_eq, injective.eq_iff]
    rw [List.map_cons, List.lookup_cons, List.lookup_cons, ih, same]

theorem lookup_rename (s : Survey) (name : String) :
    (s.rename f).lookup (f name) = s.lookup name := by
  rw [lookup, rename, binding_rename injective]
  rfl

theorem bind?_rename {name : String} {b : Binding} (h : s.bind? name b = some t) :
    (s.rename f).bind? (f name) b = some (t.rename f) := by
  obtain ⟨new, rfl⟩ := bind?_eq_some_iff.mp h
  exact bind?_eq_some_iff.mpr ⟨(binding_rename injective _ _).trans new, rfl⟩

theorem label?_rename {name : String} (h : s.label? name = some t) :
    (s.rename f).label? (f name) = some (t.rename f) := by
  rw [label?, isFresh_rename, address_rename]
  exact bind?_rename injective h

theorem word?_rename (s : Survey) (e : Expression) :
    (s.rename f).word? (e.rename f) = s.word? e := by
  rw [word?, Expression.value?_rename (lookup_rename injective s)]
  rfl

end Injective

theorem moveTo?_rename {target : Int} (h : s.moveTo? target = some t) :
    (s.rename f).moveTo? target = some (t.rename f) := by
  unfold moveTo? at h ⊢
  rw [isFresh_rename, address_rename]
  split_ifs at h ⊢
  · cases h
    rfl
  · cases h
    exact congrArg some (add_rename f s (.known _))

end Survey

def Statement.names : Statement → List String
  | .define name _ => [name, name ++ ".low", name ++ ".high"]
  | _ => []

namespace Survey

variable {f : String → String} {s t : Survey}

theorem statement?_rename (injective : Function.Injective f) {statement : Statement}
    (fixed : ∀ name ∈ statement.names, f name = name) (h : s.statement? statement = some t) :
    (s.rename f).statement? (statement.rename f) = some (t.rename f) := by
  cases statement with
  | origin target =>
    obtain ⟨w, known, h⟩ := Option.bind_eq_some_iff.mp h
    rw [← word?_rename injective] at known
    exact Option.bind_eq_some_iff.mpr ⟨w, known, moveTo?_rename h⟩
  | define name value =>
    obtain ⟨w, known, h⟩ := Option.bind_eq_some_iff.mp h
    obtain ⟨u, whole, h⟩ := Option.bind_eq_some_iff.mp h
    obtain ⟨v, low, high⟩ := Option.bind_eq_some_iff.mp h
    rw [← word?_rename injective] at known
    have whole := bind?_rename injective whole
    have low := bind?_rename injective low
    have high := bind?_rename injective high
    -- The halves are named after the whole, so that renaming them must not tear them apart.
    simp only [Statement.names, List.forall_mem_cons] at fixed
    rw [fixed.1] at whole
    rw [fixed.2.1] at low
    rw [fixed.2.2.1] at high
    exact Option.bind_eq_some_iff.mpr ⟨w, known, Option.bind_eq_some_iff.mpr
      ⟨_, whole, Option.bind_eq_some_iff.mpr ⟨_, low, high⟩⟩⟩
  | value layout e =>
    cases h
    exact congrArg some (add_rename f s (.value layout e))
  | data trytes =>
    cases h
    exact congrArg some (add_rename f s (.known trytes))
  | instruction i argument? =>
    cases argument? with
    | none =>
      cases h
      exact congrArg some (add_rename f s (.known [i.encode]))
    | some argument =>
      cases h
      rw [← add_rename, ← add_rename]
      rfl

end Survey

/-- The names that the lines define by values, in order. -/
def definedOf (texts : List (List Char)) : List String :=
  (statementsOf texts).flatMap Statement.names

theorem definedOf_cons (text : List Char) (rest : List (List Char)) :
    definedOf (text :: rest) = definedOf [text] ++ definedOf rest := by
  rw [definedOf, statementsOf_cons, List.flatMap_append]
  rfl

/-- A line that holds what another holds, with the label and the expression renamed. -/
def Renames (f : String → String) (text text' : List Char) : Prop :=
  ∀ label? statement?, contents? text = some (label?, statement?) →
    contents? text' = some (label?.map f, statement?.map (Statement.rename f))

namespace Survey

variable {f : String → String} {s t : Survey}

theorem line?_rename (injective : Function.Injective f) {text text' : List Char}
    (renames : Renames f text text') (fixed : ∀ name ∈ definedOf [text], f name = name)
    (h : s.line? text = some t) : (s.rename f).line? text' = some (t.rename f) := by
  obtain ⟨label?, statement?, u, found, labelled, stated, -, statements⟩ := exists_of_line? h
  rw [definedOf, statements] at fixed
  have labelled' : (label?.map f).elim (some (s.rename f)) (s.rename f).label?
      = some (u.rename f) := by
    cases label? with
    | none =>
      cases labelled
      rfl
    | some name => exact label?_rename injective labelled
  have stated' : (statement?.map (Statement.rename f)).elim (some (u.rename f))
      (u.rename f).statement? = some (t.rename f) := by
    cases statement? with
    | none =>
      cases stated
      rfl
    | some statement => exact statement?_rename injective (by simpa using fixed) stated
  exact Option.bind_eq_some_iff.mpr
    ⟨_, renames _ _ found, Option.bind_eq_some_iff.mpr ⟨_, labelled', stated'⟩⟩

theorem lines?_rename (injective : Function.Injective f) {change : List Char → List Char}
    {texts : List (List Char)} (renames : ∀ text ∈ texts, Renames f text (change text))
    (fixed : ∀ name ∈ definedOf texts, f name = name) (h : s.lines? texts = some t) :
    (s.rename f).lines? (texts.map change) = some (t.rename f) := by
  induction texts generalizing s with
  | nil =>
    cases h
    rfl
  | cons text rest ih =>
    obtain ⟨u, line, h⟩ := Option.bind_eq_some_iff.mp h
    rw [definedOf_cons] at fixed
    obtain ⟨here, there⟩ := List.forall_mem_append.mp fixed
    obtain ⟨first, others⟩ := List.forall_mem_cons.mp renames
    exact Option.bind_eq_some_iff.mpr ⟨_, line?_rename injective first here line, ih others there h⟩

theorem program?_rename (injective : Function.Injective f) (s : Survey) :
    (s.rename f).program? = s.program? := by
  have written := Item.writeAll?_rename (lookup_rename injective s) s.origin s.items
  exact congrArg (Option.map fun code => (⟨s.origin, code⟩ : Program)) written

theorem isProgress_nodup : IsProgress fun s t =>
    (s.bindings.map Prod.fst).Nodup → (t.bindings.map Prod.fst).Nodup where
  refl _ := id
  trans h k := k ∘ h
  add _ _ := id
  bind {s t name b} h nodup := by
    obtain ⟨new, rfl⟩ := bind?_eq_some_iff.mp h
    refine List.nodup_cons.mpr ⟨fun member => ?_, nodup⟩
    obtain ⟨⟨_, c⟩, bound, rfl⟩ := List.mem_map.mp member
    rw [List.lookup_eq_none_iff] at new
    simpa using new _ bound
  start _ _ := id

theorem names_bind? {name : String} {b : Binding} (h : s.bind? name b = some t) :
    t.bindings.map Prod.fst = name :: s.bindings.map Prod.fst := by
  obtain ⟨-, rfl⟩ := bind?_eq_some_iff.mp h
  rfl

theorem names_statement? {statement : Statement} (h : s.statement? statement = some t) :
    (t.bindings.map Prod.fst).Perm (statement.names ++ s.bindings.map Prod.fst) := by
  cases statement with
  | origin target =>
    obtain ⟨w, -, h⟩ := Option.bind_eq_some_iff.mp h
    unfold moveTo? at h
    split_ifs at h <;> cases h <;> exact .refl _
  | define name value =>
    obtain ⟨w, -, h⟩ := Option.bind_eq_some_iff.mp h
    obtain ⟨u, whole, h⟩ := Option.bind_eq_some_iff.mp h
    obtain ⟨v, low, high⟩ := Option.bind_eq_some_iff.mp h
    rw [names_bind? high, names_bind? low, names_bind? whole]
    exact (List.reverse_perm [name, name ++ ".low", name ++ ".high"]).append_right _
  | value | data =>
    cases h
    exact .refl _
  | instruction i argument? =>
    cases argument? <;> cases h <;> exact .refl _

theorem names_lines? {texts : List (List Char)} (h : s.lines? texts = some t) :
    (t.bindings.map Prod.fst).Perm
      (labelsOf texts ++ definedOf texts ++ s.bindings.map Prod.fst) := by
  induction texts generalizing s with
  | nil =>
    cases h
    exact .refl _
  | cons text rest ih =>
    obtain ⟨u, line, h⟩ := Option.bind_eq_some_iff.mp h
    obtain ⟨label?, statement?, v, -, labelled, stated, labels, statements⟩ := exists_of_line? line
    have first : v.bindings.map Prod.fst = labelsOf [text] ++ s.bindings.map Prod.fst := by
      rw [labels]
      cases label? with
      | none =>
        cases labelled
        rfl
      | some name => exact names_bind? labelled
    have second : (u.bindings.map Prod.fst).Perm (definedOf [text] ++ v.bindings.map Prod.fst) := by
      rw [definedOf, statements]
      cases statement? with
      | none =>
        cases stated
        exact .refl _
      | some statement => simpa using names_statement? stated
    rw [first] at second
    rw [labelsOf_cons, definedOf_cons]
    refine (ih h).trans ((second.append_left _).trans ?_)
    -- A line binds its label first, whereas all labels of the source stand before all definitions.
    rw [List.perm_iff_count]
    intro name
    simp only [List.count_append]
    omega

theorem not_mem_definedOf {texts : List (List Char)} (h : lines? {} texts = some t) {name : String}
    (label : name ∈ labelsOf texts) : name ∉ definedOf texts := by
  have bound := isProgress_nodup.of_lines? h .nil
  rw [(names_lines? h).nodup_iff] at bound
  obtain ⟨-, -, apart⟩ := List.nodup_append.mp bound.of_append_left
  exact fun member => apart name label name member rfl

end Survey

theorem assemble_of_renames {f : String → String} (injective : Function.Injective f)
    {change : List Char → List Char} {source source' : List Char} {p : Program}
    (assembled : assemble source = .ok p)
    (changed : Text.lines source' = (Text.lines source).map change)
    (renames : ∀ text ∈ Text.lines source, Renames f text (change text))
    (fixed : ∀ name ∈ definedOf (Text.lines source), f name = name) :
    assemble source' = .ok p := by
  obtain ⟨s, surveyed, written⟩ := exists_survey_of_assemble assembled
  have surveyed' := Survey.lines?_rename injective renames fixed surveyed
  rw [← changed] at surveyed'
  exact assemble_of_survey surveyed' ((Survey.program?_rename injective s).trans written)

end TernaryMachine.Assembly
