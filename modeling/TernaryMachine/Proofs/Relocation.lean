import Mathlib.Data.List.Forall2
import TernaryMachine.Proofs.Definitions
import TernaryMachine.Proofs.RoundTrip

/-!
One source at two origins. A source that sets no origin of its own is laid out from zero on, or from
the origin that a directive in front of it sets. Line by line both surveys list the same items and
bind the same names, the labels apart by the distance of the origins, so that a value which depends
on a label moves with it while the distance between a branch and its target stays.
-/

set_option autoImplicit false
set_option relaxedAutoImplicit false

namespace TernaryMachine.Assembly

def statementsOf (texts : List (List Char)) : List Statement :=
  texts.filterMap fun text => (contents? text).bind Prod.snd

def labelsOf (texts : List (List Char)) : List String :=
  texts.filterMap fun text => (contents? text).bind Prod.fst

def Statement.items : Statement → List Item
  | .origin _ | .define .. => []
  | .value layout e => [.value layout e]
  | .data trytes => [.known trytes]
  | .instruction i argument? => .known [i.encode] :: argumentItems argument?

def itemsOf (texts : List (List Char)) : List Item := (statementsOf texts).flatMap Statement.items

def Expression.Names (labels : List String) (e : Expression) : Prop :=
  ∃ name ∈ labels, e.symbol? = some name

/-- A source whose code depends on its origin through its labels only. -/
structure Movable (texts : List (List Char)) : Prop where
  unplaced : ∀ target, .origin target ∉ statementsOf texts
  definitions : ∀ name value, .define name value ∈ statementsOf texts → value.symbol? = none
  targets : ∀ e, .value .displacement e ∈ itemsOf texts →
    ∃ name ∈ labelsOf texts, ∃ offset, e = ⟨.full, .symbol name offset⟩

/-- The trytes of an item at two origins that lie a distance apart. -/
inductive Moved (labels : List String) (distance : Int) :
    Item → List Tryte → List Tryte → Prop
  | known (trytes : List Tryte) : Moved labels distance (.known trytes) trytes trytes
  | target (e : Expression) (t : Tryte) : Moved labels distance (.value .displacement e) [t] [t]
  | constant {layout : Layout} {e : Expression} {trytes : List Tryte} :
      ¬ e.Names labels → trytes.length = layout.size →
      Moved labels distance (.value layout e) trytes trytes
  | tryte {e : Expression} (s t : Tryte) : e.Names labels →
      (e.selector = .full → t.val = s.val + distance) →
      Moved labels distance (.value .tryte e) [s] [t]
  | word {e : Expression} (v w : Word) : e.Names labels →
      (e.selector = .full → w.val = v.val + distance) →
      Moved labels distance (.value .word e) [v.low, v.high] [w.low, w.high]

section Parts

variable (text : List Char) (rest : List (List Char))

theorem statementsOf_cons : statementsOf (text :: rest) = statementsOf [text] ++ statementsOf rest :=
  List.filterMap_append (l := [text])

theorem labelsOf_cons : labelsOf (text :: rest) = labelsOf [text] ++ labelsOf rest :=
  List.filterMap_append (l := [text])

theorem itemsOf_cons : itemsOf (text :: rest) = itemsOf [text] ++ itemsOf rest := by
  rw [itemsOf, statementsOf_cons, List.flatMap_append]
  rfl

end Parts

namespace Survey

variable {s t : Survey}

theorem lookup_bind? {name : String} {b : Binding} (h : s.bind? name b = some t) (other : String) :
    t.lookup other = if other = name then some (s.resolve b) else s.lookup other := by
  obtain ⟨-, rfl⟩ := bind?_eq_some_iff.mp h
  change (List.lookup other ((name, b) :: s.bindings)).map s.resolve = _
  rw [List.lookup_cons]
  by_cases same : other = name
  · rw [if_pos same, same, beq_self_eq_true]
    rfl
  · rw [if_neg same, beq_false_of_ne same]
    rfl

theorem lookup_eq_none_of_bind? {name : String} {b : Binding} (h : s.bind? name b = some t) :
    s.lookup name = none := by
  rw [lookup, (bind?_eq_some_iff.mp h).1]
  rfl

theorem items_bind? {name : String} {b : Binding} (h : s.bind? name b = some t) :
    t.items = s.items ∧ t.origin? = s.origin? := by
  obtain ⟨-, rfl⟩ := bind?_eq_some_iff.mp h
  exact ⟨rfl, rfl⟩

/-- A survey without an origin and one from an origin at some distance, after the same lines. Names
have the same values in both, the labels apart. -/
structure Shifted (distance : Int) (labels : List String) (s t : Survey) : Prop where
  start : s.origin? = none
  origin : t.origin? = some distance
  items : t.items = s.items
  bound : ∀ name ∈ labels, s.lookup name ≠ none
  names : ∀ name, t.lookup name
    = (s.lookup name).map fun value => if name ∈ labels then value + distance else value

namespace Shifted

variable {distance : Int} {labels : List String} {s' t' : Survey}

theorem initial (distance : Int) : Shifted distance [] {} { origin? := some distance } where
  start := rfl
  origin := rfl
  items := rfl
  bound _ h := absurd h List.not_mem_nil
  names _ := rfl

theorem add (h : Shifted distance labels s t) (item : Item) :
    Shifted distance labels (s.add item) (t.add item) where
  start := h.start
  origin := h.origin
  items := congrArg (· ++ [item]) h.items
  bound := h.bound
  names := h.names

theorem bind (h : Shifted distance labels s t) {name : String} {b c : Binding} (fresh : List String)
    (only : ∀ other ∈ fresh, other = name)
    (apart : t.resolve c = if name ∈ fresh then s.resolve b + distance else s.resolve b)
    (hs : s.bind? name b = some s') (ht : t.bind? name c = some t') :
    Shifted distance (fresh ++ labels) s' t' where
  start := (items_bind? hs).2.trans h.start
  origin := (items_bind? ht).2.trans h.origin
  items := by rw [(items_bind? ht).1, (items_bind? hs).1, h.items]
  bound other mem := by
    rw [lookup_bind? hs]
    by_cases same : other = name
    · simp [same]
    · rw [if_neg same]
      rcases List.mem_append.mp mem with new | old
      · exact absurd (only other new) same
      · exact h.bound other old
  names other := by
    rw [lookup_bind? hs, lookup_bind? ht]
    by_cases same : other = name
    · have new : name ∉ labels := fun old => h.bound name old (lookup_eq_none_of_bind? hs)
      simp [same, apart, new]
    · have old : other ∈ fresh ++ labels ↔ other ∈ labels := by
        rw [List.mem_append, or_iff_right fun new => same (only other new)]
      rw [if_neg same, if_neg same, h.names]
      simp only [old]

theorem count_eq (h : Shifted distance labels s t) : t.count = s.count := by
  rw [count, count, h.items]

theorem label (h : Shifted distance labels s t) {name : String} (hs : s.label? name = some s')
    (ht : t.label? name = some t') : Shifted distance (name :: labels) s' t' := by
  refine h.bind [name] (fun _ => List.mem_singleton.mp) ?_ hs ht
  have stale : t.isFresh = false := by simp [isFresh, h.origin]
  have there : t.address = distance + s.count := by
    rw [address, Survey.origin, h.origin, h.count_eq]
    rfl
  have here : s.resolve (if s.isFresh then .start else .fixed s.address) = s.count := by
    have zero : s.origin = 0 := by rw [Survey.origin, h.start]; rfl
    split
    · rename_i fresh
      rw [resolve, zero, (s.isFresh_eq_true_iff.mp fresh).2]
      rfl
    · rw [resolve, address, zero, Int.zero_add]
  rw [stale, here, if_pos List.mem_cons_self]
  simp only [Bool.false_eq_true, if_false, resolve, there]
  omega

theorem constant (h : Shifted distance labels s t) {name : String} {value : Int}
    (hs : s.bind? name (.fixed value) = some s') (ht : t.bind? name (.fixed value) = some t') :
    Shifted distance labels s' t' := by
  refine h.bind [] (fun _ new => absurd new List.not_mem_nil) ?_ hs ht
  simp [resolve]

theorem define (h : Shifted distance labels s t) {name : String} {w : Word}
    (hs : s.define? name w = some s') (ht : t.define? name w = some t') :
    Shifted distance labels s' t' := by
  obtain ⟨s₁, whole, hs⟩ := Option.bind_eq_some_iff.mp hs
  obtain ⟨s₂, low, high⟩ := Option.bind_eq_some_iff.mp hs
  obtain ⟨t₁, whole', ht⟩ := Option.bind_eq_some_iff.mp ht
  obtain ⟨t₂, low', high'⟩ := Option.bind_eq_some_iff.mp ht
  exact ((h.constant whole whole').constant low low').constant high high'

theorem word_eq (e : Expression) (numeric : e.symbol? = none) : t.word? e = s.word? e := by
  have same : e.value? t.lookup = e.value? s.lookup :=
    Expression.value?_congr fun name occurs => by
      rw [numeric] at occurs
      cases occurs
  rw [word?, word?, same]

theorem statement (h : Shifted distance labels s t) {statement : Statement}
    (unplaced : ∀ target, statement ≠ .origin target)
    (numeric : ∀ name value, statement = .define name value → value.symbol? = none)
    (hs : s.statement? statement = some s') (ht : t.statement? statement = some t') :
    Shifted distance labels s' t' := by
  cases statement with
  | origin target => exact absurd rfl (unplaced target)
  | define name value =>
    obtain ⟨w, known, hs⟩ := Option.bind_eq_some_iff.mp hs
    obtain ⟨w', known', ht⟩ := Option.bind_eq_some_iff.mp ht
    rw [word_eq value (numeric name value rfl), known] at known'
    cases known'
    exact h.define hs ht
  | value layout e =>
    cases hs
    cases ht
    exact h.add _
  | data trytes =>
    cases hs
    cases ht
    exact h.add _
  | instruction i argument? =>
    cases argument? with
    | none =>
      cases hs
      cases ht
      exact h.add _
    | some argument =>
      cases hs
      cases ht
      exact (h.add _).add _

end Shifted

theorem items_of_statement? {statement : Statement} (unplaced : ∀ target, statement ≠ .origin target)
    (h : s.statement? statement = some t) : t.items = s.items ++ statement.items := by
  cases statement with
  | origin target => exact absurd rfl (unplaced target)
  | define name value =>
    obtain ⟨w, -, h⟩ := Option.bind_eq_some_iff.mp h
    obtain ⟨u, whole, h⟩ := Option.bind_eq_some_iff.mp h
    obtain ⟨v, low, high⟩ := Option.bind_eq_some_iff.mp h
    rw [(items_bind? high).1, (items_bind? low).1, (items_bind? whole).1]
    exact (List.append_nil _).symm
  | value layout e =>
    cases h
    rfl
  | data trytes =>
    cases h
    rfl
  | instruction i argument? =>
    cases argument? with
    | none =>
      cases h
      rfl
    | some argument =>
      cases h
      exact List.append_assoc _ _ _

theorem exists_of_line? {text : List Char} (h : s.line? text = some t) :
    ∃ label? statement? u, contents? text = some (label?, statement?)
      ∧ label?.elim (some s) s.label? = some u ∧ statement?.elim (some u) u.statement? = some t
      ∧ labelsOf [text] = label?.toList ∧ statementsOf [text] = statement?.toList := by
  obtain ⟨⟨label?, statement?⟩, found, h⟩ := Option.bind_eq_some_iff.mp h
  obtain ⟨u, labelled, h⟩ := Option.bind_eq_some_iff.mp h
  refine ⟨label?, statement?, u, found, labelled, h, ?_, ?_⟩
  · cases label? <;> simp [labelsOf, found]
  · cases statement? <;> simp [statementsOf, found]

theorem items_of_lines? {texts : List (List Char)}
    (unplaced : ∀ target, .origin target ∉ statementsOf texts) (h : s.lines? texts = some t) :
    t.items = s.items ++ itemsOf texts := by
  induction texts generalizing s with
  | nil =>
    cases h
    exact (List.append_nil _).symm
  | cons text rest ih =>
    obtain ⟨u, line, h⟩ := Option.bind_eq_some_iff.mp h
    simp only [statementsOf_cons text rest, List.mem_append, not_or] at unplaced
    obtain ⟨label?, statement?, v, -, labelled, stated, -, statements⟩ := exists_of_line? line
    have same : v.items = s.items := by
      cases label? with
      | none =>
        cases labelled
        rfl
      | some name => exact (items_bind? labelled).1
    have here : u.items = s.items ++ itemsOf [text] := by
      rw [itemsOf, statements, ← same]
      cases statement? with
      | none =>
        cases stated
        exact (List.append_nil _).symm
      | some statement =>
        rw [Option.toList_some, List.flatMap_singleton]
        refine items_of_statement? (fun target is => ?_) stated
        exact (unplaced target).1 (by simp [statements, is])
    rw [ih (fun target => (unplaced target).2) h, here, itemsOf_cons text rest, List.append_assoc]

namespace Shifted

variable {distance : Int} {labels : List String} {s' t' : Survey}

/-- Two surveys of the same lines stay side by side; the labels of the lines are added. -/
theorem lines {texts : List (List Char)} (h : Shifted distance labels s t)
    (unplaced : ∀ target, .origin target ∉ statementsOf texts)
    (numeric : ∀ name value, .define name value ∈ statementsOf texts → value.symbol? = none)
    (hs : s.lines? texts = some s') (ht : t.lines? texts = some t') :
    Shifted distance ((labelsOf texts).reverse ++ labels) s' t' := by
  induction texts generalizing s t labels with
  | nil =>
    cases hs
    cases ht
    exact h
  | cons text rest ih =>
    obtain ⟨s₁, line, hs⟩ := Option.bind_eq_some_iff.mp hs
    obtain ⟨t₁, line', ht⟩ := Option.bind_eq_some_iff.mp ht
    simp only [statementsOf_cons text rest, List.mem_append, not_or] at unplaced numeric
    obtain ⟨label?, statement?, u, found, labelled, stated, names, statements⟩ :=
      exists_of_line? line
    obtain ⟨_, _, u', found', labelled', stated', -, -⟩ := exists_of_line? line'
    rw [found] at found'
    cases found'
    have behindLabel : Shifted distance (label?.toList ++ labels) u u' := by
      cases label? with
      | none =>
        cases labelled
        cases labelled'
        exact h
      | some name => exact h.label labelled labelled'
    have behindLine : Shifted distance (label?.toList ++ labels) s₁ t₁ := by
      cases statement? with
      | none =>
        cases stated
        cases stated'
        exact behindLabel
      | some statement =>
        refine behindLabel.statement (fun target is => ?_) (fun name value is => ?_) stated stated'
        · exact (unplaced target).1 (by simp [statements, is])
        · exact numeric name value (.inl (by simp [statements, is]))
    have order : (labelsOf (text :: rest)).reverse ++ labels
        = (labelsOf rest).reverse ++ (label?.toList ++ labels) := by
      rw [labelsOf_cons, names]
      cases label? <;> simp
    rw [order]
    exact ih behindLine (fun target => (unplaced target).2)
      (fun name value mem => numeric name value (.inr mem)) hs ht

end Shifted

end Survey

section Values

variable {distance : Int} {labels : List String} {table table' : String → Option Int}

theorem Expression.value?_moved
    (names : ∀ name, table' name
      = (table name).map fun value => if name ∈ labels then value + distance else value)
    {e : Expression} {x y : Int} (hx : e.value? table = some x) (hy : e.value? table' = some y) :
    (¬ e.Names labels → y = x) ∧ (e.Names labels → e.selector = .full → y = x + distance) := by
  constructor
  · intro free
    have same : e.value? table' = e.value? table := by
      refine Expression.value?_congr fun name occurs => ?_
      have other : name ∉ labels := fun mem => free ⟨name, mem, occurs⟩
      rw [names]
      simp [other]
    rw [same, hx] at hy
    exact (Option.some.inj hy).symm
  · rintro ⟨name, mem, occurs⟩ full
    obtain ⟨selector, term⟩ := e
    cases full
    cases term with
    | number n => cases occurs
    | symbol other offset =>
      cases occurs
      obtain ⟨base, found, rfl⟩ := Expression.value?_full hx
      obtain ⟨base', found', rfl⟩ := Expression.value?_full hy
      rw [names, found, Option.map_some, if_pos mem] at found'
      cases found'
      omega

theorem Item.moved_of_write?
    (names : ∀ name, table' name
      = (table name).map fun value => if name ∈ labels then value + distance else value)
    {item : Item} {address : Int} {before after : List Tryte}
    (targets : ∀ e, item = .value .displacement e →
      ∃ name ∈ labels, ∃ offset, e = ⟨.full, .symbol name offset⟩)
    (hx : item.write? table address = some before)
    (hy : item.write? table' (address + distance) = some after) :
    Moved labels distance item before after := by
  cases item with
  | known trytes =>
    cases hx
    cases hy
    exact .known _
  | value layout e =>
    have size := Item.length_of_write? hx
    obtain ⟨x, evaluated, first⟩ := Option.bind_eq_some_iff.mp hx
    obtain ⟨y, evaluated', second⟩ := Option.bind_eq_some_iff.mp hy
    obtain ⟨still, moves⟩ := Expression.value?_moved names evaluated evaluated'
    cases layout with
    | displacement =>
      -- both the target and the branch move
      obtain ⟨name, mem, offset, rfl⟩ := targets e rfl
      obtain rfl : y = x + distance := moves ⟨name, mem, rfl⟩ rfl
      obtain ⟨t, near, rfl⟩ := Option.map_eq_some_iff.mp first
      obtain ⟨t', near', rfl⟩ := Option.map_eq_some_iff.mp second
      rw [show x + distance - (address + distance) - 1 = x - address - 1 by omega, near] at near'
      cases near'
      exact .target _ t
    | tryte =>
      by_cases named : e.Names labels
      · obtain ⟨t, fits, rfl⟩ := Option.map_eq_some_iff.mp first
        obtain ⟨t', fits', rfl⟩ := Option.map_eq_some_iff.mp second
        obtain rfl := Tryte.ofInt?_eq_some_iff.mp fits
        obtain rfl := Tryte.ofInt?_eq_some_iff.mp fits'
        exact .tryte t t' named (moves named)
      · rw [still named] at second
        obtain rfl : after = before := Option.some.inj (second.symm.trans first)
        exact .constant named size
    | word =>
      by_cases named : e.Names labels
      · obtain ⟨w, fits, rfl⟩ := Option.map_eq_some_iff.mp first
        obtain ⟨w', fits', rfl⟩ := Option.map_eq_some_iff.mp second
        obtain rfl := Word.ofInt?_eq_some_iff.mp fits
        obtain rfl := Word.ofInt?_eq_some_iff.mp fits'
        exact .word w w' named (moves named)
      · rw [still named] at second
        obtain rfl : after = before := Option.some.inj (second.symm.trans first)
        exact .constant named size

theorem Item.exists_pieces
    (names : ∀ name, table' name
      = (table name).map fun value => if name ∈ labels then value + distance else value)
    {items : List Item} {address : Int} {before after : List Tryte}
    (targets : ∀ e, .value .displacement e ∈ items →
      ∃ name ∈ labels, ∃ offset, e = ⟨.full, .symbol name offset⟩)
    (hx : Item.writeAll? table address items = some before)
    (hy : Item.writeAll? table' (address + distance) items = some after) :
    ∃ pieces : List (List Tryte × List Tryte),
      List.Forall₂ (fun item piece => Moved labels distance item piece.1 piece.2) items pieces
        ∧ before = pieces.flatMap Prod.fst ∧ after = pieces.flatMap Prod.snd := by
  induction items generalizing address before after with
  | nil =>
    cases hx
    cases hy
    exact ⟨[], .nil, rfl, rfl⟩
  | cons item items ih =>
    obtain ⟨x, xs, first, rest, rfl⟩ := writeAll?_cons_eq_some_iff.mp hx
    obtain ⟨y, ys, first', rest', rfl⟩ := writeAll?_cons_eq_some_iff.mp hy
    have moved := moved_of_write? names
      (fun e is => targets e (is ▸ List.mem_cons_self)) first first'
    rw [length_of_write? first', ← length_of_write? first,
      show address + distance + (x.length : Int) = address + x.length + distance by omega] at rest'
    obtain ⟨pieces, all, rfl, rfl⟩ :=
      ih (fun e mem => targets e (List.mem_cons_of_mem item mem)) rest rest'
    exact ⟨(x, y) :: pieces, .cons moved all, rfl, rfl⟩

end Values

theorem exists_survey_of_assemble {source : List Char} {p : Program}
    (assembled : assemble source = .ok p) :
    ∃ s, Survey.lines? {} (Text.lines source) = some s ∧ s.program? = some p := by
  obtain ⟨a, laid, filled⟩ := bind_eq_ok_iff.mp assembled
  have follows := Agrees.initial.follows_emitLines 1 (Text.lines source)
  rw [laid] at follows
  obtain ⟨s, surveyed, agrees⟩ := follows.exists_of_ok
  exact ⟨s, surveyed, agrees.toProgram_eq_ok_iff.mp filled⟩

theorem assemble_of_survey {source : List Char} {s : Survey} {p : Program}
    (surveyed : Survey.lines? {} (Text.lines source) = some s) (written : s.program? = some p) :
    assemble source = .ok p := by
  have follows := Agrees.initial.follows_emitLines 1 (Text.lines source)
  rw [surveyed] at follows
  rw [assemble]
  generalize Assembly.emitLines {} 1 (Text.lines source) = x at follows ⊢
  cases follows with
  | agree agrees => exact agrees.toProgram_eq_ok_iff.mpr written
  | early refuted =>
    have failed := refuted s (.refl s)
    rw [Survey.program?, failed] at written
    cases written

theorem line?_org (origin : Word) :
    Survey.line? {} (".org ".toList ++ Text.decimal origin.val)
      = some { origin? := some origin.val } := by
  have found : contents? (".org ".toList ++ Text.decimal origin.val)
      = some (none, some (.origin (.ofNumber origin.val))) := by
    rw [contents?, parse_org]
    rfl
  have word : Survey.word? {} (.ofNumber origin.val) = some origin := Word.ofInt?_val origin
  rw [Survey.line?, found]
  change (Survey.word? {} (.ofNumber origin.val)).bind (fun w => Survey.moveTo? {} w.val) = _
  rw [word]
  rfl

/-- A source that sets no origin, defines names by numbers and branches to labels only, and the same
source behind a directive that sets an origin. The first program begins at zero and the second at
the origin. They consist of the same items: opcodes, data and the distances of branches are the same
in both, and so is a value that depends on no label; a word that stands for a label differs by the
origin. -/
theorem assemble_at_origin {source : List Char} {p q : Program} (origin : Word)
    (movable : Movable (Text.lines source)) (here : assemble source = .ok p)
    (there : assemble (".org ".toList ++ Text.decimal origin.val ++ '\n' :: source) = .ok q) :
    p.origin = 0 ∧ q.origin = origin.val ∧ p.code.length = q.code.length
      ∧ ∃ pieces : List (List Tryte × List Tryte),
        List.Forall₂ (fun item piece =>
            Moved (labelsOf (Text.lines source)) origin.val item piece.1 piece.2)
          (itemsOf (Text.lines source)) pieces
        ∧ p.code = pieces.flatMap Prod.fst ∧ q.code = pieces.flatMap Prod.snd := by
  obtain ⟨s, surveyed, written⟩ := exists_survey_of_assemble here
  obtain ⟨t, surveyed', written'⟩ := exists_survey_of_assemble there
  have plain := plain_org origin
  rw [Text.lines_append_newline (fun feed => absurd (plain _ feed) (by decide))
    (fun ret => absurd (plain _ ret) (by decide)), Survey.lines?, line?_org] at surveyed'
  have shifted := (Survey.Shifted.initial origin.val).lines movable.unplaced movable.definitions
    surveyed surveyed'
  rw [List.append_nil] at shifted
  obtain ⟨code, whole, rfl⟩ := Option.map_eq_some_iff.mp written
  obtain ⟨code', whole', rfl⟩ := Option.map_eq_some_iff.mp written'
  have zero : s.origin = 0 := by rw [Survey.origin, shifted.start]; rfl
  have placed : t.origin = origin.val := by rw [Survey.origin, shifted.origin]; rfl
  have items : s.items = itemsOf (Text.lines source) :=
    Survey.items_of_lines? movable.unplaced surveyed
  have length : code.length = code'.length := by
    rw [Item.length_of_writeAll? whole, Item.length_of_writeAll? whole', shifted.items]
  refine ⟨zero, placed, length, ?_⟩
  rw [zero, items] at whole
  rw [placed, shifted.items, items, ← Int.zero_add origin.val] at whole'
  refine Item.exists_pieces ?_ movable.targets whole whole'
  intro name
  rw [shifted.names]
  simp only [List.mem_reverse]

theorem assemble_at_origin_of_table :
    let source := "start: lda #<table\n beq start\n sta table,x\n.equ 5 five\n.tryte five\n"
      ++ "table: .word table-1\n jmp start"
    let texts := Text.lines source.toList
    let code := [48, 8, 1, -4, -97, 8, 0, 5, 7, 0, 101, 0, 0].map fun n => Tryte.ofDigits n 0
    let code' := [48, 108, 1, -4, -97, 108, 0, 5, 107, 0, 101, 100, 0].map
      fun n => Tryte.ofDigits n 0
    Movable texts ∧ assemble source.toList = .ok ⟨0, code⟩
      ∧ assemble (".org ".toList ++ Text.decimal 100 ++ '\n' :: source.toList) = .ok ⟨100, code'⟩
      ∧ ∃ pieces : List (List Tryte × List Tryte),
        List.Forall₂ (fun item piece => Moved (labelsOf texts) 100 item piece.1 piece.2)
          (itemsOf texts) pieces
        ∧ code = pieces.flatMap Prod.fst ∧ code' = pieces.flatMap Prod.snd := by
  intro source texts code code'
  have statements : statementsOf texts
      = [.instruction (.alu .lda .immediate) (some (.tryte, ⟨.low, .symbol "table" 0⟩)),
        .instruction (.branch .sign .equal .zero) (some (.displacement, ⟨.full, .symbol "start" 0⟩)),
        .instruction (.extended .staX) (some (.word, ⟨.full, .symbol "table" 0⟩)),
        .define "five" (.ofNumber 5), .value .tryte ⟨.full, .symbol "five" 0⟩,
        .value .word ⟨.full, .symbol "table" (-1)⟩,
        .instruction (.extended .jmp) (some (.word, ⟨.full, .symbol "start" 0⟩))] := by
    decide +kernel
  have labels : labelsOf texts = ["start", "table"] := by decide +kernel
  have movable : Movable texts := by
    refine ⟨fun target => ?_, fun name value mem => ?_, fun e mem => ?_⟩
    · simp [statements]
    · obtain ⟨-, rfl⟩ : name = "five" ∧ value = .ofNumber 5 := by simpa [statements] using mem
      rfl
    · obtain rfl : e = ⟨.full, .symbol "start" 0⟩ := by
        simpa [itemsOf, statements, Statement.items, argumentItems] using mem
      exact ⟨"start", by simp [labels], 0, rfl⟩
  have here : assemble source.toList = .ok ⟨0, code⟩ := by decide +kernel
  have there : assemble (".org ".toList ++ Text.decimal 100 ++ '\n' :: source.toList)
      = .ok ⟨100, code'⟩ := by
    decide +kernel
  obtain ⟨-, -, -, pieces⟩ :=
    assemble_at_origin ⟨100, by decide, by decide⟩ movable here there
  exact ⟨movable, here, there, pieces⟩

end TernaryMachine.Assembly
