import Mathlib.Algebra.GroupWithZero.Nat
import TernaryMachine.Assembly

/-!
Assembly in two passes. The first pass surveys the lines: it lists what is to be laid out and binds
every name, either to a value or, as long as there is neither an origin nor a tryte, to the place
where the program begins. The second pass knows all names and writes every item afresh, so that no
value depends on the order in which names are defined.
-/

set_option autoImplicit false
set_option relaxedAutoImplicit false

namespace TernaryMachine.Assembly

/-- The selected part of a whole value; a half is taken of words only. -/
def Selector.of? (s : Selector) (whole : Int) : Option Int :=
  match s with
  | .full => some whole
  | .low => (Word.ofInt? whole).map fun w => w.low.val
  | .high => (Word.ofInt? whole).map fun w => w.high.val

def Expression.value? (table : String → Option Int) (e : Expression) : Option Int :=
  match e.term with
  | .number n => e.selector.of? n
  | .symbol name offset => do
    let base ← table name
    let whole ← Signed32.add? base offset
    e.selector.of? whole

def Layout.write? (layout : Layout) (value address : Int) : Option (List Tryte) :=
  match layout with
  | .tryte => (Tryte.ofInt? value).map fun t => [t]
  | .word => (Word.ofInt? value).map fun w => [w.low, w.high]
  | .displacement => (Tryte.ofInt? (value - address - 1)).map fun t => [t]

/-- What a line without a fault holds: its label and its statement. -/
def contents? (text : List Char) : Option (Option String × Option Statement) := do
  let line ← (Line.parse text).toOption
  let statement? ← line.statement.toOption
  return (line.label?, statement?)

inductive Item where
  | known (trytes : List Tryte)
  | value (layout : Layout) (e : Expression)
  deriving DecidableEq, Repr

namespace Item

def size : Item → Nat
  | .known trytes => trytes.length
  | .value layout _ => layout.size

def write? (table : String → Option Int) (address : Int) : Item → Option (List Tryte)
  | .known trytes => some trytes
  | .value layout e => (e.value? table).bind fun value => layout.write? value address

/-- The second pass: items are written one after the other from an address on. -/
def writeAll? (table : String → Option Int) (address : Int) : List Item → Option (List Tryte)
  | [] => some []
  | item :: rest => do
    let trytes ← item.write? table address
    let others ← writeAll? table (address + item.size) rest
    return trytes ++ others

end Item

inductive Binding where
  | start
  | fixed (value : Int)
  deriving DecidableEq, Repr

structure Survey where
  origin? : Option Int := none
  items : List Item := []
  bindings : List (String × Binding) := []
  deriving DecidableEq, Repr

namespace Survey

def count (s : Survey) : Nat := (s.items.map Item.size).sum

def origin (s : Survey) : Int := s.origin?.getD 0

def address (s : Survey) : Int := s.origin + s.count

def isFresh (s : Survey) : Bool := s.origin?.isNone && s.count == 0

def resolve (s : Survey) : Binding → Int
  | .start => s.origin
  | .fixed value => value

def lookup (s : Survey) (name : String) : Option Int := (s.bindings.lookup name).map s.resolve

def add (s : Survey) (item : Item) : Survey := { s with items := s.items ++ [item] }

def bind? (s : Survey) (name : String) (b : Binding) : Option Survey :=
  match s.bindings.lookup name with
  | some _ => none
  | none => some { s with bindings := (name, b) :: s.bindings }

def label? (s : Survey) (name : String) : Option Survey :=
  s.bind? name (if s.isFresh then .start else .fixed s.address)

def define? (s : Survey) (name : String) (w : Word) : Option Survey := do
  let t ← s.bind? name (.fixed w.val)
  let u ← t.bind? (name ++ ".low") (.fixed w.low.val)
  u.bind? (name ++ ".high") (.fixed w.high.val)

/-- The first origin, or a gap of zeros up to a later one. -/
def moveTo? (s : Survey) (target : Int) : Option Survey :=
  if s.isFresh then some { s with origin? := some target }
  else if target < s.address then none
  else some (s.add (.known (List.replicate (target - s.address).toNat Tryte.zero)))

/-- The value of an expression that depends on names bound so far only. -/
def word? (s : Survey) (e : Expression) : Option Word := (e.value? s.lookup).bind Word.ofInt?

def statement? (s : Survey) : Statement → Option Survey
  | .origin target => (s.word? target).bind fun w => s.moveTo? w.val
  | .define name value => (s.word? value).bind fun w => s.define? name w
  | .value layout e => some (s.add (.value layout e))
  | .data trytes => some (s.add (.known trytes))
  | .instruction i none => some (s.add (.known [i.encode]))
  | .instruction i (some (layout, e)) => some ((s.add (.known [i.encode])).add (.value layout e))

def line? (s : Survey) (text : List Char) : Option Survey := do
  let (label?, statement?) ← contents? text
  let t ← label?.elim (some s) s.label?
  statement?.elim (some t) t.statement?

def lines? (s : Survey) : List (List Char) → Option Survey
  | [] => some s
  | text :: rest => do
    let t ← s.line? text
    t.lines? rest

def program? (s : Survey) : Option Program :=
  (Item.writeAll? s.lookup s.origin s.items).map fun code => ⟨s.origin, code⟩

end Survey

def twoPass? (source : List Char) : Option Program :=
  (Survey.lines? {} (Text.lines source)).bind Survey.program?

namespace Layout

theorem length_of_write? {layout : Layout} {value address : Int} {trytes : List Tryte}
    (h : layout.write? value address = some trytes) : trytes.length = layout.size := by
  cases layout with
  | tryte | displacement =>
    obtain ⟨t, -, rfl⟩ := Option.map_eq_some_iff.mp h
    rfl
  | word =>
    obtain ⟨w, -, rfl⟩ := Option.map_eq_some_iff.mp h
    rfl

theorem size_pos (layout : Layout) : 0 < layout.size := by
  cases layout <;> decide

end Layout

namespace Item

theorem length_of_write? {table : String → Option Int} {address : Int} {item : Item}
    {trytes : List Tryte} (h : item.write? table address = some trytes) :
    trytes.length = item.size := by
  cases item with
  | known ts => exact congrArg List.length (Option.some.inj h).symm
  | value layout e =>
    obtain ⟨value, -, h⟩ := Option.bind_eq_some_iff.mp h
    exact Layout.length_of_write? h

theorem writeAll?_cons_eq_some_iff {table : String → Option Int} {address : Int} {item : Item}
    {items : List Item} {code : List Tryte} :
    writeAll? table address (item :: items) = some code ↔ ∃ trytes rest,
      item.write? table address = some trytes
        ∧ writeAll? table (address + trytes.length) items = some rest ∧ code = trytes ++ rest := by
  simp only [writeAll?, Option.bind_eq_bind, Option.bind_eq_some_iff, Option.pure_def,
    Option.some.injEq]
  constructor
  · rintro ⟨trytes, written, rest, others, rfl⟩
    exact ⟨trytes, rest, written, length_of_write? written ▸ others, rfl⟩
  · rintro ⟨trytes, rest, written, others, rfl⟩
    exact ⟨trytes, written, rest, length_of_write? written ▸ others, rfl⟩

theorem writeAll?_append_eq_some_iff {table : String → Option Int} {address : Int}
    {xs ys : List Item} {code : List Tryte} :
    writeAll? table address (xs ++ ys) = some code ↔ ∃ before rest,
      writeAll? table address xs = some before
        ∧ writeAll? table (address + before.length) ys = some rest ∧ code = before ++ rest := by
  induction xs generalizing address code with
  | nil => simp [writeAll?]
  | cons x xs ih =>
    simp only [List.cons_append, writeAll?_cons_eq_some_iff, ih]
    constructor
    · rintro ⟨trytes, rest, written, ⟨before, others, first, last, rfl⟩, rfl⟩
      refine ⟨trytes ++ before, others, ⟨trytes, before, written, first, rfl⟩, ?_, by simp⟩
      rw [List.length_append, Int.natCast_add, ← Int.add_assoc]
      exact last
    · rintro ⟨before, others, ⟨trytes, rest, written, first, rfl⟩, last, rfl⟩
      refine ⟨trytes, rest ++ others, written, ⟨rest, others, first, ?_, rfl⟩, by simp⟩
      rw [List.length_append, Int.natCast_add, ← Int.add_assoc] at last
      exact last

theorem writeAll?_concat_eq_some_iff {table : String → Option Int} {address : Int}
    {items : List Item} {item : Item} {code : List Tryte} :
    writeAll? table address (items ++ [item]) = some code ↔ ∃ before trytes,
      writeAll? table address items = some before
        ∧ item.write? table (address + before.length) = some trytes ∧ code = before ++ trytes := by
  rw [writeAll?_append_eq_some_iff]
  constructor
  · rintro ⟨before, last, first, rest, rfl⟩
    obtain ⟨trytes, _, written, ⟨⟩, rfl⟩ := writeAll?_cons_eq_some_iff.mp rest
    exact ⟨before, trytes, first, written, by rw [List.append_nil]⟩
  · rintro ⟨before, trytes, first, written, rfl⟩
    refine ⟨before, trytes, first, ?_, rfl⟩
    exact writeAll?_cons_eq_some_iff.mpr ⟨trytes, [], written, rfl, by rw [List.append_nil]⟩

theorem length_of_writeAll? {table : String → Option Int} {address : Int} {items : List Item}
    {code : List Tryte} (h : writeAll? table address items = some code) :
    code.length = (items.map size).sum := by
  induction items generalizing address code with
  | nil =>
    cases h
    rfl
  | cons item items ih =>
    obtain ⟨trytes, rest, written, others, rfl⟩ := writeAll?_cons_eq_some_iff.mp h
    simp [length_of_write? written, ih others]

end Item

namespace Survey

theorem count_add (s : Survey) (item : Item) : (s.add item).count = s.count + item.size := by
  simp [count, add]

theorem isFresh_eq_true_iff (s : Survey) :
    s.isFresh = true ↔ s.origin? = none ∧ s.count = 0 := by
  simp [isFresh]

theorem bind?_eq_some_iff {s t : Survey} {name : String} {b : Binding} :
    s.bind? name b = some t
      ↔ s.bindings.lookup name = none ∧ t = { s with bindings := (name, b) :: s.bindings } := by
  unfold bind?
  cases found : s.bindings.lookup name with
  | none => simp [eq_comm]
  | some c => simp

theorem binding_of_bind? {s t : Survey} {name : String} {b : Binding}
    (h : s.bind? name b = some t) {other : String} {c : Binding}
    (bound : s.bindings.lookup other = some c) : t.bindings.lookup other = some c := by
  obtain ⟨new, rfl⟩ := bind?_eq_some_iff.mp h
  have differ : other ≠ name := by
    rintro rfl
    rw [new] at bound
    cases bound
  rw [List.lookup_cons, beq_false_of_ne differ]
  exact bound

theorem lookup_of_bind? {s t : Survey} {name : String} {b : Binding}
    (h : s.bind? name b = some t) {other : String} {value : Int}
    (found : s.lookup other = some value) : t.lookup other = some value := by
  obtain ⟨c, bound, rfl⟩ := Option.map_eq_some_iff.mp found
  have kept := binding_of_bind? h bound
  obtain ⟨-, rfl⟩ := bind?_eq_some_iff.mp h
  exact Option.map_eq_some_iff.mpr ⟨c, kept, rfl⟩

/-- A relation of a state of the first pass to a later one that holds across every single change
and across changes one after the other. -/
structure IsProgress (R : Survey → Survey → Prop) : Prop where
  refl (s : Survey) : R s s
  trans {s t u : Survey} : R s t → R t u → R s u
  add (s : Survey) (item : Item) : R s (s.add item)
  bind {s t : Survey} {name : String} {b : Binding} : s.bind? name b = some t → R s t
  start {s : Survey} (target : Int) :
    s.isFresh = true → R s { s with origin? := some target }

namespace IsProgress

variable {R : Survey → Survey → Prop} {s t : Survey}

theorem of_define? (hR : IsProgress R) {name : String} {w : Word}
    (h : s.define? name w = some t) : R s t := by
  obtain ⟨u, hu, h⟩ := Option.bind_eq_some_iff.mp h
  obtain ⟨v, hv, h⟩ := Option.bind_eq_some_iff.mp h
  exact hR.trans (hR.trans (hR.bind hu) (hR.bind hv)) (hR.bind h)

theorem of_moveTo? (hR : IsProgress R) {target : Int} (h : s.moveTo? target = some t) :
    R s t := by
  unfold moveTo? at h
  split at h
  · rename_i fresh
    cases h
    exact hR.start target fresh
  · split at h
    · cases h
    · cases h
      exact hR.add s _

theorem of_statement? (hR : IsProgress R) {statement : Statement}
    (h : s.statement? statement = some t) : R s t := by
  cases statement with
  | origin target =>
    obtain ⟨w, -, h⟩ := Option.bind_eq_some_iff.mp h
    exact hR.of_moveTo? h
  | define name value =>
    obtain ⟨w, -, h⟩ := Option.bind_eq_some_iff.mp h
    exact hR.of_define? h
  | value layout e =>
    cases h
    exact hR.add s _
  | data trytes =>
    cases h
    exact hR.add s _
  | instruction i operand? =>
    cases operand? with
    | none =>
      cases h
      exact hR.add s _
    | some operand =>
      cases h
      exact hR.trans (hR.add s _) (hR.add _ _)

theorem of_line? (hR : IsProgress R) {text : List Char} (h : s.line? text = some t) : R s t := by
  obtain ⟨⟨label?, statement?⟩, -, h⟩ := Option.bind_eq_some_iff.mp h
  obtain ⟨u, hu, h⟩ := Option.bind_eq_some_iff.mp h
  have labelled : R s u := by
    cases label? with
    | none =>
      cases hu
      exact hR.refl s
    | some name => exact hR.bind hu
  cases statement? with
  | none =>
    cases h
    exact labelled
  | some statement => exact hR.trans labelled (hR.of_statement? h)

theorem of_lines? (hR : IsProgress R) {texts : List (List Char)}
    (h : s.lines? texts = some t) : R s t := by
  induction texts generalizing s with
  | nil =>
    cases h
    exact hR.refl _
  | cons text rest ih =>
    obtain ⟨u, hu, h⟩ := Option.bind_eq_some_iff.mp h
    exact hR.trans (hR.of_line? hu) (ih h)

end IsProgress

/-- A later state of the first pass. What is listed stays listed, and once there is an origin or a
tryte neither the origin nor any name moves. -/
structure Continues (s t : Survey) : Prop where
  items : s.items <+: t.items
  settled : s.isFresh = false → t.isFresh = false ∧ t.origin = s.origin
    ∧ ∀ name value, s.lookup name = some value → t.lookup name = some value

theorem Continues.refl (s : Survey) : Continues s s :=
  ⟨List.prefix_refl _, fun h => ⟨h, rfl, fun _ _ => id⟩⟩

theorem Continues.trans {s t u : Survey} (h : Continues s t) (k : Continues t u) :
    Continues s u := by
  refine ⟨h.items.trans k.items, fun fresh => ?_⟩
  obtain ⟨fresh, origin, names⟩ := h.settled fresh
  obtain ⟨fresh, origin', names'⟩ := k.settled fresh
  exact ⟨fresh, origin'.trans origin, fun name value found => names' _ _ (names _ _ found)⟩

theorem continues_add (s : Survey) (item : Item) : Continues s (s.add item) := by
  refine ⟨List.prefix_append _ _, fun fresh => ⟨?_, rfl, fun _ _ => id⟩⟩
  rw [← Bool.not_eq_true, isFresh_eq_true_iff] at fresh ⊢
  intro h
  have count := s.count_add item
  exact fresh ⟨h.1, by omega⟩

theorem continues_of_bind? {s t : Survey} {name : String} {b : Binding}
    (h : s.bind? name b = some t) : Continues s t := by
  have names (other : String) (value : Int) :
      s.lookup other = some value → t.lookup other = some value := lookup_of_bind? h
  obtain ⟨new, rfl⟩ := bind?_eq_some_iff.mp h
  exact ⟨List.prefix_refl _, fun fresh => ⟨fresh, rfl, names⟩⟩

theorem isProgress_continues : IsProgress Continues where
  refl := .refl
  trans := .trans
  add := continues_add
  bind := continues_of_bind?
  start _ fresh := ⟨List.prefix_refl _, fun stale => by simp [stale] at fresh⟩

theorem continues_of_statement? {s t : Survey} {statement : Statement}
    (h : s.statement? statement = some t) : Continues s t :=
  isProgress_continues.of_statement? h

theorem continues_of_lines? {s t : Survey} {texts : List (List Char)}
    (h : s.lines? texts = some t) : Continues s t :=
  isProgress_continues.of_lines? h

end Survey

end TernaryMachine.Assembly
