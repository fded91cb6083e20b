import Mathlib.Data.List.Nodup
import Mathlib.Tactic.SplitIfs
import TernaryMachine.Proofs.TwoPass

/-!
One pass with patches against two passes. The assembler writes a value as soon as its symbol is
bound and leaves zeros and a patch otherwise. What is written early stays right, because once there
is a tryte neither the origin nor any symbol moves, so that filling in the patches at the end gives
what the second pass would write afresh.
-/

set_option autoImplicit false
set_option relaxedAutoImplicit false

namespace TernaryMachine.Assembly

theorem bind_eq_ok_iff {ε α β : Type} {x : Except ε α} {f : α → Except ε β} {b : β} :
    (x >>= f) = .ok b ↔ ∃ a, x = .ok a ∧ f a = .ok b := by
  cases x with
  | error e => simp [bind, Except.bind]
  | ok a => simp [bind, Except.bind]

theorem map_eq_ok_iff {ε α β : Type} {x : Except ε α} {f : α → β} {b : β} :
    x.map f = .ok b ↔ ∃ a, x = .ok a ∧ f a = b := by
  cases x with
  | error e => simp [Except.map]
  | ok a => simp [Except.map]

theorem onLine_eq_ok_iff {α : Type} {line : Nat} {x : Except Cause α} {a : α} :
    onLine line x = .ok a ↔ x = .ok a := by
  cases x <;> simp [onLine]

namespace Expression

theorem select_eq_ok_iff {s : Selector} {whole value : Int} :
    select s whole = .ok value ↔ s.of? whole = some value := by
  cases s with
  | full => simp [select, Selector.of?]
  | low | high => cases h : Word.ofInt? whole <;> simp [select, Selector.of?, h]

theorem evaluate_eq_ok_some_iff {e : Expression} {table : String → Option Int} {value : Int} :
    e.evaluate table = .ok (some value) ↔ e.value? table = some value := by
  obtain ⟨selector, term⟩ := e
  cases term with
  | number n =>
    simp only [evaluate, value?, map_eq_ok_iff, Option.some.injEq, exists_eq_right,
      select_eq_ok_iff]
  | symbol name offset =>
    cases bound : table name with
    | none => simp [evaluate, value?, bound]
    | some base =>
      cases sum : Signed32.add? base offset with
      | none => simp [evaluate, value?, bound, sum]
      | some whole =>
        simp only [evaluate, value?, bound, sum, map_eq_ok_iff, Option.some.injEq, exists_eq_right,
          select_eq_ok_iff, Option.bind_eq_bind, Option.bind_some]

theorem evaluate_of_le {e : Expression} {table table' : String → Option Int}
    (names : ∀ name value, table name = some value → table' name = some value)
    (known : e.evaluate table ≠ .ok none) : e.evaluate table' = e.evaluate table := by
  obtain ⟨selector, term⟩ := e
  cases term with
  | number n => rfl
  | symbol name offset =>
    cases bound : table name with
    | none => exact absurd (by simp [evaluate, bound]) known
    | some base => simp [evaluate, bound, names name base bound]

end Expression

theorem asWord_eq_ok_iff {value : Int} {w : Word} :
    asWord value = .ok w ↔ Word.ofInt? value = some w := by
  unfold asWord
  cases Word.ofInt? value <;> simp

theorem evaluateNow_eq_ok_iff {a : Assembly} {e : Expression} {value : Int} :
    a.evaluateNow e = .ok value ↔ e.value? a.lookup = some value := by
  rw [← Expression.evaluate_eq_ok_some_iff, evaluateNow]
  split <;> simp_all

private theorem ofInt?_saturatingSub (value address : Int) :
    Tryte.ofInt? (Signed32.saturatingSub (Signed32.saturatingSub value address) 1)
      = Tryte.ofInt? (value - address - 1) := by
  apply Option.ext
  intro t
  have := t.lower
  have := t.upper
  rw [Tryte.ofInt?_eq_some_iff, Tryte.ofInt?_eq_some_iff]
  unfold Signed32.saturatingSub Signed32.minValue Signed32.maxValue
  split_ifs <;> omega

theorem Layout.encode_eq_ok_iff {layout : Layout} {value address : Int} {trytes : List Tryte} :
    layout.encode value address = .ok trytes ↔ layout.write? value address = some trytes := by
  cases layout with
  | tryte =>
    unfold encode write?
    cases Tryte.ofInt? value <;> simp
  | word =>
    change (asWord value).map _ = _ ↔ (Word.ofInt? value).map _ = _
    rw [map_eq_ok_iff, Option.map_eq_some_iff]
    simp only [asWord_eq_ok_iff]
  | displacement =>
    unfold encode write?
    rw [← ofInt?_saturatingSub]
    generalize Signed32.saturatingSub (Signed32.saturatingSub value address) 1 = distance
    cases fits : Tryte.ofInt? distance <;> simp [fits]

theorem toOption_eq_some_iff {ε α : Type} {x : Except ε α} {a : α} :
    x.toOption = some a ↔ x = .ok a := by
  cases x <;> simp [Except.toOption]

theorem emitLine_of_contents? (a : Assembly) (number : Nat) {text : List Char}
    {label? : Option String} {statement? : Option Statement}
    (h : contents? text = some (label?, statement?)) :
    a.emitLine number text = (do
      let c ← label?.elim (.ok a) a.label
      statement?.elim (.ok c) (c.emit number)) := by
  obtain ⟨line, read, found⟩ := Option.bind_eq_some_iff.mp h
  obtain ⟨_, stated, found⟩ := Option.bind_eq_some_iff.mp found
  cases found
  rw [toOption_eq_some_iff] at read stated
  obtain ⟨label?, statement⟩ := line
  obtain rfl : statement = .ok statement? := stated
  unfold emitLine
  rw [read]
  cases label? with
  | none => cases statement? <;> rfl
  | some name =>
    refine bind_congr (x := a.label name) fun c => ?_
    cases statement? <;> rfl

theorem emitLine_of_contents?_eq_none (a : Assembly) (number : Nat) {text : List Char}
    (h : contents? text = none) : ∃ cause, a.emitLine number text = .error cause := by
  unfold emitLine
  cases read : Line.parse text with
  | error cause => exact ⟨cause, rfl⟩
  | ok line =>
    cases stated : line.statement with
    | ok statement? =>
      rw [contents?, read] at h
      simp [Except.toOption, stated] at h
    | error cause =>
      cases labelled : line.label? with
      | none => exact ⟨cause, by simp [bind, Except.bind, labelled, stated]⟩
      | some name =>
        cases bound : a.label name with
        | error cause => exact ⟨cause, by simp [bind, Except.bind, labelled, bound]⟩
        | ok b => exact ⟨cause, by simp [bind, Except.bind, labelled, bound, stated]⟩

/-- Code and patches, oldest first, that stand for the given items: each item is either written as
it should be or stands as zeros with a patch. -/
inductive Laid (table : String → Option Int) (origin : Int) :
    List Item → List Tryte → List Patch → Prop
  | nil : Laid table origin [] [] []
  | written {items : List Item} {code trytes : List Tryte} {patches : List Patch} {item : Item} :
      Laid table origin items code patches →
      item.write? table (origin + code.length) = some trytes →
      Laid table origin (items ++ [item]) (code ++ trytes) patches
  | deferred {items : List Item} {code : List Tryte} {patches : List Patch} (layout : Layout)
      (e : Expression) (line : Nat) :
      Laid table origin items code patches →
      Laid table origin (items ++ [.value layout e])
        (code ++ List.replicate layout.size Tryte.zero)
        (patches ++ [⟨code.length, layout, e, line⟩])

namespace Laid

variable {table : String → Option Int} {origin : Int} {items : List Item} {code : List Tryte}
  {patches : List Patch}

theorem length_code (h : Laid table origin items code patches) :
    code.length = (items.map Item.size).sum := by
  induction h with
  | nil => rfl
  | written _ written ih => simp [ih, Item.length_of_write? written]
  | deferred layout e line _ ih => simp [ih, Item.size]

theorem of_le {table' : String → Option Int}
    (names : ∀ name value, table name = some value → table' name = some value)
    (h : Laid table origin items code patches) : Laid table' origin items code patches := by
  induction h with
  | nil => exact .nil
  | @written items code trytes patches item _ written ih =>
    refine ih.written ?_
    cases item with
    | known ts => exact written
    | value layout e =>
      obtain ⟨value, evaluated, laid⟩ := Option.bind_eq_some_iff.mp written
      rw [← Expression.evaluate_eq_ok_some_iff] at evaluated
      have kept := Expression.evaluate_of_le names (e := e) (by rw [evaluated]; simp)
      rw [evaluated, Expression.evaluate_eq_ok_some_iff] at kept
      exact Option.bind_eq_some_iff.mpr ⟨value, kept, laid⟩
  | deferred layout e line _ ih => exact ih.deferred layout e line

theorem of_nil {table' : String → Option Int} {origin' : Int}
    (h : Laid table origin items [] patches) : Laid table' origin' items [] patches := by
  generalize none : ([] : List Tryte) = code at h
  induction h with
  | nil => exact .nil
  | @written items code trytes patches item _ written ih =>
    obtain ⟨rfl, rfl⟩ := List.append_eq_nil_iff.mp none.symm
    refine (ih rfl).written ?_
    cases item with
    | known ts => exact written
    | value layout e =>
      have size := Item.length_of_write? written
      have := layout.size_pos
      simp only [Item.size, List.length_nil] at size
      omega
  | deferred layout e line _ _ =>
    have := layout.size_pos
    have empty := congrArg List.length none
    simp only [List.length_nil, List.length_append, List.length_replicate] at empty
    omega

end Laid

theorem toList_overlay {code : Array Tryte} {before old after trytes : List Tryte}
    (h : code.toList = before ++ old ++ after) (size : old.length = trytes.length) :
    (overlay code before.length trytes).toList = before ++ trytes ++ after := by
  induction trytes generalizing code before old with
  | nil =>
    obtain rfl := List.eq_nil_of_length_eq_zero size
    exact h
  | cons t ts ih =>
    obtain ⟨o, old, rfl⟩ := List.exists_cons_of_length_eq_add_one size
    have written : (code.setIfInBounds before.length t).toList
        = (before ++ [t]) ++ old ++ after := by
      rw [Array.toList_setIfInBounds, h]
      simp
    have rest := ih written (by simpa using size)
    simp only [List.length_append, List.length_singleton] at rest
    rw [overlay, rest]
    simp

theorem fill_eq_ok_iff {a b : Assembly} {p : Patch} :
    a.fill p = .ok b ↔ ∃ trytes,
      Item.write? a.lookup (a.origin + p.offset) (.value p.layout p.expression) = some trytes
        ∧ b = { a with code := overlay a.code p.offset trytes } := by
  unfold fill
  simp only [bind_eq_ok_iff, evaluateNow_eq_ok_iff, Layout.encode_eq_ok_iff, Item.write?,
    Option.bind_eq_some_iff, pure, Except.pure, Except.ok.injEq]
  constructor
  · rintro ⟨value, evaluated, trytes, laid, rfl⟩
    exact ⟨trytes, ⟨value, evaluated, laid⟩, rfl⟩
  · rintro ⟨trytes, ⟨value, evaluated, laid⟩, rfl⟩
    exact ⟨value, evaluated, trytes, laid, rfl⟩

theorem fillAll_append (a : Assembly) (ps qs : List Patch) :
    a.fillAll (ps ++ qs) = a.fillAll ps >>= fun b => b.fillAll qs := by
  induction ps generalizing a with
  | nil => rfl
  | cons p ps ih =>
    rw [List.cons_append, fillAll, fillAll, bind_assoc]
    exact bind_congr fun b => ih b

theorem fillAll_singleton_eq_ok_iff {a b : Assembly} {p : Patch} :
    a.fillAll [p] = .ok b ↔ a.fill p = .ok b := by
  rw [fillAll, bind_eq_ok_iff]
  constructor
  · rintro ⟨c, filled, rest⟩
    cases rest
    exact onLine_eq_ok_iff.mp filled
  · intro filled
    exact ⟨b, onLine_eq_ok_iff.mpr filled, rfl⟩

/-- Filling in the patches gives what the second pass writes. -/
theorem Laid.fillAll_eq_ok_iff {table : String → Option Int} {origin : Int} {items : List Item}
    {code : List Tryte} {patches : List Patch} (h : Laid table origin items code patches)
    {a : Assembly} (names : a.lookup = table) (start : a.origin = origin) {after : List Tryte}
    (split : a.code.toList = code ++ after) {b : Assembly} :
    a.fillAll patches = .ok b ↔ ∃ full, Item.writeAll? table origin items = some full
      ∧ b = { a with code := (full ++ after).toArray } := by
  -- each patch lies behind what the earlier ones fill in, so that zeros are still in its place
  induction h generalizing after b with
  | nil =>
    have same : a = { a with code := ([] ++ after).toArray } := by rw [← split]
    rw [fillAll, Except.ok.injEq]
    constructor
    · rintro rfl
      exact ⟨[], rfl, same⟩
    · rintro ⟨_, ⟨⟩, rfl⟩
      exact same
  | @written items code trytes patches item laid written ih =>
    have longer : a.code.toList = code ++ (trytes ++ after) := by rw [split, List.append_assoc]
    rw [ih longer]
    have place {before : List Tryte} (full : Item.writeAll? table origin items = some before) :
        item.write? table (origin + before.length) = some trytes := by
      rw [Item.length_of_writeAll? full, ← laid.length_code]
      exact written
    constructor
    · rintro ⟨before, full, rfl⟩
      refine ⟨before ++ trytes, ?_, by rw [List.append_assoc]⟩
      exact Item.writeAll?_concat_eq_some_iff.mpr ⟨before, trytes, full, place full, rfl⟩
    · rintro ⟨_, whole, rfl⟩
      obtain ⟨before, others, full, again, rfl⟩ := Item.writeAll?_concat_eq_some_iff.mp whole
      rw [place full] at again
      cases again
      exact ⟨before, full, by rw [List.append_assoc]⟩
  | @deferred items code patches layout e line laid ih =>
    have zeros : a.code.toList = code ++ (List.replicate layout.size Tryte.zero ++ after) := by
      rw [split, List.append_assoc]
    rw [fillAll_append, bind_eq_ok_iff]
    simp only [ih zeros, fillAll_singleton_eq_ok_iff, fill_eq_ok_iff]
    have size {before : List Tryte} (full : Item.writeAll? table origin items = some before) :
        before.length = code.length := by
      rw [Item.length_of_writeAll? full, laid.length_code]
    have overlaid {before trytes : List Tryte} (same : before.length = code.length)
        (written : trytes.length = layout.size) :
        overlay (before ++ (List.replicate layout.size Tryte.zero ++ after)).toArray code.length
            trytes = (before ++ trytes ++ after).toArray := by
      have parts : (before ++ (List.replicate layout.size Tryte.zero ++ after)).toArray.toList
          = before ++ List.replicate layout.size Tryte.zero ++ after := by simp
      rw [← same, ← Array.toList_inj]
      exact toList_overlay parts (by simp [written])
    constructor
    · rintro ⟨_, ⟨before, full, rfl⟩, trytes, written, rfl⟩
      have length := Item.length_of_write? written
      change Item.write? a.lookup (a.origin + code.length) (.value layout e) = _ at written
      rw [names, start, ← size full] at written
      refine ⟨before ++ trytes, ?_, by rw [overlaid (size full) length]⟩
      exact Item.writeAll?_concat_eq_some_iff.mpr ⟨before, trytes, full, written, rfl⟩
    · rintro ⟨_, whole, rfl⟩
      obtain ⟨before, trytes, full, written, rfl⟩ := Item.writeAll?_concat_eq_some_iff.mp whole
      have length := Item.length_of_write? written
      rw [← names, ← start, size full] at written
      exact ⟨_, ⟨before, full, rfl⟩, trytes, written, by rw [overlaid (size full) length]⟩

theorem toList_code_append (a : Assembly) (trytes : List Tryte) :
    (a.append trytes).code.toList = a.code.toList ++ trytes := by
  simp [append]

/-- The assembler and the first pass after the same lines. -/
structure Agrees (a : Assembly) (s : Survey) : Prop where
  origin? : a.origin? = s.origin?
  symbols : a.symbols = s.bindings.map fun b => (b.1, s.resolve b.2)
  distinct : (s.bindings.map Prod.fst).Nodup
  floating : s.isFresh = true → ∀ name, name ∈ a.floating ↔ (name, Binding.start) ∈ s.bindings
  laid : Laid s.lookup s.origin s.items a.code.toList a.patches.reverse

private theorem lookup_map (f : Binding → Int) (bindings : List (String × Binding))
    (name : String) : (bindings.map fun b => (b.1, f b.2)).lookup name
      = (bindings.lookup name).map f := by
  induction bindings with
  | nil => rfl
  | cons b bindings ih =>
    rw [List.map_cons, List.lookup_cons, List.lookup_cons, ih]
    cases name == b.1 <;> rfl

namespace Agrees

variable {a : Assembly} {s : Survey}

theorem lookup (h : Agrees a s) : a.lookup = s.lookup := by
  funext name
  rw [Assembly.lookup, h.symbols]
  exact lookup_map s.resolve s.bindings name

theorem origin (h : Agrees a s) : a.origin = s.origin := congrArg (Option.getD · 0) h.origin?

theorem size_code (h : Agrees a s) : a.code.size = s.count := by
  rw [← Array.length_toList]
  exact h.laid.length_code

theorem address (h : Agrees a s) : a.address = s.address := by
  rw [Assembly.address, h.origin, h.size_code]
  rfl

theorem isFresh (h : Agrees a s) : a.isFresh = s.isFresh := by
  rw [Assembly.isFresh, h.origin?, Array.isEmpty, h.size_code]
  rfl

theorem initial : Agrees {} {} where
  origin? := rfl
  symbols := rfl
  distinct := List.nodup_nil
  floating _ name := by simp
  laid := .nil

theorem append (h : Agrees a s) {item : Item} {trytes : List Tryte}
    (written : item.write? s.lookup s.address = some trytes) :
    Agrees (a.append trytes) (s.add item) where
  origin? := h.origin?
  symbols := h.symbols
  distinct := h.distinct
  floating fresh := by
    refine h.floating ?_
    rw [Survey.isFresh_eq_true_iff] at fresh ⊢
    have count := s.count_add item
    exact ⟨fresh.1, by omega⟩
  laid := by
    have here : s.origin + a.code.toList.length = s.address := by
      rw [Array.length_toList, h.size_code]
      rfl
    rw [toList_code_append]
    exact h.laid.written (here ▸ written)

theorem defer (h : Agrees a s) (layout : Layout) (e : Expression) (line : Nat) :
    Agrees { a.append (List.replicate layout.size Tryte.zero) with
      patches := ⟨a.code.size, layout, e, line⟩ :: a.patches } (s.add (.value layout e)) where
  origin? := h.origin?
  symbols := h.symbols
  distinct := h.distinct
  floating fresh := by
    rw [Survey.isFresh_eq_true_iff, Survey.count_add] at fresh
    have positive : 0 < (Item.value layout e).size := layout.size_pos
    omega
  laid := by
    have laid := h.laid.deferred layout e line
    rw [toList_code_append, List.reverse_cons]
    exact laid

theorem bind (h : Agrees a s) {t : Survey} {name : String} {b : Binding} {floating : List String}
    (bound : s.bind? name b = some t)
    (moved : s.isFresh = true →
      ∀ other, other ∈ floating ↔ other ∈ a.floating ∨ other = name ∧ b = .start) :
    Agrees { a with symbols := (name, s.resolve b) :: a.symbols, floating := floating } t := by
  have names (other : String) (value : Int) :
      s.lookup other = some value → t.lookup other = some value := Survey.lookup_of_bind? bound
  obtain ⟨new, rfl⟩ := Survey.bind?_eq_some_iff.mp bound
  exact {
    origin? := h.origin?
    symbols := by
      rw [h.symbols]
      rfl
    distinct := by
      refine List.nodup_cons.mpr ⟨fun old => ?_, h.distinct⟩
      obtain ⟨⟨_, c⟩, mem, rfl⟩ := List.mem_map.mp old
      have missing := List.lookup_eq_none_iff.mp new _ mem
      simp at missing
    floating := fun fresh other => by
      have fresh : s.isFresh = true := fresh
      change other ∈ floating ↔ (other, Binding.start) ∈ (name, b) :: s.bindings
      rw [moved fresh, h.floating fresh, List.mem_cons, Prod.mk.injEq, or_comm]
      simp only [eq_comm]
    laid := h.laid.of_le names }

theorem moveTo (h : Agrees a s) (fresh : s.isFresh = true) (target : Int) :
    Agrees { a with
      origin? := some target
      symbols := a.symbols.map fun b => if a.floating.contains b.1 then (b.1, target) else b
      floating := [] } { s with origin? := some target } where
  origin? := rfl
  symbols := by
    rw [h.symbols, List.map_map]
    refine List.map_congr_left fun ⟨name, b⟩ mem => ?_
    cases b with
    | start =>
      have floats := (h.floating fresh name).mpr mem
      simp [floats, Survey.resolve, Survey.origin]
    | fixed value =>
      have stays : name ∉ a.floating := fun floats => by
        have same := List.inj_on_of_nodup_map h.distinct mem ((h.floating fresh name).mp floats) rfl
        simp at same
      simp [stays, Survey.resolve]
  distinct := h.distinct
  floating := fun stale => by simp [Survey.isFresh] at stale
  laid := by
    have empty : a.code.toList = [] := by
      apply List.eq_nil_of_length_eq_zero
      rw [Array.length_toList, h.size_code]
      exact (s.isFresh_eq_true_iff.mp fresh).2
    have laid := h.laid
    rw [empty] at laid
    change Laid _ _ s.items a.code.toList a.patches.reverse
    rw [empty]
    exact laid.of_nil

end Agrees

def Refuted (s : Survey) : Prop :=
  ∀ t, Survey.Continues s t → Item.writeAll? t.lookup t.origin t.items = none

/-- The assembler keeps up with the first pass: both go on and agree, both fail, or the assembler
fails early, on a value that the second pass will not write either. -/
inductive Follows {ε : Type} : Except ε Assembly → Option Survey → Prop
  | agree {a : Assembly} {s : Survey} : Agrees a s → Follows (.ok a) (some s)
  | fail {e : ε} : Follows (.error e) none
  | early {e : ε} {s : Survey} : Refuted s → Follows (.error e) (some s)

namespace Follows

variable {ε : Type} {x : Except ε Assembly} {y : Option Survey}

theorem bind {f : Assembly → Except ε Assembly} {g : Survey → Option Survey} (h : Follows x y)
    (next : ∀ a s, Agrees a s → Follows (f a) (g s))
    (continues : ∀ s t, g s = some t → Survey.Continues s t) : Follows (x >>= f) (y.bind g) := by
  cases h with
  | agree agrees => exact next _ _ agrees
  | fail => exact .fail
  | @early e s refuted =>
    change Follows (.error e) (g s)
    cases found : g s with
    | none => exact .fail
    | some t => exact .early fun u later => refuted u ((continues s t found).trans later)

theorem of_word {w : Except ε Word} {w? : Option Word} (same : ∀ v, w = .ok v ↔ w? = some v)
    {f : Word → Except ε Assembly} {g : Word → Option Survey}
    (next : ∀ v, Follows (f v) (g v)) : Follows (w >>= f) (w?.bind g) := by
  cases w with
  | error e =>
    cases w? with
    | none => exact .fail
    | some v => simpa using same v
  | ok v =>
    rw [(same v).mp rfl]
    exact next v

theorem onLine {x : Except Cause Assembly} (h : Follows x y) (line : Nat) :
    Follows (onLine line x) y := by
  cases h with
  | agree agrees => exact .agree agrees
  | fail => exact .fail
  | early refuted => exact .early refuted

end Follows

theorem Survey.refuted_add (s : Survey) (item : Item) (size : 0 < item.size)
    (unwritable : ∀ table : String → Option Int,
      (∀ name value, s.lookup name = some value → table name = some value) →
      item.write? table s.address = none) : Refuted (s.add item) := by
  intro t later
  have stale : (s.add item).isFresh = false := by
    rw [← Bool.not_eq_true, isFresh_eq_true_iff, count_add]
    omega
  obtain ⟨-, origin, names⟩ := later.settled stale
  obtain ⟨rest, items⟩ := later.items
  rw [Option.eq_none_iff_forall_ne_some]
  intro code whole
  rw [← items] at whole
  obtain ⟨before, -, first, -, -⟩ := Item.writeAll?_append_eq_some_iff.mp whole
  obtain ⟨before, trytes, first, written, -⟩ := Item.writeAll?_concat_eq_some_iff.mp first
  rw [Item.length_of_writeAll? first, origin] at written
  change item.write? t.lookup s.address = some trytes at written
  rw [unwritable t.lookup names] at written
  cases written

namespace Agrees

variable {a : Assembly} {s : Survey}

theorem follows_define (h : Agrees a s) (name : String) (value : Int) :
    Follows (a.define name value) (s.bind? name (.fixed value)) := by
  unfold Assembly.define
  rw [h.lookup, Survey.lookup]
  cases old : s.bindings.lookup name with
  | some c =>
    rw [Survey.bind?, old]
    exact .fail
  | none =>
    have bound : s.bind? name (.fixed value) = some _ :=
      Survey.bind?_eq_some_iff.mpr ⟨old, rfl⟩
    rw [bound]
    exact .agree (h.bind bound fun _ other => by simp)

theorem follows_label (h : Agrees a s) (name : String) :
    Follows (a.label name) (s.label? name) := by
  unfold Assembly.label Assembly.define Survey.label?
  rw [h.lookup, h.address, h.isFresh, Survey.lookup]
  cases old : s.bindings.lookup name with
  | some c =>
    rw [Survey.bind?, old]
    exact .fail
  | none =>
    cases fresh : s.isFresh with
    | false =>
      have bound : s.bind? name (.fixed s.address) = some _ :=
        Survey.bind?_eq_some_iff.mpr ⟨old, rfl⟩
      rw [if_neg Bool.false_ne_true, bound]
      exact .agree (h.bind bound fun moves => by simp [fresh] at moves)
    | true =>
      have bound : s.bind? name .start = some _ := Survey.bind?_eq_some_iff.mpr ⟨old, rfl⟩
      have here : s.address = s.resolve .start := by
        have count := (s.isFresh_eq_true_iff.mp fresh).2
        rw [Survey.address, count]
        exact Int.add_zero _
      rw [if_pos rfl, bound, here]
      exact .agree (h.bind bound fun _ other => by simp [or_comm])

theorem follows_defineWord (h : Agrees a s) (name : String) (w : Word) :
    Follows (a.defineWord name w) (s.define? name w) := by
  have halves (b : Assembly) (t : Survey) (agrees : Agrees b t) := (agrees.follows_define
    (name ++ ".low") w.low.val).bind (fun _ _ agrees => agrees.follows_define (name ++ ".high")
      w.high.val) fun _ _ => Survey.continues_of_bind?
  refine (h.follows_define name w.val).bind halves fun t u found => ?_
  obtain ⟨v, low, high⟩ := Option.bind_eq_some_iff.mp found
  exact (Survey.continues_of_bind? low).trans (Survey.continues_of_bind? high)

theorem follows_setOrigin (h : Agrees a s) (target : Int) :
    Follows (a.setOrigin target) (s.moveTo? target) := by
  unfold Assembly.setOrigin Survey.moveTo?
  rw [h.isFresh, h.address]
  split
  · rename_i fresh
    exact .agree (h.moveTo fresh target)
  · split
    · exact .fail
    · exact .agree (h.append rfl)

theorem follows_emitValue (h : Agrees a s) (line : Nat) (layout : Layout) (e : Expression) :
    Follows (a.emitValue line layout e) (some (s.add (.value layout e))) := by
  unfold Assembly.emitValue
  rw [h.lookup, h.address]
  -- a fault that shows here shows in the second pass too: the names are only added to
  cases evaluated : e.evaluate s.lookup with
  | error cause =>
    refine .early (s.refuted_add (.value layout e) layout.size_pos fun table names => ?_)
    have kept := Expression.evaluate_of_le names (e := e) (by rw [evaluated]; simp)
    have none : e.value? table = none := by
      rw [Option.eq_none_iff_forall_ne_some]
      intro value found
      rw [← Expression.evaluate_eq_ok_some_iff, kept, evaluated] at found
      cases found
    rw [Item.write?, none]
    rfl
  | ok value? =>
    cases value? with
    | none => exact .agree (h.defer layout e line)
    | some value =>
      have known := Expression.evaluate_eq_ok_some_iff.mp evaluated
      change Follows ((layout.encode value s.address).map a.append) _
      cases written : layout.encode value s.address with
      | ok trytes =>
        rw [Layout.encode_eq_ok_iff] at written
        have whole : Item.write? s.lookup s.address (.value layout e) = some trytes :=
          Option.bind_eq_some_iff.mpr ⟨value, known, written⟩
        exact .agree (h.append whole)
      | error cause =>
        refine .early (s.refuted_add (.value layout e) layout.size_pos fun table names => ?_)
        have kept := Expression.evaluate_of_le names (e := e) (by rw [evaluated]; simp)
        rw [evaluated, Expression.evaluate_eq_ok_some_iff] at kept
        rw [Item.write?, kept, Option.bind_some, Option.eq_none_iff_forall_ne_some]
        intro trytes found
        rw [← Layout.encode_eq_ok_iff, written] at found
        cases found

theorem follows_emit (h : Agrees a s) (line : Nat) (statement : Statement) :
    Follows (a.emit line statement) (s.statement? statement) := by
  have word (e : Expression) (w : Word) :
      (a.evaluateNow e >>= asWord) = .ok w ↔ s.word? e = some w := by
    simp only [bind_eq_ok_iff, evaluateNow_eq_ok_iff, asWord_eq_ok_iff, Survey.word?,
      Option.bind_eq_some_iff, h.lookup]
  cases statement with
  | origin target =>
    have step := Follows.of_word (word target) fun w => h.follows_setOrigin w.val
    rw [bind_assoc] at step
    exact step
  | define name value =>
    have step := Follows.of_word (word value) fun w => h.follows_defineWord name w
    rw [bind_assoc] at step
    exact step
  | value layout e => exact h.follows_emitValue line layout e
  | data trytes => exact .agree (h.append rfl)
  | instruction i operand? =>
    cases operand? with
    | none => exact .agree (h.append rfl)
    | some operand => exact (h.append rfl).follows_emitValue line operand.1 operand.2

theorem follows_emitLine (h : Agrees a s) (number : Nat) (text : List Char) :
    Follows (a.emitLine number text) (s.line? text) := by
  unfold Survey.line?
  cases found : contents? text with
  | none =>
    obtain ⟨cause, failed⟩ := a.emitLine_of_contents?_eq_none number found
    rw [failed]
    exact .fail
  | some contents =>
    obtain ⟨label?, statement?⟩ := contents
    rw [a.emitLine_of_contents? number found]
    have labelled : Follows (label?.elim (.ok a) a.label) (label?.elim (some s) s.label?) := by
      cases label? with
      | none => exact .agree h
      | some name => exact h.follows_label name
    refine labelled.bind (fun b t agrees => ?_) fun t u later => ?_
    · cases statement? with
      | none => exact .agree agrees
      | some statement => exact agrees.follows_emit number statement
    · cases statement? with
      | none =>
        cases later
        exact .refl t
      | some statement => exact Survey.continues_of_statement? later

theorem follows_emitLines (h : Agrees a s) (number : Nat) (texts : List (List Char)) :
    Follows (a.emitLines number texts) (s.lines? texts) := by
  induction texts generalizing a s number with
  | nil => exact .agree h
  | cons text rest ih =>
    refine ((h.follows_emitLine number text).onLine number).bind ?_ ?_
    · exact fun b t agrees => ih agrees (number + 1)
    · exact fun t u => Survey.continues_of_lines?

end Agrees

theorem Follows.exists_of_ok {ε : Type} {a : Assembly} {y : Option Survey}
    (h : Follows (.ok a : Except ε Assembly) y) : ∃ s, y = some s ∧ Agrees a s := by
  cases h with
  | agree agrees => exact ⟨_, rfl, agrees⟩

theorem Agrees.toProgram_eq_ok_iff {a : Assembly} {s : Survey} (h : Agrees a s) {p : Program} :
    (do
      let b ← a.fillAll a.patches.reverse
      return b.toProgram) = .ok p ↔ s.program? = some p := by
  have filled (b : Assembly) := h.laid.fillAll_eq_ok_iff h.lookup h.origin
    (List.append_nil _).symm (b := b)
  simp only [List.append_nil] at filled
  simp only [bind_eq_ok_iff, filled, Survey.program?, Option.map_eq_some_iff, pure, Except.pure,
    Except.ok.injEq]
  constructor
  · rintro ⟨_, ⟨full, written, rfl⟩, rfl⟩
    exact ⟨full, written, by rw [toProgram, ← h.origin]; rfl⟩
  · rintro ⟨full, written, rfl⟩
    exact ⟨_, ⟨full, written, rfl⟩, by rw [toProgram, ← h.origin]; rfl⟩

/-- A source assembles exactly if the two passes assemble it, and then to the same program. -/
theorem assemble_eq_ok_iff_two_passes (source : List Char) (p : Program) :
    assemble source = .ok p ↔ twoPass? source = some p := by
  have follows := Agrees.initial.follows_emitLines 1 (Text.lines source)
  unfold assemble twoPass?
  revert follows
  generalize emitLines {} 1 (Text.lines source) = x
  generalize Survey.lines? {} (Text.lines source) = y
  intro follows
  cases follows with
  | agree agrees => exact agrees.toProgram_eq_ok_iff
  | fail => simp [bind, Except.bind]
  | @early e s refuted =>
    have failed := refuted s (.refl s)
    simp [bind, Except.bind, Survey.program?, failed]

end TernaryMachine.Assembly
