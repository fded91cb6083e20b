import Mathlib.Data.List.Forall2
import TernaryMachine.Exchange
import TernaryMachine.Proofs.Expansion
import TernaryMachine.Proofs.JsonText
import TernaryMachine.Proofs.StackContents

/-!
Register files in JSON. A text is accepted exactly if the six numbers of a register file stand in
it, the accumulator and the index registers as trytes, the program counter, the stack pointer and
the packed flags as 32-bit integers. The flags are not held to nine digits. A status register of
nine digits is given back by its packed value and has a word to be pushed. Any other one is not
given back, and outside ten digits there is no word for it.
-/

set_option autoImplicit false
set_option relaxedAutoImplicit false

namespace TernaryMachine

namespace Flags

theorem exists_ofInt? {s : Flags} (fits : Signed32.InRange s.packed)
    (other : s.packed ≠ Signed32.minValue) :
    ∃ s', ofInt? s.packed = some s' ∧ s'.Bounded ∧ ∀ f, s'.get f = s.get f :=
  ⟨_, ofInt?_of_inside (lt_of_le_of_ne fits.1 other.symm) fits.2, bounded_take s.packed,
    get_take s.packed⟩

theorem ofInt?_packed_iff {s : Flags} (fits : Signed32.InRange s.packed) :
    ofInt? s.packed = some s ↔ s.Bounded := by
  constructor
  · intro loaded
    have other : s.packed ≠ Signed32.minValue := by
      intro least
      have unread : ofInt? Signed32.minValue = none := by decide
      rw [least, unread] at loaded
      cases loaded
    obtain ⟨s', loaded', nine, -⟩ := exists_ofInt? fits other
    rw [Option.some.inj (loaded.symm.trans loaded')]
    exact nine
  · intro nine
    rw [ofInt?_of_inside nine.inside.1 nine.inside.2, nine.value_take]

theorem toWord?_eq_none {s : Flags} (outside : s.packed < -29524 ∨ 29524 < s.packed) :
    s.toWord? = none := dif_neg (by omega)

end Flags

namespace Core

theorem perform_php_of_none {c : Core} (packed : c.registers.flags.toWord? = none)
    (value last : Int) : perform (.extended .php) value last c = .error .rangeFault c := by
  change andNext _ c = _
  simp only [andNext, bind, EStateM.bind, ask, packed, inRange]
  rfl

end Core

namespace Exchange

/-- A record with the given values of its fields: an array of the values in order, or an object in
which each field stands once, in any order and among other members. -/
inductive Fields (names : List String) (items : List Json) : Json → Prop
  | array (complete : items.length = names.length) : Fields names items (.array items)
  | object {members : List (Option String × Json)} (named : ∀ m ∈ members, m.1 ≠ none)
      (single : List.Forall₂ (fun name item =>
        members.filter (fun m => m.1 == some name) = [(some name, item)]) names items) :
      Fields names items (.object members)

theorem mapM_eq_some_iff {α β : Type} {f : α → Option β} {xs : List α} {ys : List β} :
    xs.mapM f = some ys ↔ List.Forall₂ (fun x y => f x = some y) xs ys := by
  induction xs generalizing ys with
  | nil => cases ys <;> simp
  | cons x xs ih =>
    rw [List.mapM_cons]
    cases ys with
    | nil => simp [Option.bind_eq_some_iff]
    | cons y ys => simp [Option.bind_eq_some_iff, ih]

theorem eq_of_map_some_append {xs items : List Json} {k : Nat}
    (h : xs.map some ++ List.replicate k none = items.map some) : k = 0 ∧ xs = items := by
  have full : k = 0 := by
    by_contra places
    have hole : none ∈ items.map some := by
      rw [← h]
      exact List.mem_append_right _ (List.mem_replicate.mpr ⟨places, rfl⟩)
    simp at hole
  subst full
  rw [List.replicate_zero, List.append_nil] at h
  exact ⟨rfl, List.map_injective_iff.mpr (Option.some_injective _) h⟩

theorem fields?_eq_some_iff {names : List String} {items : List Json} {v : Json} :
    fields? names v = some (items.map some) ↔ Fields names items v := by
  constructor
  · intro h
    cases v with
    | array xs =>
      rw [fields?] at h
      split at h
      · rename_i few
        obtain ⟨full, rfl⟩ := eq_of_map_some_append (Option.some.inj h)
        exact .array (by omega)
      · cases h
    | object members =>
      rw [fields?] at h
      split at h
      · cases h
      · rename_i named
        have whole : ∀ m ∈ members, m.1 ≠ none := fun m member broken =>
          named (List.any_eq_true.mpr ⟨m, member, by rw [broken]; rfl⟩)
        refine .object whole ?_
        rw [mapM_eq_some_iff, List.forall₂_map_right_iff] at h
        refine h.imp fun name item read => ?_
        split at read
        · cases read
        · rename_i m single
          have member : m ∈ members.filter fun m => m.1 == some name := single ▸ List.mem_cons_self
          have key : m.1 = some name := by simpa using (List.mem_filter.mp member).2
          rw [single, ← key, ← Option.some.inj (Option.some.inj read)]
        · cases read
    | null | boolean | integer | decimal | string | brokenString => cases h
  · intro h
    cases h with
    | array complete => simp [fields?, complete]
    | @object members named single =>
      have unbroken : (members.any fun m => m.1.isNone) = false := by
        simpa [Option.isNone_iff_eq_none] using named
      rw [fields?, unbroken, if_neg Bool.false_ne_true, mapM_eq_some_iff,
        List.forall₂_map_right_iff]
      refine single.imp fun name item single => ?_
      rw [single]

theorem Fields.unique {names : List String} {items items' : List Json} {v : Json}
    (h : Fields names items v) (h' : Fields names items' v) : items = items' := by
  have same := (fields?_eq_some_iff.mpr h).symm.trans (fields?_eq_some_iff.mpr h')
  exact List.map_injective_iff.mpr (Option.some_injective _) (Option.some.inj same)

theorem filter_of_distinct {members : List (String × Json)}
    (distinct : (members.map Prod.fst).Nodup) {m : String × Json} (member : m ∈ members) :
    members.filter (fun k => k.1 == m.1) = [m] := by
  induction members with
  | nil => cases member
  | cons k members ih =>
    obtain ⟨fresh, distinct⟩ := List.nodup_cons.mp distinct
    rcases List.mem_cons.mp member with rfl | later
    · have others : members.filter (fun k => k.1 == m.1) = [] := by
        refine List.filter_eq_nil_iff.mpr fun k member same => fresh ?_
        rw [← beq_iff_eq.mp same]
        exact List.mem_map_of_mem member
      rw [List.filter_cons_of_pos (by simp), others]
    · have other : k.1 ≠ m.1 := fun same => fresh (same ▸ List.mem_map_of_mem later)
      rw [List.filter_cons_of_neg (by simpa using other), ih distinct later]

theorem fields_record (members : List (String × Json)) (distinct : (members.map Prod.fst).Nodup) :
    Fields (members.map Prod.fst) (members.map Prod.snd) (record members) := by
  have named : ∀ m ∈ members.map fun m => (some m.1, m.2), m.1 ≠ none := by
    intro m member
    obtain ⟨k, -, rfl⟩ := List.mem_map.mp member
    exact Option.some_ne_none k.1
  refine .object named ?_
  rw [List.forall₂_map_left_iff, List.forall₂_map_right_iff, List.forall₂_same]
  intro m member
  have keys : ((fun k : Option String × Json => k.1 == some m.1) ∘ fun k => (some k.1, k.2))
      = fun k : String × Json => k.1 == m.1 := by
    funext k
    exact Option.some_beq_some
  rw [List.filter_map, keys, filter_of_distinct distinct member]
  rfl

theorem signed32?_eq_some_iff {v : Json} {n : Int} :
    signed32? v = some n ↔ v = .integer n ∧ Signed32.InRange n := by
  cases v with
  | integer m =>
    rw [signed32?, Signed32.check?_eq_some_iff, Json.integer.injEq]
    constructor
    · rintro ⟨fits, rfl⟩
      exact ⟨rfl, fits⟩
    · rintro ⟨rfl, fits⟩
      exact ⟨fits, rfl⟩
  | null | boolean | decimal | string | brokenString | array | object => simp [signed32?]

theorem tryte?_eq_some_iff {v : Json} {t : Tryte} : tryte? v = some t ↔ v = .integer t.val := by
  cases v with
  | integer n => rw [tryte?, Tryte.ofInt?_eq_some_iff, Json.integer.injEq, eq_comm]
  | null | boolean | decimal | string | brokenString | array | object => simp [tryte?]

theorem flags?_eq_some_iff {v : Json} {s : Flags} : flags? v = some s
    ↔ Fields ["value"] [.integer s.packed] v ∧ Signed32.InRange s.packed := by
  constructor
  · intro h
    obtain ⟨fields, found, h⟩ := Option.bind_eq_some_iff.mp h
    split at h
    · obtain ⟨n, number, same⟩ := Option.bind_eq_some_iff.mp h
      obtain rfl := Option.some.inj same
      obtain ⟨rfl, fits⟩ := signed32?_eq_some_iff.mp number
      exact ⟨fields?_eq_some_iff.mp found, fits⟩
    · cases h
  · rintro ⟨fields, fits⟩
    have found : fields? ["value"] v = some [some (.integer s.packed)] :=
      fields?_eq_some_iff.mpr fields
    have number := signed32?_eq_some_iff.mpr ⟨rfl, fits⟩
    simp only [flags?, found, Option.bind_eq_bind, Option.bind_some, number]
    rfl

def registerNames : List String := ["pc", "accum", "index", "yindex", "stackptr", "flags"]

/-- The numbers of a register file, each of them any integer. -/
@[ext] structure Entries where
  pc : Int
  accum : Int
  index : Int
  yindex : Int
  stackptr : Int
  flags : Int

def readRegisters? (text : List Char) : Option Registers := (Json.parse? text).bind registers?

namespace Entries

def ofRegisters (r : Registers) : Entries :=
  ⟨r.pc, r.accumulator.val, r.indexX.val, r.indexY.val, r.stackPointer, r.flags.packed⟩

def Fill (e : Entries) (v : Json) : Prop :=
  ∃ flags, Fields registerNames [.integer e.pc, .integer e.accum, .integer e.index,
      .integer e.yindex, .integer e.stackptr, flags] v
    ∧ Fields ["value"] [.integer e.flags] flags

def StandIn (e : Entries) (text : List Char) : Prop := ∃ v, Json.parse? text = some v ∧ e.Fill v

/-- What is asked of the numbers: the index registers and the accumulator hold trytes, and the other
ones 32 bits. -/
structure Admitted (e : Entries) : Prop where
  pc : Signed32.InRange e.pc
  accum : -121 ≤ e.accum ∧ e.accum ≤ 121
  index : -121 ≤ e.index ∧ e.index ≤ 121
  yindex : -121 ≤ e.yindex ∧ e.yindex ≤ 121
  stackptr : Signed32.InRange e.stackptr
  flags : Signed32.InRange e.flags

theorem StandIn.unique {e e' : Entries} {text : List Char} (h : e.StandIn text)
    (h' : e'.StandIn text) : e = e' := by
  obtain ⟨v, parsed, flags, fields, value⟩ := h
  obtain ⟨v', parsed', flags', fields', value'⟩ := h'
  obtain rfl : v = v' := Option.some.inj (parsed.symm.trans parsed')
  have same := fields.unique fields'
  simp only [List.cons.injEq, Json.integer.injEq, and_true] at same
  obtain ⟨pc, accum, index, yindex, stackptr, rfl⟩ := same
  have packed := value.unique value'
  simp only [List.cons.injEq, Json.integer.injEq, and_true] at packed
  exact Entries.ext pc accum index yindex stackptr packed

end Entries

theorem registers?_eq_some_iff {v : Json} {r : Registers} : registers? v = some r
    ↔ (Entries.ofRegisters r).Fill v ∧ Signed32.InRange r.pc ∧ Signed32.InRange r.stackPointer
      ∧ Signed32.InRange r.flags.packed := by
  constructor
  · intro h
    obtain ⟨fields, found, h⟩ := Option.bind_eq_some_iff.mp h
    split at h
    · rename_i pc accum index yindex stackptr flags
      obtain ⟨_, pcRead, h⟩ := Option.bind_eq_some_iff.mp h
      obtain ⟨_, accumRead, h⟩ := Option.bind_eq_some_iff.mp h
      obtain ⟨_, indexRead, h⟩ := Option.bind_eq_some_iff.mp h
      obtain ⟨_, yindexRead, h⟩ := Option.bind_eq_some_iff.mp h
      obtain ⟨_, stackptrRead, h⟩ := Option.bind_eq_some_iff.mp h
      obtain ⟨_, flagsRead, h⟩ := Option.bind_eq_some_iff.mp h
      obtain rfl := Option.some.inj h
      obtain ⟨rfl, pcFits⟩ := signed32?_eq_some_iff.mp pcRead
      obtain rfl := tryte?_eq_some_iff.mp accumRead
      obtain rfl := tryte?_eq_some_iff.mp indexRead
      obtain rfl := tryte?_eq_some_iff.mp yindexRead
      obtain ⟨rfl, pointerFits⟩ := signed32?_eq_some_iff.mp stackptrRead
      obtain ⟨value, flagsFit⟩ := flags?_eq_some_iff.mp flagsRead
      exact ⟨⟨flags, fields?_eq_some_iff.mp found, value⟩, pcFits, pointerFits, flagsFit⟩
    · cases h
  · rintro ⟨⟨flags, fields, value⟩, pcFits, pointerFits, flagsFit⟩
    have found := fields?_eq_some_iff.mpr fields
    have pc := signed32?_eq_some_iff.mpr ⟨rfl, pcFits⟩
    have pointer := signed32?_eq_some_iff.mpr ⟨rfl, pointerFits⟩
    have status := flags?_eq_some_iff.mpr ⟨value, flagsFit⟩
    have tryte (t : Tryte) : tryte? (.integer t.val) = some t := tryte?_eq_some_iff.mpr rfl
    rw [registers?, ← registerNames, found]
    simp only [Entries.ofRegisters, List.map_cons, List.map_nil, Option.bind_eq_bind,
      Option.bind_some, pc, pointer, status, tryte]
    rfl

theorem readRegisters?_eq_some_iff {text : List Char} {r : Registers} : readRegisters? text = some r
    ↔ (Entries.ofRegisters r).StandIn text ∧ Signed32.InRange r.pc ∧ Signed32.InRange r.stackPointer
      ∧ Signed32.InRange r.flags.packed := by
  constructor
  · intro accepted
    obtain ⟨v, parsed, read⟩ := Option.bind_eq_some_iff.mp accepted
    obtain ⟨fill, fits⟩ := registers?_eq_some_iff.mp read
    exact ⟨⟨v, parsed, fill⟩, fits⟩
  · rintro ⟨⟨v, parsed, fill⟩, fits⟩
    rw [readRegisters?, parsed]
    exact registers?_eq_some_iff.mpr ⟨fill, fits⟩

namespace Entries

theorem StandIn.accepted_iff {e : Entries} {text : List Char} (h : e.StandIn text) :
    (∃ r, readRegisters? text = some r) ↔ e.Admitted := by
  constructor
  · rintro ⟨r, accepted⟩
    obtain ⟨stand, pc, stackptr, flags⟩ := readRegisters?_eq_some_iff.mp accepted
    rw [h.unique stand]
    exact ⟨pc, ⟨r.accumulator.lower, r.accumulator.upper⟩, ⟨r.indexX.lower, r.indexX.upper⟩,
      ⟨r.indexY.lower, r.indexY.upper⟩, stackptr, flags⟩
  · intro admitted
    let r : Registers := ⟨e.pc, ⟨e.accum, admitted.accum.1, admitted.accum.2⟩,
      ⟨e.index, admitted.index.1, admitted.index.2⟩,
      ⟨e.yindex, admitted.yindex.1, admitted.yindex.2⟩, e.stackptr, ⟨e.flags⟩⟩
    exact ⟨r, readRegisters?_eq_some_iff.mpr ⟨h, admitted.pc, admitted.stackptr, admitted.flags⟩⟩

def json (e : Entries) : Json :=
  record [("pc", .integer e.pc), ("accum", .integer e.accum), ("index", .integer e.index),
    ("yindex", .integer e.yindex), ("stackptr", .integer e.stackptr),
    ("flags", record [("value", .integer e.flags)])]

def text (e : Entries) : List Char :=
  Json.objectText [("pc", Text.decimal e.pc), ("accum", Text.decimal e.accum),
    ("index", Text.decimal e.index), ("yindex", Text.decimal e.yindex),
    ("stackptr", Text.decimal e.stackptr),
    ("flags", Json.objectText [("value", Text.decimal e.flags)])]

theorem fill_json (e : Entries) : e.Fill e.json := by
  have distinct : registerNames.Nodup := by decide
  exact ⟨_, fields_record [("pc", _), ("accum", _), ("index", _), ("yindex", _), ("stackptr", _),
    ("flags", _)] distinct, fields_record [("value", _)] (List.nodup_singleton _)⟩

theorem reads_text (e : Entries) : Json.Reads e.text e.json := by
  have value := Json.readsMember_decimal (show Json.Plain "value" by decide) e.flags
  have flags : Json.ReadsMember ("flags", _) ("flags", _) :=
    ⟨rfl, show Json.Plain "flags" by decide,
      Json.reads_objectText (List.cons_ne_nil _ _) (.cons value .nil)⟩
  exact Json.reads_objectText (List.cons_ne_nil _ _)
    (.cons (Json.readsMember_decimal (by decide) e.pc)
      (.cons (Json.readsMember_decimal (by decide) e.accum)
        (.cons (Json.readsMember_decimal (by decide) e.index)
          (.cons (Json.readsMember_decimal (by decide) e.yindex)
            (.cons (Json.readsMember_decimal (by decide) e.stackptr) (.cons flags .nil))))))

theorem standIn_text (e : Entries) : e.StandIn e.text := ⟨e.json, e.reads_text.parse?, e.fill_json⟩

end Entries

/-- What an accepted register file guarantees. The numbers that stand in the text are the
registers. A status of nine digits has a word and is given back by its packed value. Any other one
of 32 bits is accepted as well, though the accumulator and the index registers are held to their
digits: it is not given back, only its flags are, and outside ten digits pushing it fails. -/
theorem status_of_register_file {text : List Char} {r : Registers}
    (accepted : readRegisters? text = some r) :
    (∀ e : Entries, e.StandIn text ↔ e = .ofRegisters r)
    ∧ (r.flags.Bounded → (∃ w, r.flags.toWord? = some w ∧ Flags.ofWord w = r.flags)
      ∧ Flags.ofInt? r.flags.packed = some r.flags)
    ∧ (¬ r.flags.Bounded → Flags.ofInt? r.flags.packed ≠ some r.flags
      ∧ (r.flags.packed ≠ Signed32.minValue → ∃ s, Flags.ofInt? r.flags.packed = some s
        ∧ s.Bounded ∧ ∀ f, s.get f = r.flags.get f))
    ∧ (∀ store value last,
      (∀ w, r.flags.toWord? = some w → Core.perform (.extended .php) value last ⟨r, store⟩
        = Core.andNext (Core.onStack (Stack.pushWord w)) ⟨r, store⟩)
      ∧ (r.flags.packed < -29524 ∨ 29524 < r.flags.packed →
        Core.perform (.extended .php) value last ⟨r, store⟩ = .error .rangeFault ⟨r, store⟩))
    ∧ ∀ e : Entries, (∃ text', e.StandIn text') ∧ ∀ text', e.StandIn text' →
      ((∃ r', readRegisters? text' = some r') ↔ e.Admitted) := by
  obtain ⟨stand, -, -, fits⟩ := readRegisters?_eq_some_iff.mp accepted
  refine ⟨?_, ?_, ?_, ?_, ?_⟩
  · intro e
    constructor
    · exact fun other => other.unique stand
    · rintro rfl
      exact stand
  · intro nine
    obtain ⟨w, packed⟩ := nine.toWord?
    exact ⟨⟨w, packed, Flags.ofWord_of_toWord? nine packed⟩,
      (Flags.ofInt?_packed_iff fits).mpr nine⟩
  · intro more
    exact ⟨fun back => more ((Flags.ofInt?_packed_iff fits).mp back), Flags.exists_ofInt? fits⟩
  · intro store value last
    exact ⟨fun w packed => Core.perform_php_eq packed value last, fun outside =>
      Core.perform_php_of_none (Flags.toWord?_eq_none outside) value last⟩
  · intro e
    exact ⟨⟨e.text, e.standIn_text⟩, fun text' stand => stand.accepted_iff⟩

theorem status_of_register_file_shuffled :
    let text := (" \x7b\"flags\": [-9841], \"note\": [null, 1.5], \"stackptr\": 5, "
      ++ "\"yindex\": -121, \"index\": 121, \"accum\": 0, \"p\\u0063\": -7\x7d\n").toList
    ∃ r, readRegisters? text = some r ∧ r.flags.Bounded
      ∧ (∃ w, r.flags.toWord? = some w ∧ Flags.ofWord w = r.flags)
      ∧ Flags.ofInt? r.flags.packed = some r.flags
      ∧ ∃ text', (Entries.mk (-7) 0 121 (-121) 5 (-9842)).StandIn text'
        ∧ ∃ r', readRegisters? text' = some r' := by
  intro text
  let r : Registers := ⟨-7, .zero, ⟨121, by decide, by decide⟩, ⟨-121, by decide, by decide⟩, 5,
    ⟨-9841⟩⟩
  have accepted : readRegisters? text = some r := by decide +kernel
  obtain ⟨-, nine, -, -, all⟩ := status_of_register_file accepted
  have bounded : r.flags.Bounded := ⟨by decide, by decide⟩
  obtain ⟨word, back⟩ := nine bounded
  obtain ⟨⟨text', stand⟩, admitted⟩ := all (Entries.mk (-7) 0 121 (-121) 5 (-9842))
  refine ⟨r, accepted, bounded, word, back, text', stand, (admitted text' stand).mpr ?_⟩
  exact ⟨by decide, by decide, by decide, by decide, by decide, by decide⟩

/-- A status outside ten digits is accepted, where an accumulator outside five is refused. -/
theorem status_without_word_accepted :
    (∃ r, readRegisters? ("\x7b\"pc\":0,\"accum\":0,\"index\":0,\"yindex\":0,\"stackptr\":0,"
        ++ "\"flags\":\x7b\"value\":30000\x7d\x7d").toList = some r
      ∧ ¬ (-9841 ≤ r.flags.packed ∧ r.flags.packed ≤ 9841)
      ∧ r.flags.toWord? = none
      ∧ Flags.ofInt? r.flags.packed ≠ some r.flags)
    ∧ readRegisters? ("\x7b\"pc\":0,\"accum\":122,\"index\":0,\"yindex\":0,\"stackptr\":0,"
      ++ "\"flags\":\x7b\"value\":0\x7d\x7d").toList = none := by
  refine ⟨⟨⟨0, .zero, .zero, .zero, 0, ⟨30000⟩⟩, ?_, ?_, ?_, ?_⟩, ?_⟩
  · decide +kernel
  · decide
  · decide
  · decide
  · decide +kernel

end Exchange

end TernaryMachine
