import TernaryMachine.Proofs.Expansion
import TernaryMachine.Proofs.StackContents

/-!
The packed status register as nine separate digits. A register is built from nothing, from the
power-on state or from a word, and is changed by setting a flag, by recording a result and by
loading a word. Beside it stands a record with one digit for each flag. After every history of such
changes the register holds the digits of the record, is their weighted sum and is determined by
them.
-/

set_option autoImplicit false
set_option relaxedAutoImplicit false

namespace TernaryMachine

namespace Flags

/-- One digit for each flag, kept apart from the others. -/
abbrev Record := Flag → Trit

namespace Record

def clear : Record := fun _ => .zero

def reset : Record
  | .direction => .plus
  | .mask => .minus
  | _ => .zero

def set (r : Record) (f : Flag) (t : Trit) : Record := fun g => if g = f then t else r g

def recordResult (r : Record) (v : Tryte) : Record
  | .sign => Trit.ofSign v.val
  | .lowest => Digits.low v.val
  | f => r f

/-- The nine lower digits of a word; the tenth is dropped. -/
def ofWord (w : Word) : Record := fun f => Digits.trit w.val f.index

end Record

inductive Origin where
  | clear
  | reset
  | word (w : Word)

def Origin.flags : Origin → Flags
  | .clear => Flags.clear
  | .reset => Flags.reset
  | .word w => ofWord w

def Origin.record : Origin → Record
  | .clear => Record.clear
  | .reset => Record.reset
  | .word w => Record.ofWord w

inductive Update where
  | set (f : Flag) (t : Trit)
  | result (v : Tryte)
  | load (w : Word)

def Update.onFlags (s : Flags) : Update → Flags
  | .set f t => s.set f t
  | .result v => s.recordResult v
  | .load w => ofWord w

def Update.onRecord (r : Record) : Update → Record
  | .set f t => r.set f t
  | .result v => r.recordResult v
  | .load w => Record.ofWord w

def after (origin : Origin) (updates : List Update) : Flags :=
  updates.foldl Update.onFlags origin.flags

def recordAfter (origin : Origin) (updates : List Update) : Record :=
  updates.foldl Update.onRecord origin.record

structure Packs (s : Flags) (r : Record) : Prop where
  bounded : s.Bounded
  get : ∀ f, s.get f = r f

theorem packs_ofWord (w : Word) : Packs (ofWord w) (Record.ofWord w) :=
  ⟨bounded_ofWord w, get_ofWord w⟩

theorem packs_origin (origin : Origin) : Packs origin.flags origin.record := by
  cases origin with
  | clear =>
    have bounded : -9841 ≤ Flags.clear.packed ∧ Flags.clear.packed ≤ 9841 := by decide
    exact ⟨bounded, fun f => by cases f <;> rfl⟩
  | reset => exact ⟨bounded_reset, fun f => by cases f <;> decide⟩
  | word w => exact packs_ofWord w

theorem Packs.set {s : Flags} {r : Record} (h : Packs s r) (f : Flag) (t : Trit) :
    Packs (s.set f t) (r.set f t) := by
  refine ⟨h.bounded.set f t, ?_⟩
  intro g
  rw [get_set, h.get g]
  rfl

theorem Packs.recordResult {s : Flags} {r : Record} (h : Packs s r) (v : Tryte) :
    Packs (s.recordResult v) (r.recordResult v) := by
  have both := (h.set .sign v.sign).set .lowest v.lowest
  refine ⟨both.bounded, ?_⟩
  intro f
  rw [show r.recordResult v f = (r.set .sign v.sign).set .lowest v.lowest f by cases f <;> rfl]
  exact both.get f

theorem Packs.update {s : Flags} {r : Record} (h : Packs s r) (u : Update) :
    Packs (u.onFlags s) (u.onRecord r) := by
  cases u with
  | set f t => exact h.set f t
  | result v => exact h.recordResult v
  | load w => exact packs_ofWord w

theorem packs_after (origin : Origin) (updates : List Update) :
    Packs (after origin updates) (recordAfter origin updates) := by
  have run {s : Flags} {r : Record} (h : Packs s r) :
      Packs (updates.foldl Update.onFlags s) (updates.foldl Update.onRecord r) := by
    induction updates generalizing s r with
    | nil => exact h
    | cons u updates ih => exact ih (h.update u)
  exact run (packs_origin origin)

theorem packed_eq_sum {s : Flags} (h : s.Bounded) :
    s.packed = (Flag.all.map fun f => (s.get f).toInt * 3 ^ (f.offset + 4).toNat).sum := by
  have whole := h.value_take
  rw [Digits.value_take] at whole
  have places : Flag.all.map Flag.index = List.range 9 := rfl
  have place (f : Flag) : (f.offset + 4).toNat = f.index := by cases f <;> rfl
  calc
    s.packed = ∑ i ∈ Finset.range 9, (Digits.trit s.packed i).toInt * 3 ^ i := whole.symm
    _ = ((List.range 9).map fun i => (Digits.trit s.packed i).toInt * 3 ^ i).sum := rfl
    _ = (Flag.all.map fun f => (s.get f).toInt * 3 ^ (f.offset + 4).toNat).sum := by
      simp only [← places, List.map_map, Function.comp_def, place, get]

theorem Packs.packed_eq {s : Flags} {r : Record} (h : Packs s r) :
    s.packed = (Flag.all.map fun f => (r f).toInt * 3 ^ (f.offset + 4).toNat).sum := by
  rw [packed_eq_sum h.bounded, show s.get = r from funext h.get]

theorem eq_of_get_eq {s s' : Flags} (h : s.Bounded) (h' : s'.Bounded)
    (same : ∀ f, s.get f = s'.get f) : s = s' := by
  have packed : s.packed = s'.packed := by
    rw [packed_eq_sum h, packed_eq_sum h', show s.get = s'.get from funext same]
  cases s
  cases s'
  exact congrArg Flags.mk packed

theorem ofInt?_val (w : Word) : ofInt? w.val = some (ofWord w) := by
  have lower : Signed32.minValue < w.val := Int.lt_of_lt_of_le (by decide) w.lower
  have upper : w.val ≤ Signed32.maxValue := Int.le_trans w.upper (by decide)
  exact ofInt?_of_inside lower upper

/-- After every history the register holds the digits that nine separate digits would hold, is their
sum weighted by place, has nine digits, comes back from its word, and is the only one with its
digits. Loading a word stays inside 32 bits. -/
theorem register_of_nine_digits (origin : Origin) (updates : List Update) :
    (∀ f, (after origin updates).get f = recordAfter origin updates f)
    ∧ (after origin updates).packed = (Flag.all.map fun f =>
        (recordAfter origin updates f).toInt * 3 ^ (f.offset + 4).toNat).sum
    ∧ -9841 ≤ (after origin updates).packed ∧ (after origin updates).packed ≤ 9841
    ∧ (∃ w, (after origin updates).toWord? = some w ∧ ofWord w = after origin updates)
    ∧ (∀ w, ofInt? w.val = some (ofWord w))
    ∧ ∀ origin' updates', (∀ f, (after origin updates).get f = (after origin' updates').get f)
      ↔ after origin updates = after origin' updates' := by
  have packs := packs_after origin updates
  obtain ⟨w, word⟩ := packs.bounded.toWord?
  refine ⟨packs.get, packs.packed_eq, packs.bounded.1, packs.bounded.2,
    ⟨w, word, ofWord_of_toWord? packs.bounded word⟩, ofInt?_val, ?_⟩
  intro origin' updates'
  constructor
  · exact eq_of_get_eq packs.bounded (packs_after origin' updates').bounded
  · intro same f
    rw [same]

end Flags

end TernaryMachine
