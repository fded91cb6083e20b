import Mathlib.Tactic.SplitIfs
import TernaryMachine.Machine

/-!
Loading. A program is written into successive cells from its origin on, as far as the store goes.
In a store without peripherals it is laid over the cells there and changes nothing else; a program
that reaches beyond the last cell fails there, and what was written before stays.
-/

set_option autoImplicit false
set_option relaxedAutoImplicit false

namespace TernaryMachine

namespace Store

variable {s t u : Store} {a : Int} {ts : List Tryte}

/-- A store that was laid over another: it holds trytes in successive cells from an address on and
is the same elsewhere. -/
structure Overlaid (s : Store) (a : Int) (ts : List Tryte) (t : Store) : Prop where
  maxAddress : t.maxAddress = s.maxAddress
  maps : t.maps = s.maps
  calls : t.calls = s.calls
  placed : ∀ i < ts.length, t.get? (a + i) = ts[i]?
  kept : ∀ b, b < a ∨ a + ts.length ≤ b → t.get? b = s.get? b

namespace Overlaid

theorem nil (s : Store) (a : Int) : Overlaid s a [] s :=
  ⟨rfl, rfl, rfl, fun _ inside => absurd inside (Nat.not_lt_zero _), fun _ _ => rfl⟩

theorem cons (inside : s.Contains a) (v : Tryte) (h : Overlaid (s.put a inside v) (a + 1) ts t) :
    Overlaid s a (v :: ts) t where
  maxAddress := h.maxAddress
  maps := h.maps
  calls := h.calls
  placed i below := by
    cases i with
    | zero =>
      rw [h.kept _ (by omega), get?_put, if_pos (by omega)]
      rfl
    | succ i =>
      rw [List.getElem?_cons_succ, ← h.placed i (by simpa using below)]
      congr 1
      omega
  kept b beside := by
    rw [List.length_cons] at beside
    rw [h.kept b (by omega), get?_put, if_neg (by omega)]

end Overlaid

def room (s : Store) (a : Int) : Nat := (s.maxAddress + 1 - a).toNat

theorem write_of_unmapped (unmapped : s.maps = []) (inside : s.Contains a) (v : Tryte) :
    write a v s = .ok () (s.put a inside v) := by
  simp [write, inside, writeListener?_of_unmapped unmapped a]

theorem writeArray_eq (unmapped : s.maps = []) (lower : -(s.maxAddress : Int) ≤ a)
    (upper : a ≤ s.maxAddress + 1) (ts : List Tryte) :
    ∃ t, Overlaid s a (ts.take (s.room a)) t ∧ writeArray a ts s
      = if ts.length ≤ s.room a then .ok () t else .error (s.outside (s.maxAddress + 1)) t := by
  induction ts generalizing a s with
  | nil => exact ⟨s, by simpa using Overlaid.nil s a, by simp [writeArray]; rfl⟩
  | cons v ts ih =>
    by_cases full : a = s.maxAddress + 1
    · have none : s.room a = 0 := by rw [room]; omega
      have outside : ¬ s.Contains a := by rw [Contains]; omega
      refine ⟨s, by simpa [none] using Overlaid.nil s a, ?_⟩
      subst full
      have failed : write (s.maxAddress + 1) v s = .error (s.outside (s.maxAddress + 1)) s := by
        simp [write, outside]
      rw [writeArray]
      change EStateM.bind _ _ s = _
      rw [EStateM.bind, failed, none, if_neg (by simp)]
    · have inside : s.Contains a := by rw [Contains]; omega
      have further : s.room a = s.room (a + 1) + 1 := by rw [room, room]; omega
      obtain ⟨t, overlaid, written⟩ := ih (s := s.put a inside v) (a := a + 1) unmapped
        (by simp only [put]; omega) (by simp only [put]; omega)
      refine ⟨t, ?_, ?_⟩
      · rw [further, List.take_succ_cons]
        exact overlaid.cons inside v
      · rw [writeArray]
        change EStateM.bind _ _ s = _
        rw [EStateM.bind, write_of_unmapped unmapped inside]
        change writeArray (a + 1) ts (s.put a inside v) = _
        rw [written, List.length_cons, further]
        simp only [Nat.add_le_add_iff_right]
        rfl

end Store

namespace Machine

def withStore (m : Machine) (t : Store) : Machine := { m with core.store := t }

section Load

variable {m : Machine} {p : Program}

theorem fits_iff_le_room (inside : m.store.Contains p.origin) :
    (p.code = [] ∨ p.origin + p.code.length - 1 ≤ m.store.maxAddress)
      ↔ p.code.length ≤ m.store.room p.origin := by
  have lower := inside.1
  have upper := inside.2
  rw [← List.length_eq_zero_iff, Store.room]
  omega

theorem load_of_not_contains (outside : ¬ m.store.Contains p.origin) :
    m.load p = .error (.memory (m.store.outside p.origin)) m := by
  have peeked : m.core.store.peek p.origin = _ := Store.peek_of_not_contains outside
  rw [load, peeked]
  rfl

theorem load_of_contains (unmapped : m.store.maps = []) (inside : m.store.Contains p.origin) :
    ∃ t, m.store.Overlaid p.origin (p.code.take (m.store.room p.origin)) t ∧ m.load p
      = if p.code.length ≤ m.store.room p.origin then .ok () (m.withStore t)
        else .error (.memory (m.store.outside (m.store.maxAddress + 1))) (m.withStore t) := by
  have upper := inside.2
  obtain ⟨t, overlaid, written⟩ := Store.writeArray_eq unmapped inside.1 (by omega) p.code
  have peeked : m.core.store.peek p.origin = _ := Store.peek_of_contains inside
  refine ⟨t, overlaid, ?_⟩
  obtain ⟨⟨registers, store⟩, options, cycles, last?⟩ := m
  rw [load, peeked]
  simp only [onCore, Core.onStore]
  rw [show Store.writeArray p.origin p.code store = _ from written]
  split_ifs <;> rfl

end Load

/-- A program is laid over the store of a machine without peripherals. It can be loaded exactly if
its origin is in the store and it does not reach beyond the last cell; nothing but its cells changes
then. A program that begins outside the store changes nothing. One that reaches beyond it fails at
the address behind the last cell, and the cells from its origin on hold its first trytes. -/
theorem load_overlays {m : Machine} (unmapped : m.store.maps = []) (p : Program) :
    ((∃ loaded, m.load p = .ok () loaded) ↔ m.store.Contains p.origin
      ∧ (p.code = [] ∨ p.origin + p.code.length - 1 ≤ m.store.maxAddress))
    ∧ (∀ loaded, m.load p = .ok () loaded →
      ∃ t, loaded = m.withStore t ∧ m.store.Overlaid p.origin p.code t)
    ∧ (¬ m.store.Contains p.origin → m.load p = .error (.memory (.addressOutOfRange p.origin
      (-m.store.maxAddress) m.store.maxAddress)) m)
    ∧ (m.store.Contains p.origin →
      ¬ (p.code = [] ∨ p.origin + p.code.length - 1 ≤ m.store.maxAddress) →
      ∃ t first rest, p.code = first ++ rest ∧ p.origin + first.length = m.store.maxAddress + 1
        ∧ m.load p = .error (.memory (.addressOutOfRange (m.store.maxAddress + 1)
          (-m.store.maxAddress) m.store.maxAddress)) (m.withStore t)
        ∧ m.store.Overlaid p.origin first t) := by
  by_cases inside : m.store.Contains p.origin
  · obtain ⟨t, overlaid, loads⟩ := load_of_contains unmapped inside
    by_cases fits : p.code.length ≤ m.store.room p.origin
    · rw [if_pos fits] at loads
      rw [List.take_of_length_le fits] at overlaid
      have fits := (fits_iff_le_room inside).mpr fits
      refine ⟨iff_of_true ⟨_, loads⟩ ⟨inside, fits⟩, fun loaded done => ⟨t, ?_, overlaid⟩,
        absurd inside, fun _ other => absurd fits other⟩
      rw [loads] at done
      cases done
      rfl
    · rw [if_neg fits] at loads
      have failed (loaded : Machine) : m.load p ≠ .ok () loaded := by simp [loads]
      refine ⟨iff_of_false (fun ⟨loaded, done⟩ => failed loaded done) fun ⟨_, known⟩ =>
        fits ((fits_iff_le_room inside).mp known), fun loaded done => absurd done (failed loaded),
        absurd inside, fun _ _ => ?_⟩
      refine ⟨t, _, _, (List.take_append_drop (m.store.room p.origin) p.code).symm, ?_, loads,
        overlaid⟩
      have upper := inside.2
      rw [List.length_take_of_le (by omega), Store.room]
      omega
  · have loads := load_of_not_contains inside
    have failed (loaded : Machine) : m.load p ≠ .ok () loaded := by simp [loads]
    exact ⟨iff_of_false (fun ⟨loaded, done⟩ => failed loaded done) fun ⟨known, _⟩ => inside known,
      fun loaded done => absurd done (failed loaded), fun _ => loads,
      fun known => absurd known inside⟩

theorem load_overlays_of_small_store :
    ∃ store, Store.create 5 = .ok store ∧ store.maps = [] ∧
      let m := powerOn {} store
      let code := [1, 2, 3, 4].map fun n => Tryte.ofDigits n 0
      (∃ loaded, m.load ⟨0, code.take 3⟩ = .ok () loaded)
        ∧ ∃ t first rest, code = first ++ rest ∧ 0 + first.length = (2 : Int) + 1
          ∧ m.load ⟨0, code⟩ = .error (.memory (.addressOutOfRange 3 (-2) 2)) (m.withStore t)
          ∧ store.Overlaid 0 first t := by
  obtain ⟨store, created, unmapped, last⟩ : ∃ store, Store.create 5 = .ok store
      ∧ store.maps = [] ∧ store.maxAddress = 2 := ⟨_, rfl, rfl, rfl⟩
  have inside : store.Contains 0 := ⟨by omega, by omega⟩
  refine ⟨store, created, unmapped, ?_, ?_⟩
  · refine (load_overlays (m := powerOn {} store) unmapped ⟨0, _⟩).1.mpr ⟨inside, .inr ?_⟩
    change (0 : Int) + 3 - 1 ≤ store.maxAddress
    omega
  · have cut := (load_overlays (m := powerOn {} store) unmapped
      ⟨0, [1, 2, 3, 4].map fun n => Tryte.ofDigits n 0⟩).2.2.2 inside
      (by simp [powerOn, Machine.store, last])
    simpa [powerOn, Machine.store, last] using cut

end Machine

end TernaryMachine
