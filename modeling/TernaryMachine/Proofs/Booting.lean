import TernaryMachine.Proofs.EffectiveAddress
import TernaryMachine.Proofs.Noninterference

/-!
Booting a program. A boot loads the program, makes it the handler of interrupt zero and runs that
handler; without a boot the program is loaded and run from its origin. The two runs differ in the
two cells of the vector only, and so they go the same way whenever the program leaves these cells
alone, wherever its origin is.
-/

set_option autoImplicit false
set_option relaxedAutoImplicit false

namespace TernaryMachine

theorem Store.shape_of_writeArray {ts : List Tryte} {a : Int} {s t : Store}
    (h : writeArray a ts s = .ok () t) : t.maxAddress = s.maxAddress ∧ t.maps = s.maps := by
  induction ts generalizing a s with
  | nil =>
    cases h
    exact ⟨rfl, rfl⟩
  | cons v ts ih =>
    obtain ⟨_, u, written, rest⟩ := Core.bind_eq_ok_iff.mp h
    have first : u.maxAddress = s.maxAddress ∧ u.maps = s.maps := by
      unfold write at written
      split at written
      · cases heard : s.writeListener? a with
        | none =>
          rw [heard] at written
          cases written
          exact ⟨rfl, rfl⟩
        | some name =>
          rw [heard] at written
          cases written
          exact ⟨rfl, rfl⟩
      · cases written
    obtain ⟨size, maps⟩ := ih rest
    exact ⟨size.trans first.1, maps.trans first.2⟩

theorem Flags.set_get (s : Flags) (f : Flag) : s.set f (s.get f) = s := by
  unfold set
  rw [Int.sub_self, Int.zero_mul, Int.add_zero]

namespace Core

def assignWord (c : Core) (a : Int) (w : Word) : Core :=
  (c.assign (.address a) w.low).assign (.address (a + 1)) w.high

section Word

variable {c : Core} {a : Int}

theorem registers_assignWord (w : Word) : (c.assignWord a w).registers = c.registers :=
  (registers_assign_address ..).trans (registers_assign_address ..)

theorem maps_assignWord (w : Word) : (c.assignWord a w).store.maps = c.store.maps :=
  (maps_assign ..).trans (maps_assign ..)

theorem maxAddress_assignWord (w : Word) :
    (c.assignWord a w).store.maxAddress = c.store.maxAddress :=
  (maxAddress_assign ..).trans (maxAddress_assign ..)

theorem get?_assignWord_of_ne {b : Int} (other : b ≠ a) (other' : b ≠ a + 1) (w : Word) :
    (c.assignWord a w).store.get? b = c.store.get? b := by
  have apart {x : Int} (differ : b ≠ x) : Operand.address b ≠ .address x :=
    fun same => differ (Operand.address.inj same)
  exact (valueAt?_assign_of_ne (q := .address b) _ (apart other')).trans
    (valueAt?_assign_of_ne _ (apart other))

variable (low : c.store.Contains a) (high : c.store.Contains (a + 1))
include low high

theorem get?_assignWord (w : Word) : (c.assignWord a w).store.get? a = some w.low
    ∧ (c.assignWord a w).store.get? (a + 1) = some w.high := by
  have high' : (c.assign (.address a) w.low).store.Contains (a + 1) :=
    (contains_assign ..).mpr high
  constructor
  · rw [assignWord, get?_assign high', if_neg (by omega), get?_assign low, if_pos rfl]
  · rw [assignWord, get?_assign high', if_pos rfl]

theorem onStore_writeWord (unmapped : c.store.maps = []) (w : Word) :
    onStore (Store.writeWord a w) c = .ok () (c.assignWord a w) := by
  have unmapped' : (c.assign (.address a) w.low).store.maps = [] :=
    (maps_assign ..).trans unmapped
  unfold Store.writeWord
  rw [onStore_bind]
  refine bind_eq_ok_iff.mpr ⟨(), c.assign (.address a) w.low, ?_, ?_⟩
  · rw [onStore_write_eq unmapped, if_pos low]
  · rw [onStore_write_eq unmapped', if_pos ((contains_assign ..).mpr high)]
    rfl

end Word

end Core

namespace Machine

def IsVectorCell (vector a : Int) : Prop := a = vector ∨ a = vector + 1

instance (vector : Int) : DecidablePred (IsVectorCell vector) :=
  fun _ => inferInstanceAs (Decidable (_ ∨ _))

/-- Registers, counts and stores are the same, but for the two cells of a vector, which hold a word
in the first store. -/
structure SameBesideVector (vector : Int) (w : Word) (m m' : Machine) : Prop where
  registers : m.registers = m'.registers
  cycles : m.cycles = m'.cycles
  size : m.store.maxAddress = m'.store.maxAddress
  cells : ∀ a, ¬ IsVectorCell vector a → m.store.get? a = m'.store.get? a
  low : m.store.get? vector = some w.low
  high : m.store.get? (vector + 1) = some w.high

theorem Agrees.sameBesideVector {vector : Int} {w : Word} {kept : Int → Option Tryte}
    {m m' : Machine} (h : Agrees (IsVectorCell vector) kept m m') (low : kept vector = some w.low)
    (high : kept (vector + 1) = some w.high) : SameBesideVector vector w m' m where
  registers := h.registers.symm
  cycles := h.cycles.symm
  size := h.core.size.symm
  cells a other := (h.core.cells a other).symm
  low := (h.kept vector (.inl rfl)).trans low
  high := (h.kept (vector + 1) (.inr rfl)).trans high

def startAt (m : Machine) (a : Int) : Machine := m.update fun r => { r with pc := a }

/-- The machine with a word in the two cells of the vector of interrupt zero, as it enters the
handler at that word. -/
def booted (m : Machine) (w : Word) : Machine :=
  Machine.entered none w.val { m with core := m.core.assignWord (m.vectorAddress .zero) w }

section Boot

variable {m loaded : Machine} {p : Program}

theorem shape_of_load (loads : m.load p = .ok () loaded) :
    m.store.Contains p.origin ∧ loaded.registers = m.registers
      ∧ loaded.store.maxAddress = m.store.maxAddress ∧ loaded.store.maps = m.store.maps := by
  obtain ⟨⟨registers, store⟩, options, cycles, last?⟩ := m
  unfold load at loads
  cases found : store.peek p.origin with
  | error e =>
    simp only [found] at loads
    cases loads
  | ok t =>
    have inside : store.Contains p.origin := by
      by_contra outside
      rw [Store.peek_of_not_contains outside] at found
      cases found
    simp only [found, onCore, Core.onStore] at loads
    cases written : Store.writeArray p.origin p.code store with
    | error e s =>
      rw [written] at loads
      cases loads
    | ok _ s =>
      rw [written] at loads
      cases loads
      exact ⟨inside, rfl, Store.shape_of_writeArray written⟩

theorem boot_eq {origin : Word} (unmapped : loaded.store.maps = [])
    (low : loaded.store.Contains (loaded.vectorAddress .zero))
    (high : loaded.store.Contains (loaded.vectorAddress .zero + 1))
    (loads : m.load p = .ok () loaded) (address : p.origin = origin.val) (fuel : Nat) :
    m.boot fuel p = (untilHalt fuel (loaded.booted origin)).andThen fun _ n => some (.ok () n) := by
  have written := Core.onStore_writeWord low high unmapped origin
  unfold boot
  rw [loads, address]
  obtain ⟨core, options, cycles, last?⟩ := loaded
  have written : Core.onStore (Store.writeWord (vectorAddress ⟨core, options, cycles, last?⟩ .zero)
    origin) core = _ := written
  simp only [Outcome.andThen, Word.ofInt?_val, onCore, written]
  rfl

theorem agrees_booted (origin : Word) (unmapped : loaded.store.maps = [])
    (forward : loaded.registers.direction = .plus) :
    Agrees (IsVectorCell (loaded.vectorAddress .zero)) (loaded.booted origin).store.get?
      (loaded.startAt origin.val) (loaded.booted origin) where
  core := by
    let word := loaded.core.assignWord (loaded.vectorAddress .zero) origin
    refine ⟨?_, ?_, ?_, unmapped, (Core.maps_assignWord origin).trans unmapped⟩
    · have flags :
          loaded.core.registers.flags.set .direction .plus = loaded.core.registers.flags := by
        rw [← forward]
        exact loaded.core.registers.flags.set_get .direction
      have same : word.registers = loaded.core.registers := Core.registers_assignWord origin
      change { loaded.core.registers with pc := origin.val } = { word.registers with
        pc := origin.val
        flags := word.registers.flags.set .direction .plus }
      rw [same, flags]
    · intro a other
      rw [IsVectorCell, not_or] at other
      exact (Core.get?_assignWord_of_ne (c := loaded.core) other.1 other.2 origin).symm
    · exact (Core.maxAddress_assignWord (c := loaded.core) (a := loaded.vectorAddress .zero)
        origin).symm
  kept _ _ := rfl
  options := rfl
  cycles := rfl
  last := rfl

end Boot

/-- Booting a program and running it from its origin are the same. A program that can be loaded into
a machine without peripherals that runs forward, such as a machine just built, and that has a cell
for each half of the vector of interrupt zero, is run both ways; if the run from the origin touches
neither of these two cells, then both runs halt or both fail with the same error or neither comes
to an end, and they leave the same registers, the same count of instructions and the same store,
but for the vector, which holds the origin after the boot. -/
theorem boot_eq_run_from_origin {m loaded : Machine} {p : Program} (unmapped : m.store.maps = [])
    (forward : m.registers.direction = .plus)
    (low : m.store.Contains (m.vectorAddress .zero))
    (high : m.store.Contains (m.vectorAddress .zero + 1)) (loads : m.load p = .ok () loaded)
    (avoids : (loaded.startAt p.origin).RunAvoids (IsVectorCell (m.vectorAddress .zero))) :
    ∃ origin : Word, origin.val = p.origin ∧ ∀ fuel,
      Outcome.Alike (SameBesideVector (m.vectorAddress .zero) origin) (m.boot fuel p)
        ((loaded.startAt p.origin).run fuel) := by
  obtain ⟨inside, registers, size, maps⟩ := shape_of_load loads
  have unmapped' : loaded.store.maps = [] := maps.trans unmapped
  have forward' : loaded.registers.direction = .plus := by rw [registers, forward]
  have place : m.vectorAddress .zero = loaded.vectorAddress .zero := by
    have size : loaded.core.store.maxAddress = m.core.store.maxAddress := size
    rw [vectorAddress, vectorAddress, Store.minAddress, Store.minAddress, size]
  have contains (a : Int) : m.store.Contains a ↔ loaded.store.Contains a := by
    unfold Store.Contains
    rw [size]
  have bounds := Store.bounds_of_contains inside
  obtain ⟨origin, address⟩ : ∃ origin : Word, origin.val = p.origin :=
    ⟨⟨p.origin, bounds.1, bounds.2⟩, rfl⟩
  rw [place, contains] at low high
  rw [place] at avoids ⊢
  refine ⟨origin, address, fun fuel => ?_⟩
  have agrees := agrees_booted origin unmapped' forward'
  rw [address] at agrees
  have runs : Outcome.Alike _ ((loaded.startAt p.origin).run fuel)
      ((untilHalt fuel (loaded.booted origin)).andThen fun _ n => some (.ok () n)) :=
    (alike_untilHalt fuel agrees avoids).andThen fun _ _ _ _ _ after => .ok after
  obtain ⟨holdsLow, holdsHigh⟩ := Core.get?_assignWord low high origin
  rw [boot_eq unmapped' low high loads address.symm]
  exact (runs.imp fun _ _ after => after.sameBesideVector holdsLow holdsHigh).symm

theorem boot_eq_run_from_zero :
    let empty : Store := ⟨13, Array.replicate 27 Tryte.zero, by decide, by decide, [], []⟩
    let m := powerOn {} empty
    let p : Program := ⟨0, [(Instruction.alu .lda .immediate).encode, Tryte.ofDigits 8 0,
      (Instruction.alu .sta .absolute).encode, Tryte.ofDigits (-9) 0, Tryte.ofDigits (-9) 5,
      (Instruction.extended .cli).encode, (Instruction.extended .intP).encode,
      (Instruction.extended .haltP).encode, (Instruction.extended .inx).encode,
      (Instruction.extended .haltZ).encode]⟩
    ∃ k n k', m.boot 8 p = some (.ok () k)
      ∧ ((m.load p).machine.startAt 0).run 8 = some (.ok n k')
      ∧ k.registers.pc = 7 ∧ k.cycles = 7 ∧ k'.registers = k.registers ∧ k'.cycles = k.cycles
      ∧ k.store.get? (-9) = some (Tryte.ofDigits 8 0)
      ∧ k.store.get? (-11) = some .zero ∧ k.store.get? (-10) = some .zero := by
  intro empty m p
  have start : (m.store.maps = [] ∧ m.registers.direction = .plus) ∧ m.vectorAddress .zero = -11
      ∧ m.store.Contains (-11) ∧ m.store.Contains (-10) ∧ (m.load p).value? = some () := by
    decide +kernel
  have clear : runIsClear (IsVectorCell (-11)) 8 ((m.load p).machine.startAt 0) = true := by
    decide +kernel
  have shown : (m.boot 8 p).map (fun r => (r.value?, r.machine.registers.pc, r.machine.cycles,
      r.machine.store.get? (-9))) = some (some (), 7, 7, some (Tryte.ofDigits 8 0)) := by
    decide +kernel
  have origin : p.origin = 0 := rfl
  clear_value m p
  obtain ⟨⟨unmapped, forward⟩, place, low, high, loads⟩ := start
  obtain ⟨w, address, runs⟩ := boot_eq_run_from_origin unmapped forward
    (by rw [place]; exact low) (by rw [place]; exact high) (Result.eq_ok loads)
    (by rw [place, origin]; exact runAvoids_of_runIsClear clear)
  rw [place, origin] at runs
  obtain rfl : w = .zero := Word.ext (address.trans origin)
  obtain ⟨r, result, facts⟩ := Option.map_eq_some_iff.mp shown
  simp only [Prod.mk.injEq] at facts
  obtain ⟨value, pc, cycles, cell⟩ := facts
  rw [Result.eq_ok value] at result
  have both := runs 8
  rw [result] at both
  generalize run 8 _ = r' at both ⊢
  cases both with
  | @ok _ n _ k' same =>
    exact ⟨r.machine, n, k', result, rfl, pc, cycles, same.registers.symm, same.cycles.symm,
      cell, same.low, same.high⟩

end Machine

end TernaryMachine
