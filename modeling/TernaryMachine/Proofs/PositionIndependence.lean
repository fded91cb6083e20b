import TernaryMachine.Proofs.ContinuousRun
import TernaryMachine.Proofs.Displacement

/-!
Code that runs anywhere. A block of which only relative instructions are performed does the same at
whatever address it stands, with loops of any length: after each step the registers are the same and
the program counter is displaced by the distance of the blocks, as are the addresses in errors.
-/

set_option autoImplicit false
set_option relaxedAutoImplicit false

namespace TernaryMachine

namespace Machine

/-- Two machines with the same registers, but for a program counter that is `distance` cells further
up in the second one, which has performed `lead` more instructions. -/
structure Displaced (distance lead : Int) (m m' : Machine) : Prop where
  registers : m'.registers = m.registers.displaced distance
  cycles : (m'.cycles : Int) = m.cycles + lead

inductive Outcome.Displaced (distance : Int) (P : Machine → Machine → Prop) {α : Type} :
    Outcome α → Outcome α → Prop
  | ok {a : α} {m m' : Machine} (h : P m m') :
    Displaced distance P (some (.ok a m)) (some (.ok a m'))
  | error {e : MachineError} {m m' : Machine} (h : P m m') :
    Displaced distance P (some (.error e m)) (some (.error (e.displaced distance) m'))

theorem Outcome.Displaced.andThen {distance : Int} {P : Machine → Machine → Prop} {α β : Type}
    {x y : Outcome α} {f g : α → Machine → Outcome β} (h : Outcome.Displaced distance P x y)
    (next : ∀ a m m', x = some (.ok a m) → P m m' → Outcome.Displaced distance P (f a m) (g a m')) :
    Outcome.Displaced distance P (x.andThen f) (y.andThen g) := by
  cases h with
  | ok h => exact next _ _ _ rfl h
  | error h => exact .error h

theorem Outcome.Displaced.imp {distance : Int} {P Q : Machine → Machine → Prop} {α : Type}
    {x y : Outcome α} (h : Outcome.Displaced distance P x y) (weaker : ∀ m m', P m m' → Q m m') :
    Outcome.Displaced distance Q x y := by
  cases h with
  | ok h => exact .ok (weaker _ _ h)
  | error h => exact .error (weaker _ _ h)

/-- Two machines without peripherals that hold one block of trytes at two addresses and are at the
same place in it, with the same registers apart from that. They run forward or have halted. -/
structure Copies (block : List Tryte) (base base' lead : Int) (m m' : Machine) : Prop
    extends Displaced (base' - base) lead m m' where
  unmapped : m.store.maps = []
  unmapped' : m'.store.maps = []
  size : m.store.maxAddress = m'.store.maxAddress
  traps : m.options.dnopTraps = m'.options.dnopTraps
  held : m.store.HoldsAlong base .plus block
  held' : m'.store.HoldsAlong base' .plus block
  onward : m.registers.direction ≠ .minus

/-- The next step fetches cells of a block only, and if it finds an instruction, this is a relative
one. -/
def StaysIn (base : Int) (length : Nat) (m : Machine) : Prop :=
  (∀ a ∈ m.core.fetches, base ≤ a ∧ a < base + length)
    ∧ ∀ i ∈ m.core.instruction?, i.isRelative = true

instance (base : Int) (length : Nat) : DecidablePred (StaysIn base length) :=
  fun _ => inferInstanceAs (Decidable (_ ∧ _))

section Copies

variable {block : List Tryte} {base base' lead : Int} {m m' : Machine}

namespace Copies

variable (h : Copies block base base' lead m m')
include h

theorem pc : m'.core.registers.pc = m.core.registers.pc + (base' - base) :=
  congrArg Registers.pc h.registers

theorem flags : m'.core.registers.flags = m.core.registers.flags := by
  have displaced : m'.core.registers = m.core.registers.displaced (base' - base) := h.registers
  rw [displaced]
  rfl

theorem direction : m'.core.registers.direction = m.core.registers.direction :=
  congrArg (fun s : Flags => s.get .direction) h.flags

theorem isHalted : m'.isHalted = m.isHalted := congrArg Flags.isHalted h.flags

theorem forward (running : m.isHalted = false) : m.registers.direction = .plus := by
  have moves : m.registers.direction ≠ .zero := isHalted_eq_false_iff.mp running
  have onward : m.registers.direction ≠ .minus := h.onward
  cases direction : m.registers.direction with
  | minus => exact absurd direction onward
  | zero => exact absurd direction moves
  | plus => rfl

theorem cell {a : Int} (inside : base ≤ a ∧ a < base + block.length) :
    m'.store.get? (a + (base' - base)) = m.store.get? a ∧ m.store.Contains a := by
  have near : (a - base).toNat < block.length := by omega
  have here : base + ((a - base).toNat : Int) * Trit.plus.toInt = a := by
    rw [Trit.toInt, Int.mul_one]
    omega
  have there : base' + ((a - base).toNat : Int) * Trit.plus.toInt = a + (base' - base) := by
    rw [Trit.toInt, Int.mul_one]
    omega
  have first := h.held _ near
  have second := h.held' _ near
  have contains := h.held.contains near
  rw [here] at first contains
  rw [there] at second
  exact ⟨second.trans first.symm, contains⟩

theorem withCore {c c' : Core} (apart : Core.Apart (base' - base) c c')
    (cells : ∀ a, c.store.get? a = m.store.get? a)
    (cells' : ∀ a, c'.store.get? a = m'.store.get? a) (onward : c.registers.direction ≠ .minus) :
    Copies block base base' lead { m with core := c } { m' with core := c' } where
  registers := apart.registers
  cycles := h.cycles
  unmapped := apart.unmapped
  unmapped' := apart.unmapped'
  size := apart.size
  traps := h.traps
  held := h.held.of_same fun _ _ => cells _
  held' := h.held'.of_same fun _ _ => cells' _
  onward := onward

theorem apart : Core.Apart (base' - base) m.core m'.core where
  registers := h.registers
  cells _ visible := absurd trivial visible
  size := h.size
  unmapped := h.unmapped
  unmapped' := h.unmapped'

theorem complete (i : Instruction) {next next' : Registers → Option Int} {target : Int}
    (found : next m.registers = some target)
    (found' : next' m'.registers = some (target + (base' - base))) :
    Outcome.Displaced (base' - base) (Copies block base base' lead) (some (m.complete i next))
      (some (m'.complete i next')) := by
  rw [complete_of_eq_some found, complete_of_eq_some found']
  refine .ok ⟨⟨?_, ?_⟩, h.unmapped, h.unmapped', h.size, h.traps, h.held, h.held', h.onward⟩
  · have registers : m'.core.registers = m.core.registers.displaced (base' - base) := h.registers
    change { m'.core.registers with pc := target + (base' - base) } = _
    rw [registers]
    rfl
  · have cycles := h.cycles
    simp only [Int.natCast_add]
    omega

theorem resume {fuel : Nat} (i : Instruction) {last : Int} (near : -60000 ≤ last ∧ last ≤ 60000)
    (near' : -60000 ≤ last + (base' - base) ∧ last + (base' - base) ≤ 60000) {flow : Flow}
    (plain : ∀ number, flow ≠ .interrupt number) :
    Outcome.Displaced (base' - base) (Copies block base base' lead)
      (Machine.resume fuel i last flow m)
      (Machine.resume fuel i (last + (base' - base)) (flow.displaced (base' - base)) m') := by
  have next : Outcome.Displaced (base' - base) (Copies block base base' lead)
      (some (m.complete i (following? last)))
      (some (m'.complete i (following? (last + (base' - base))))) := by
    apply h.complete i (following?_of_near near m.registers)
    have direction : m'.registers.direction = m.registers.direction := h.direction
    rw [following?_of_near near', direction]
    exact congrArg some (by omega)
  cases flow with
  | next => exact next
  | jump target => exact h.complete i rfl rfl
  | debugNop =>
    change Outcome.Displaced _ _ (if _ then _ else _) (if _ then _ else _)
    rw [← h.traps, h.pc]
    split
    · exact .error h
    · exact next
  | interrupt number => exact absurd rfl (plain number)

theorem fetched (running : m.isHalted = false) (stays : m.StaysIn base block.length) (fuel : Nat) :
    Outcome.Displaced (base' - base) (Copies block base base' lead) (m.step fuel) (m'.step fuel)
      ∨ ∃ i value last, i.isRelative = true ∧ Fetched m i value last
        ∧ Fetched m' i value (last + (base' - base)) := by
  obtain ⟨inside, relative⟩ := stays
  have running' : m'.isHalted = false := h.isHalted.trans running
  obtain ⟨same, contains⟩ := h.cell (inside _ (Core.pc_mem_fetches m.core))
  rw [← h.pc] at same
  cases cell : m.store.get? m.core.registers.pc with
  | none => exact absurd contains (Store.get?_eq_none_iff.mp cell)
  | some t =>
    have cell' : m'.store.get? m'.core.registers.pc = some t := same.trans cell
    cases decoded : Instruction.decode t with
    | error cause =>
      have first := Core.fetch_of_undecodable h.unmapped cell decoded
      have second := Core.fetch_of_undecodable h.unmapped' cell' decoded
      rw [step_of_fetch_error running first, step_of_fetch_error running' second, h.pc]
      exact .inl (.error h)
    | ok i =>
      have present {c : Core} (opcode : c.store.get? c.registers.pc = some t) :
          c.instruction? = some i := by
        rw [Core.instruction?, opcode, Option.bind_some, decoded]
        rfl
      have first := present (c := m.core) cell
      have second := present (c := m'.core) cell'
      have ahead (k : Nat) (near : k ≤ i.operandSize) :
          m'.core.cellAhead? k = m.core.cellAhead? k := by
        have there := (h.cell (inside _ (Core.ahead_mem_fetches first near))).1
        rw [Core.cellAhead?, h.pc, h.direction, Int.add_right_comm]
        exact there
      obtain ⟨value, literal⟩ :=
        Core.exists_literal first fun a fetched => (h.cell (inside a fetched)).2
      have literal' : m'.core.literal? i = some value := (Core.literal?_congr ahead).trans literal
      have found := Core.fetch_of_present h.unmapped first literal
      have found' := Core.fetch_of_present h.unmapped' second literal'
      rw [h.pc, h.direction, Int.add_right_comm] at found'
      exact .inr ⟨i, value, _, relative i first, fetched_of_fetch h.unmapped running found,
        fetched_of_fetch h.unmapped' running' found'⟩

theorem performed {i : Instruction} {value last : Int} (relative : i.isRelative = true)
    (first : Fetched m i value last) (second : Fetched m' i value (last + (base' - base)))
    (fuel : Nat) :
    Outcome.Displaced (base' - base) (Copies block base base' lead) (m.step fuel)
      (m'.step fuel) := by
  obtain ⟨-, pulled, pushed, plain⟩ := Instruction.stackless_of_relative relative
  have met := Core.meets_perform h.unmapped first.literal first.ends
  have met' := Core.meets_perform h.unmapped' second.literal second.ends
  have both := Core.displaced_perform h.apart (h.forward first.running)
    (Core.pc_of_instruction? first.present) (Core.pc_of_instruction? second.present) relative
    first.literal first.ends
  generalize done : Core.perform i value last m.core = r at met both
  generalize done' : Core.perform i value (last + (base' - base)) m'.core = r' at met' both
  cases both with
  | @error e c c' =>
    obtain rfl : c = m.core := Core.Residue.eq_of_stackless met pulled (by omega)
    obtain rfl : c' = m'.core := Core.Residue.eq_of_stackless met' pulled (by omega)
    rw [step_of_perform_error first.running first.fetch done,
      step_of_perform_error second.running second.fetch done']
    exact .error h
  | @ok flow c c' apart =>
    have performed : Core.Performed i m.core flow c := met
    have performed' : Core.Performed i m'.core (flow.displaced (base' - base)) c' := met'
    have after := h.withCore apart
      (fun a => performed.confined.frame _ (Instruction.not_mem_targets_of_relative relative _ a))
      (fun a => performed'.confined.frame _ (Instruction.not_mem_targets_of_relative relative _ a))
      (performed.direction_ne_minus relative h.onward)
    rw [step_eq_resume first.running first.fetch done,
      step_eq_resume second.running second.fetch done']
    refine after.resume i first.near second.near ?_
    intro number requested
    rw [(performed.interrupt number requested).2] at plain
    cases plain

/-- The step lemma: from copies a step that stays in the block leads to copies. -/
theorem step (stays : m.isHalted = false → m.StaysIn base block.length) (fuel : Nat) :
    Outcome.Displaced (base' - base) (Copies block base base' lead) (m.step fuel)
      (m'.step fuel) := by
  cases running : m.isHalted with
  | true =>
    have halted' : m'.isHalted = true := h.isHalted.trans running
    have state : m'.state = m.state := congrArg RunState.ofDirection h.direction
    rw [step_of_halted running, step_of_halted halted', state]
    exact .error h
  | false =>
    rcases h.fetched running (stays running) fuel with failed | ⟨i, value, last, fetched⟩
    · exact failed
    · exact h.performed fetched.1 fetched.2.1 fetched.2.2 fuel

end Copies

def StaysFor (fuel n : Nat) (base : Int) (length : Nat) (m : Machine) : Prop :=
  ∀ j < n, ∀ k, stepMany fuel j m = some (.ok () k) → k.isHalted = false → k.StaysIn base length

def staysAfter (base : Int) (length : Nat) : Result Unit → Bool
  | .ok _ k => k.isHalted || decide (k.StaysIn base length)
  | .error _ _ => true

theorem staysFor_iff {fuel n length : Nat} :
    m.StaysFor fuel n base length
      ↔ ∀ j < n, (stepMany fuel j m).all (staysAfter base length) = true := by
  constructor
  · intro stays j below
    cases reached : stepMany fuel j m with
    | none => rfl
    | some r =>
      cases r with
      | error e k => rfl
      | ok _ k =>
        change (k.isHalted || decide (k.StaysIn base length)) = true
        cases running : k.isHalted with
        | true => rfl
        | false => exact decide_eq_true (stays j below k reached running)
  · intro stays j below k reached running
    have after := stays j below
    rw [reached] at after
    change (k.isHalted || decide (k.StaysIn base length)) = true at after
    rw [running, Bool.false_or] at after
    exact of_decide_eq_true after

instance (fuel n : Nat) (base : Int) (length : Nat) : DecidablePred (StaysFor fuel n base length) :=
  fun _ => decidable_of_iff _ staysFor_iff.symm

theorem StaysFor.first {fuel n length : Nat} (h : m.StaysFor fuel (n + 1) base length)
    (running : m.isHalted = false) : m.StaysIn base length :=
  h 0 (Nat.succ_pos n) m rfl running

theorem StaysFor.next {fuel n length : Nat} {i : Instruction} {k : Machine}
    (h : m.StaysFor fuel (n + 1) base length) (stepped : m.step fuel = some (.ok i k)) :
    k.StaysFor fuel n base length := by
  intro j below l reached
  refine h (j + 1) (Nat.succ_lt_succ below) l ?_
  rw [stepMany_succ stepped]
  exact reached

/-- The run lemma for a number of steps, by induction on that number. -/
theorem Copies.stepMany {fuel n : Nat} (h : Copies block base base' lead m m')
    (stays : m.StaysFor fuel n base block.length) :
    Outcome.Displaced (base' - base) (Copies block base base' lead) (stepMany fuel n m)
      (stepMany fuel n m') := by
  induction n generalizing m m' with
  | zero => exact .ok h
  | succ n ih =>
    unfold Machine.stepMany
    refine (h.step stays.first fuel).andThen ?_
    intro i k k' stepped after
    exact ih after (stays.next stepped)

theorem Copies.upTo {fuel limit : Nat} (h : Copies block base base' lead m m')
    (stays : m.StaysFor fuel limit base block.length) :
    Outcome.Displaced (base' - base) (Copies block base base' lead) (upTo fuel limit m)
      (upTo fuel limit m') := by
  induction limit generalizing m m' with
  | zero => exact .ok h
  | succ limit ih =>
    unfold Machine.upTo
    rw [h.isHalted]
    split
    · exact .ok h
    · refine (h.step stays.first fuel).andThen ?_
      intro i k k' stepped after
      exact ih after (stays.next stepped)

theorem Copies.runLimited {fuel limit : Nat} (h : Copies block base base' lead m m')
    (stays : m.StaysFor fuel limit base block.length) :
    Outcome.Displaced (base' - base) (Copies block base base' lead) (runLimited fuel limit m)
      (runLimited fuel limit m') := by
  unfold Machine.runLimited
  refine (h.upTo stays).andThen ?_
  intro _ k k' _ after
  have count : k'.cycles - m'.cycles = k.cycles - m.cycles := by
    have before := h.cycles
    have behind := after.cycles
    omega
  rw [count]
  exact .ok after

end Copies

/-- Relative code is independent of its position. Two machines without peripherals hold one block of
trytes at two addresses and stand at the same place in it, with the same registers apart from that;
what else their stores hold does not matter. If the first one fetches only cells of the block in `n`
steps, and the instructions that it finds there are arithmetic on the accumulator or on literals,
branches, or operations without operand, stack and interrupt, then after each of these steps both
have succeeded or both have failed with the same error, apart from an address in it; so do limited
runs, which count the same number of instructions. The registers and the counts are the same, and
the program counters are as far apart as the blocks. -/
theorem relative_code_is_position_independent {block : List Tryte} {base base' lead : Int}
    {m m' : Machine} (copies : Copies block base base' lead m m') {fuel n : Nat}
    (stays : m.StaysFor fuel n base block.length) {j : Nat} (within : j ≤ n) :
    Outcome.Displaced (base' - base) (Displaced (base' - base) lead) (stepMany fuel j m)
        (stepMany fuel j m')
      ∧ Outcome.Displaced (base' - base) (Displaced (base' - base) lead) (runLimited fuel j m)
        (runLimited fuel j m') := by
  have shorter : m.StaysFor fuel j base block.length :=
    fun k below => stays k (Nat.lt_of_lt_of_le below within)
  exact ⟨(copies.stepMany shorter).imp fun _ _ after => after.toDisplaced,
    (copies.runLimited shorter).imp fun _ _ after => after.toDisplaced⟩

theorem relative_loop_runs_at_two_places :
    let block := [(Instruction.alu .ldx .immediate).encode, Tryte.ofDigits 3 0,
      (Instruction.extended .dex).encode, (Instruction.branch .sign .notEqual .zero).encode,
      Tryte.ofDigits (-3) 0, (Instruction.extended .haltP).encode]
    let empty : Store := ⟨13, Array.replicate 27 Tryte.zero, by decide, by decide, [], []⟩
    let full : Store := ⟨13, Array.replicate 27 (Tryte.ofDigits 7 0), by decide, by decide, [], []⟩
    let m := ((powerOn {} empty).load ⟨-5, block⟩).machine.update fun r => { r with pc := -5 }
    let m' := ((powerOn {} full).load ⟨4, block⟩).machine.update fun r => { r with pc := 4 }
    ∃ k k', runLimited 1 20 m = some (.ok 8 k) ∧ runLimited 1 20 m' = some (.ok 8 k')
      ∧ k.registers.pc = 0 ∧ k'.registers.pc = 9 ∧ k'.registers.indexX = k.registers.indexX := by
  intro block empty full m m'
  have registers : m'.registers = m.registers.displaced (4 - -5) := by decide +kernel
  have held : m.store.HoldsAlong (-5) .plus block := by decide +kernel
  have held' : m'.store.HoldsAlong 4 .plus block := by decide +kernel
  have copies : Copies block (-5) 4 0 m m' := by
    refine ⟨⟨registers, ?_⟩, ?_, ?_, ?_, ?_, held, held', ?_⟩
    all_goals decide +kernel
  have stays : m.StaysFor 1 20 (-5) block.length := by decide +kernel
  have shown : (runLimited 1 20 m).map (fun r => (r.value?, r.machine.registers.pc))
      = some (some 8, 0) := by decide +kernel
  clear_value m m'
  obtain ⟨r, result, facts⟩ := Option.map_eq_some_iff.mp shown
  obtain ⟨value, pc⟩ := Prod.mk.inj facts
  rw [Result.eq_ok value] at result
  have both := (relative_code_is_position_independent copies stays (Nat.le_refl 20)).2
  rw [result] at both
  generalize runLimited 1 20 m' = after at both ⊢
  cases both with
  | @ok _ _ k' same =>
    have displaced := same.registers
    refine ⟨r.machine, k', result, rfl, pc, ?_, by rw [displaced]; rfl⟩
    rw [displaced]
    change r.machine.registers.pc + (4 - -5) = 9
    rw [pc]
    decide

end Machine

end TernaryMachine
