import TernaryMachine.Proofs.Effects

/-!
What a step changes when it succeeds and what it leaves when it fails, for a machine without
peripherals. A step performs the instruction at the program counter and then moves the program
counter, so that the tables of the instructions tell its effect on the registers, the flags and the
store. Only the handler of an interrupt is outside of the tables.
-/

set_option autoImplicit false
set_option relaxedAutoImplicit false

namespace TernaryMachine

def Instruction.turns : Instruction → Bool
  | .extended .haltN | .extended .haltZ | .extended .haltP | .extended .plp => true
  | _ => false

theorem Instruction.isSequential_of_straight {i : Instruction} (stays : i.isJump = false)
    (straight : i.turns = false) (plain : i.interrupt? = none) : i.isSequential = true := by
  cases i with
  | alu op mode => rfl
  | branch flag comparison digit => contradiction
  | extended op => cases op <;> first | rfl | contradiction

theorem FlagEffect.Shown.withPc {effect : FlagEffect} {targets : List Operand}
    {place? : Option Operand} {c d : Core} (h : effect.Shown targets place? c d) (a : Int) :
    effect.Shown targets place? c (d.withPc a) := by
  have flags : (d.withPc a).registers.flags = d.registers.flags := rfl
  have accumulator : (d.withPc a).registers.accumulator = d.registers.accumulator := rfl
  cases effect <;> simpa [Shown, flags, accumulator] using h

namespace Core

theorem Residue.registers {c d : Core} {i : Instruction} {e : MachineError} (h : Residue c i e d) :
    d.registers = { c.registers with stackPointer := d.registers.stackPointer } := by
  cases h with
  | whole | pulling => rfl
  | pushing w =>
    change { (c.assign (.address c.registers.stackPointer) w.low).registers with
      stackPointer := c.registers.stackPointer + 1 } = _
    rw [registers_assign_address]
    rfl

theorem Residue.eq_of_stackless {c d : Core} {i : Instruction} {e : MachineError}
    (h : Residue c i e d) (pulled : i.pulled = 0) (pushed : i.pushed ≠ 2) : d = c := by
  cases h with
  | whole => rfl
  | pulling k positive within => omega
  | pushing w word => exact absurd (Instruction.pushed_of_pushedWord? word) pushed

end Core

namespace Machine

theorem following?_of_near {last : Int} (near : -60000 ≤ last ∧ last ≤ 60000) (r : Registers) :
    following? last r = some (last + r.direction.toInt) := by
  have := r.direction.neg_one_le_toInt
  have := r.direction.toInt_le_one
  exact add?_of_near near (by omega)

/-- The machine runs and stands at a request of an interrupt that is not masked and has a vector, so
that a step runs the handler. -/
def EntersHandler (m : Machine) : Prop :=
  m.isHalted = false ∧ ∃ i number w, m.core.instruction? = some i ∧ i.interrupt? = some number
    ∧ m.isMasked number = false ∧ m.store.peekWord (m.vectorAddress number) = .ok w
    ∧ w.isZero = false

section Ways

variable {m n : Machine} {fuel : Nat} {i : Instruction} {e : MachineError}

structure Fetched (m : Machine) (i : Instruction) (value last : Int) : Prop where
  running : m.isHalted = false
  fetch : Core.fetch m.core = .ok (i, value, last) m.core
  present : m.core.instruction? = some i
  literal : m.core.literal? i = some value
  ends : last = m.registers.pc + i.operandSize * m.registers.direction.toInt

theorem Fetched.near {value last : Int} (h : Fetched m i value last) :
    -60000 ≤ last ∧ last ≤ 60000 := by
  have bounds : -29524 ≤ m.registers.pc ∧ m.registers.pc ≤ 29524 :=
    Core.pc_of_instruction? h.present
  have size := i.operandSize_le
  rw [h.ends]
  cases m.registers.direction with
  | minus => simp only [Trit.toInt]; omega
  | zero => simp only [Trit.toInt]; omega
  | plus => simp only [Trit.toInt]; omega

variable (unmapped : m.store.maps = [])
include unmapped

theorem fetched_of_fetch (running : m.isHalted = false) {value last : Int} {d : Core}
    (h : Core.fetch m.core = .ok (i, value, last) d) : Fetched m i value last := by
  have met := Core.meets_fetch unmapped
  rw [h] at met
  obtain ⟨rfl, present, literal, ends⟩ := met
  exact ⟨running, h, present, literal, ends⟩

theorem fetched_of_step (done : m.step fuel = some (.ok i n)) :
    ∃ value last, Fetched m i value last := by
  by_cases halted : m.isHalted = true
  · rw [step_of_halted halted] at done
    cases done
  rw [Bool.not_eq_true] at halted
  cases result : Core.fetch m.core with
  | error e d =>
    rw [step_of_fetch_error halted result] at done
    cases done
  | ok found d =>
    obtain ⟨j, value, last⟩ := found
    have fetched := fetched_of_fetch unmapped halted result
    have same : i = j := by
      obtain ⟨flow, d, -, ways⟩ := step_cases halted fetched.fetch done
      rcases ways with ⟨_, -, completed⟩ | ⟨-, completed⟩ | ⟨_, _, _, -, -, completed⟩
      · exact (complete_eq_ok completed).1
      · exact (complete_eq_ok completed).1
      · exact (complete_eq_ok completed).1
    rw [same]
    exact ⟨value, last, fetched⟩

theorem effect_of_step (done : m.step fuel = some (.ok i n)) :
    ∃ value last flow d, Fetched m i value last ∧ Core.Performed i m.core flow d
      ∧ ((∃ target, flow = .jump target
          ∧ { m with core := d }.complete i (fun _ => some target) = .ok i n)
        ∨ ((flow = .next ∨ flow = .debugNop)
          ∧ { m with core := d }.complete i (following? last) = .ok i n)
        ∨ ∃ number accepted k, flow = .interrupt number
          ∧ interruptWith (untilHalt fuel) number none { m with core := d } = some (.ok accepted k)
          ∧ k.complete i (following? last) = .ok i n) := by
  obtain ⟨value, last, fetched⟩ := fetched_of_step unmapped done
  obtain ⟨flow, d, performed, ways⟩ := step_cases fetched.running fetched.fetch done
  have met := Core.meets_perform unmapped fetched.literal fetched.ends
  rw [performed] at met
  exact ⟨value, last, flow, d, fetched, met, ways⟩

theorem performed_of_step (done : m.step fuel = some (.ok i n)) (plain : i.interrupt? = none) :
    ∃ flow d target, Core.Performed i m.core flow d
      ∧ n = ⟨d.withPc target, m.options, m.cycles + 1, some i⟩
      ∧ (i.leaves m.core = false → target = m.registers.pc
        + i.operandSize * m.registers.direction.toInt + d.registers.direction.toInt) := by
  obtain ⟨value, last, flow, d, fetched, performed, ways⟩ := effect_of_step unmapped done
  refine ⟨flow, d, ?_⟩
  rcases ways with ⟨target, rfl, completed⟩ | ⟨-, completed⟩ | ⟨number, -, -, rfl, -, -⟩
  · cases completed
    refine ⟨target, performed, rfl, ?_⟩
    intro stays
    rw [performed.jump target rfl] at stays
    cases stays
  · have next := following?_of_near fetched.near d.registers
    rw [complete_of_eq_some (m := { m with core := d }) next] at completed
    cases completed
    exact ⟨_, performed, rfl, fun _ => by rw [fetched.ends]⟩
  · rw [(performed.interrupt number rfl).2] at plain
    cases plain

theorem flags_of_request {number : Trit} (done : m.step fuel = some (.ok i n))
    (requests : i.interrupt? = some number) (restores : number ≠ .zero) :
    n.registers.flags = m.registers.flags := by
  obtain ⟨value, last, flow, d, fetched, performed, ways⟩ := effect_of_step unmapped done
  have kept : d.registers.flags = m.registers.flags := by
    have shown := performed.flags
    rw [Instruction.flagEffect_of_interrupt? requests] at shown
    exact shown
  rcases ways with
    ⟨target, -, completed⟩ | ⟨-, completed⟩ | ⟨other, _, k, rfl, requested, completed⟩
  · cases completed
    exact kept
  · obtain ⟨-, target, -, registers⟩ := complete_eq_ok completed
    exact (congrArg Registers.flags registers).trans kept
  · have same : number = other :=
      Option.some.inj (requests.symm.trans (performed.interrupt other rfl).2)
    rw [same] at restores
    obtain ⟨-, target, -, registers⟩ := complete_eq_ok completed
    have restored := congrArg Registers.flags (registers_of_interruptWith restores requested)
    exact (congrArg Registers.flags registers).trans (restored.trans kept)

theorem direction_of_straight (done : m.step fuel = some (.ok i n)) (plain : i.interrupt? = none)
    (stays : i.leaves m.core = false) (straight : i.turns = false) :
    n.registers.direction = m.registers.direction := by
  obtain ⟨value, last, fetched⟩ := fetched_of_step unmapped done
  by_cases sequential : i.isSequential = true
  · exact direction_of_step fetched.running fetched.fetch
      (Core.passes_perform sequential value last) done
  · cases i with
    | alu op mode => exact absurd rfl sequential
    | branch flag comparison digit =>
      obtain ⟨flow, d, target, performed, rfl, -⟩ := performed_of_step unmapped done plain
      have kept : d.registers.flags = m.core.registers.flags := performed.flags
      exact congrArg (fun s : Flags => s.get .direction) kept
    | extended op =>
      exact absurd (Instruction.isSequential_of_straight stays straight plain) sequential

theorem residue_of_fetched {value last : Int} (h : Fetched m i value last)
    (failed : m.step fuel = some (.error e n)) (outside : ¬ m.EntersHandler) :
    ∃ d, n = { m with core := d } ∧ Core.Residue m.core i e d := by
  have met := Core.meets_perform unmapped h.literal h.ends
  cases result : Core.perform i value last m.core with
  | error e' d =>
    rw [step_of_perform_error h.running h.fetch result] at failed
    cases failed
    rw [result] at met
    exact ⟨d, rfl, met⟩
  | ok flow d =>
    rw [result] at met
    have performed : Core.Performed i m.core flow d := met
    rw [step_eq_resume h.running h.fetch result] at failed
    have completes (k : Machine) : k.complete i (following? last) ≠ .error e n := by
      rw [complete_of_eq_some (following?_of_near h.near k.registers)]
      simp
    cases flow with
    | next => exact absurd (Option.some.inj failed) (completes _)
    | jump target => cases failed
    | debugNop =>
      obtain ⟨rfl, bare⟩ := performed.debugNop rfl
      dsimp only [resume] at failed
      split at failed
      · cases failed
        exact ⟨m.core, rfl, .whole (.inl bare)⟩
      · exact absurd (Option.some.inj failed) (completes _)
    | interrupt number =>
      obtain ⟨rfl, requests⟩ := performed.interrupt number rfl
      change (interruptWith (untilHalt fuel) number none m).andThen _ = _ at failed
      rw [interruptWith_eq unmapped] at failed
      have whole : Core.Residue m.core i e m.core :=
        .whole (.inl (Instruction.pulled_of_interrupt? requests))
      split at failed
      · exact absurd (Option.some.inj failed) (completes _)
      · rename_i masked
        rw [Bool.not_eq_true] at masked
        cases vector : m.store.peekWord (m.vectorAddress number) with
        | error cause =>
          rw [vector] at failed
          cases failed
          exact ⟨m.core, rfl, whole⟩
        | ok w =>
          rw [vector] at failed
          dsimp only at failed
          split at failed
          · cases failed
            exact ⟨m.core, rfl, whole⟩
          · rename_i set
            rw [Bool.not_eq_true] at set
            exact absurd ⟨h.running, i, number, w, h.present, requests, masked, vector, set⟩ outside

/-- A step that fails outside of a handler leaves what its instruction leaves, and everything where
there is no instruction. -/
theorem residue_of_step (failed : m.step fuel = some (.error e n)) (outside : ¬ m.EntersHandler) :
    ∃ d, n = { m with core := d }
      ∧ (m.isHalted = true ∨ m.core.instruction? = none → d = m.core)
      ∧ ∀ i, m.core.instruction? = some i → m.isHalted = false → Core.Residue m.core i e d := by
  by_cases halted : m.isHalted = true
  · rw [step_of_halted halted] at failed
    cases failed
    exact ⟨m.core, rfl, fun _ => rfl, fun _ _ running => by rw [halted] at running; cases running⟩
  rw [Bool.not_eq_true] at halted
  cases result : Core.fetch m.core with
  | error e' d =>
    have met := Core.meets_fetch unmapped
    rw [result] at met
    rw [step_of_fetch_error halted result] at failed
    obtain ⟨rfl, operand⟩ := met
    cases failed
    refine ⟨m.core, rfl, fun _ => rfl, fun i present _ => ?_⟩
    exact .whole (.inl (Instruction.pulled_of_operand (operand i present)))
  | ok found d =>
    obtain ⟨i, value, last⟩ := found
    have fetched := fetched_of_fetch unmapped halted result
    obtain ⟨d, rfl, left⟩ := residue_of_fetched unmapped fetched failed outside
    refine ⟨d, rfl, ?_, ?_⟩
    · rintro (halts | absent)
      · rw [halted] at halts
        cases halts
      · rw [fetched.present] at absent
        cases absent
    · intro j present _
      rw [fetched.present] at present
      cases present
      exact left

end Ways

section Outcomes

variable {m n : Machine} {fuel : Nat} {i : Instruction}

/-- A step that fails counts nothing and leaves every register but the stack pointer as it was. It
leaves the whole machine as it was unless its instruction pulls or pushes a word, and then no more
than the part of the stack that was reached before the failure is changed. -/
theorem failed_step_leaves (unmapped : m.store.maps = []) {e : MachineError}
    (failed : m.step fuel = some (.error e n)) (outside : ¬ m.EntersHandler) :
    n = { m with core := n.core }
    ∧ n.registers = { m.registers with stackPointer := n.registers.stackPointer }
    ∧ (m.isHalted = true ∨ (∀ i, m.core.instruction? = some i → i.pulled = 0 ∧ i.pushed ≠ 2) →
      n = m)
    ∧ ∀ i, m.core.instruction? = some i → m.isHalted = false → Core.Residue m.core i e n.core := by
  obtain ⟨d, rfl, whole, residue⟩ := residue_of_step unmapped failed outside
  have rest : m.isHalted = true ∨ m.core.instruction? = none
      ∨ ∃ i, m.core.instruction? = some i ∧ Core.Residue m.core i e d := by
    cases running : m.isHalted with
    | true => exact .inl rfl
    | false =>
      cases present : m.core.instruction? with
      | none => exact .inr (.inl rfl)
      | some i => exact .inr (.inr ⟨i, rfl, residue i present running⟩)
  refine ⟨rfl, ?_, ?_, residue⟩
  · rcases rest with halted | absent | ⟨i, -, left⟩
    · rw [whole (.inl halted)]
    · rw [whole (.inr absent)]
    · exact left.registers
  · intro stackless
    rcases rest with halted | absent | ⟨i, present, left⟩
    · rw [whole (.inl halted)]
    · rw [whole (.inr absent)]
    · rcases stackless with halted | stackless
      · rw [whole (.inl halted)]
      · rw [left.eq_of_stackless (stackless i present).1 (stackless i present).2]

theorem failed_step_leaves_half_a_call :
    let empty : Store := ⟨13, Array.replicate 27 Tryte.zero, by decide, by decide, [], []⟩
    let call : List Tryte := [(Instruction.extended .jsr).encode, ⟨5, by decide, by decide⟩, .zero]
    let m := ((powerOn {} empty).load ⟨0, call⟩).machine.update fun r =>
      { r with stackPointer := 13 }
    ∃ e n, m.step 1 = some (.error e n) ∧ n.registers = { m.registers with stackPointer := 14 }
      ∧ n.store.get? 13 = some ⟨2, by decide, by decide⟩ ∧ n.cycles = 0
      ∧ Core.Residue m.core (.extended .jsr) e n.core := by
  intro empty call m
  have unmapped : m.store.maps = [] := by decide +kernel
  have running : m.isHalted = false := by decide +kernel
  have present : m.core.instruction? = some (.extended .jsr) := by decide +kernel
  have shown : (m.step 1).map (fun r => (r.value?, r.machine.registers.stackPointer,
      r.machine.store.get? 13, m.cycles)) = some (none, 14, some ⟨2, by decide, by decide⟩, 0) := by
    decide +kernel
  clear_value m
  have outside : ¬ m.EntersHandler := by
    rintro ⟨-, i, number, w, found, requests, -⟩
    rw [present] at found
    cases found
    cases requests
  obtain ⟨r, result, facts⟩ := Option.map_eq_some_iff.mp shown
  simp only [Prod.mk.injEq] at facts
  obtain ⟨value, pointer, cell, cycles⟩ := facts
  cases r with
  | ok i n => cases value
  | error e n =>
    obtain ⟨core, registers, -, residue⟩ := failed_step_leaves unmapped result outside
    have pointer : n.registers.stackPointer = 14 := pointer
    rw [pointer] at registers
    refine ⟨e, n, result, registers, cell, ?_, residue _ present running⟩
    rw [core]
    exact cycles

/-- The flags after a step are those that the table of the instruction tells. -/
theorem flags_of_step (unmapped : m.store.maps = []) (done : m.step fuel = some (.ok i n))
    (other : i ≠ .extended .intZ) :
    m.core.instruction? = some i
    ∧ i.flagEffect.Shown (i.targets m.core) (m.core.place? i) m.core n.core := by
  obtain ⟨value, last, fetched⟩ := fetched_of_step unmapped done
  refine ⟨fetched.present, ?_⟩
  cases requests : i.interrupt? with
  | none =>
    obtain ⟨flow, d, target, performed, rfl, -⟩ := performed_of_step unmapped done requests
    exact performed.flags.withPc target
  | some number =>
    rw [Instruction.flagEffect_of_interrupt? requests]
    exact flags_of_request unmapped done requests fun zero =>
      other (Instruction.eq_intZ_of_interrupt? (zero ▸ requests))

theorem flags_of_step_comparing :
    let empty : Store := ⟨13, Array.replicate 27 Tryte.zero, by decide, by decide, [], []⟩
    let i := Instruction.alu .cmp .immediate
    let m := ((powerOn {} empty).load ⟨0, [i.encode, ⟨100, by decide, by decide⟩]⟩).machine.update
      fun r => { r with accumulator := ⟨-121, by decide, by decide⟩ }
    ∃ n, m.step 1 = some (.ok i n) ∧ n.registers.flags.get .sign = .minus
      ∧ n.registers.flags.get .lowest = .plus
      ∧ ∀ f, f ≠ .sign → f ≠ .lowest → n.registers.flags.get f = m.registers.flags.get f := by
  intro empty i m
  have unmapped : m.store.maps = [] := by decide +kernel
  have shown : (m.step 1).map (fun r => (r.value?, r.machine.registers.flags.get .sign,
      r.machine.registers.flags.get .lowest)) = some (some i, .minus, .plus) := by decide +kernel
  clear_value m
  obtain ⟨r, result, facts⟩ := Option.map_eq_some_iff.mp shown
  simp only [Prod.mk.injEq] at facts
  obtain ⟨value, sign, lowest⟩ := facts
  rw [Result.eq_ok value] at result
  obtain ⟨-, o, a, b, wrapped, carry, -, -, -, -, changes⟩ :=
    flags_of_step unmapped result (by decide)
  refine ⟨r.machine, result, sign, lowest, fun f other different => ?_⟩
  have same := changes f
  rw [List.lookup_cons, beq_false_of_ne different, List.lookup_cons, beq_false_of_ne other] at same
  exact same

/-- A step changes the targets of its instruction, the stack pointer by what is pulled and pushed,
the count of instructions and the program counter, and nothing else. -/
theorem frame_of_step (unmapped : m.store.maps = []) (done : m.step fuel = some (.ok i n))
    (plain : i.interrupt? = none) :
    m.core.instruction? = some i
    ∧ (∀ p, p ∉ i.targets m.core → n.core.valueAt? p = m.core.valueAt? p)
    ∧ (∀ a, n.store.get? a ≠ m.store.get? a →
      (i.pushed = 0 ∧ m.core.place? i = some (.address a))
        ∨ ∃ k : Nat, k < i.pushed ∧ a = m.registers.stackPointer + k)
    ∧ (i ≠ .extended .txys → n.registers.stackPointer
      = m.registers.stackPointer + i.pushed - i.pulled)
    ∧ n.cycles = m.cycles + 1
    ∧ (i.leaves m.core = false →
      n.registers.pc = m.registers.pc + i.operandSize * m.registers.direction.toInt
        + n.registers.direction.toInt
      ∧ (i.turns = false →
        n.registers.pc = m.registers.pc + i.length * m.registers.direction.toInt)) := by
  obtain ⟨value, last, fetched⟩ := fetched_of_step unmapped done
  have kept := direction_of_straight unmapped done plain
  obtain ⟨flow, d, target, performed, rfl, goes⟩ := performed_of_step unmapped done plain
  have frame (p : Operand) (outside : p ∉ i.targets m.core) :
      (d.withPc target).valueAt? p = m.core.valueAt? p :=
    (Core.valueAt?_withPc d p target).trans (performed.confined.frame p outside)
  refine ⟨fetched.present, frame, ?_, ?_, rfl, ?_⟩
  · intro a changed
    by_cases targeted : Operand.address a ∈ i.targets m.core
    · exact Instruction.cell_of_targets targeted
    · exact absurd (frame (.address a) targeted) changed
  · intro different
    exact performed.confined.pointer.trans (Instruction.pointerAfter_eq different m.core)
  · intro stays
    refine ⟨goes stays, fun straight => ?_⟩
    have turned : d.registers.direction = m.registers.direction := kept stays straight
    change target = _
    rw [goes stays, turned, Instruction.length, Int.natCast_add, Int.add_mul]
    omega

theorem frame_of_step_backward :
    let empty : Store := ⟨13, Array.replicate 27 Tryte.zero, by decide, by decide, [], []⟩
    let i := Instruction.extended .php
    let m := ((powerOn {} empty).load ⟨0, [i.encode]⟩).machine.update fun r =>
      { r with stackPointer := 5, flags := r.flags.set .direction .minus }
    ∃ n, m.step 1 = some (.ok i n) ∧ n.registers.pc = -1 ∧ n.registers.stackPointer = 7
      ∧ n.registers.accumulator = m.registers.accumulator
      ∧ ∀ a, a ≠ 5 → a ≠ 6 → n.store.get? a = m.store.get? a := by
  intro empty i m
  have unmapped : m.store.maps = [] := by decide +kernel
  have before : (m.registers.pc, m.registers.stackPointer, m.registers.direction)
      = (0, 5, .minus) := by decide +kernel
  have performed : (m.step 1).map (fun r => r.value?) = some (some i) := by decide +kernel
  clear_value m
  simp only [Prod.mk.injEq] at before
  obtain ⟨pc, pointer, direction⟩ := before
  obtain ⟨r, result, value⟩ := Option.map_eq_some_iff.mp performed
  rw [Result.eq_ok value] at result
  obtain ⟨-, frame, cells, moved, -, next⟩ := frame_of_step unmapped result rfl
  obtain ⟨-, next⟩ := next rfl
  have next := next rfl
  have moved := moved (by decide)
  rw [pc, direction] at next
  rw [pointer] at moved
  refine ⟨r.machine, result, next, moved, ?_, fun a low high => ?_⟩
  · have targets : i.targets m.core = [.address m.core.registers.stackPointer,
        .address (m.core.registers.stackPointer + 1)] := rfl
    exact Option.some.inj (frame .accumulator (by simp [targets]))
  · refine Decidable.byContradiction fun changed => ?_
    rcases cells a changed with ⟨none, -⟩ | ⟨k, few, rfl⟩
    · cases none
    · have few : k < 2 := few
      omega

end Outcomes

end Machine

end TernaryMachine
