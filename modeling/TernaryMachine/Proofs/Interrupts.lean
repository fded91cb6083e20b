import TernaryMachine.Proofs.Stepping

/-!
Interrupts as the interrupted program sees them. A request is masked, or it fails at its vector, or
its handler is run: before the handler is entered a machine without peripherals is left as it was,
and after a handler other than that of number zero the registers are as they were. A step at an
instruction that requests such an interrupt therefore moves the program counter and no other
register, however the handler and the interrupts inside it went.
-/

set_option autoImplicit false
set_option relaxedAutoImplicit false

namespace TernaryMachine

namespace Store

def peekWord (s : Store) (a : Int) : Except MemoryError Word := do
  let low ← s.peek a
  let high ← s.peek (a + 1)
  return Word.ofHalves low high

theorem read_eq_peek {s : Store} (unmapped : s.maps = []) (a : Int) :
    read a s = match s.peek a with
      | .ok t => .ok t s
      | .error e => .error e s := by
  have silent := readAnswer?_of_unmapped unmapped a
  by_cases contains : s.Contains a
  · simp [read, peek, get?, contains, silent]
  · simp [read, peek, get?, contains]

theorem readWord_eq_peekWord {s : Store} (unmapped : s.maps = []) (a : Int) :
    readWord a s = match s.peekWord a with
      | .ok w => .ok w s
      | .error e => .error e s := by
  change EStateM.bind (read a) _ s = _
  unfold EStateM.bind peekWord
  rw [read_eq_peek unmapped]
  cases s.peek a with
  | error e => rfl
  | ok low =>
    change EStateM.bind (read (a + 1)) _ s = _
    unfold EStateM.bind
    rw [read_eq_peek unmapped]
    cases s.peek (a + 1) with
    | error e => rfl
    | ok high => rfl

end Store

namespace Core

theorem fetch_of_bare {c : Core} (unmapped : c.store.maps = []) {i : Instruction}
    (hasOpcode : i.HasOpcode) (bare : i.operandSize = 0)
    (opcode : c.store.get? c.registers.pc = some i.encode) :
    fetch c = .ok (i, 0, c.registers.pc) c := by
  have bounds := bounds_of_cell opcode
  have last : c.registers.ahead? (i.operandSize : Nat) = some c.registers.pc := by
    have none : Signed32.mul? (i.operandSize : Nat) c.registers.direction.toInt = some 0 := by
      rw [bare, Signed32.mul?, Int.natCast_zero, Int.zero_mul]
      rfl
    rw [Registers.ahead?, none]
    change Signed32.check? (c.registers.pc + 0) = _
    rw [Int.add_zero]
    apply Signed32.check?_of_inRange
    unfold Signed32.InRange Signed32.minValue Signed32.maxValue
    omega
  have operand : Instruction.fetchOperand i.mode fetchAhead c = .ok 0 c := by
    unfold Instruction.fetchOperand
    rw [show i.mode.operandSize = 0 from bare]
    rfl
  refine bind_eq_ok_iff.mpr ⟨c.registers.pc, c, rfl, ?_⟩
  refine bind_eq_ok_iff.mpr ⟨i.encode, c, onStore_read unmapped opcode, ?_⟩
  rw [Instruction.decode_encode hasOpcode]
  refine bind_eq_ok_iff.mpr ⟨0, c, operand, ?_⟩
  refine bind_eq_ok_iff.mpr ⟨c.registers.ahead? (i.operandSize : Nat), c, rfl, ?_⟩
  exact bind_eq_ok_iff.mpr ⟨c.registers.pc, c, by rw [last]; rfl, rfl⟩

theorem onStore_readWord {c : Core} (unmapped : c.store.maps = []) (a : Int) :
    onStore (Store.readWord a) c = match c.store.peekWord a with
      | .ok w => .ok w c
      | .error e => .error (.memory e) c := by
  obtain ⟨registers, store⟩ := c
  have read : Store.readWord a store = _ := Store.readWord_eq_peekWord unmapped a
  simp only [onStore, read]
  cases store.peekWord a with
  | ok w => rfl
  | error e => rfl

end Core

namespace Machine

/-- A request is masked, or it finds no vector in the store, or the vector is not set, or the
handler is entered. -/
theorem interruptWith_eq {m : Machine} (unmapped : m.store.maps = [])
    (handler : Machine → Outcome Unit) (number : Trit) (value? : Option Tryte) :
    interruptWith handler number value? m =
      if m.isMasked number then some (.ok false m)
      else match m.store.peekWord (m.vectorAddress number) with
        | .error e => some (.error (.memory e) m)
        | .ok w =>
          if w.isZero then some (.error (.unsetVector number) m)
          else (dispatch handler number value? w.val m).andThen fun _ n => some (.ok true n) := by
  have read : m.onCore (Core.onStore (Store.readWord (m.vectorAddress number)))
      = match m.store.peekWord (m.vectorAddress number) with
        | .ok w => .ok w m
        | .error e => .error (.memory e) m := by
    obtain ⟨core, options, cycles, last?⟩ := m
    have read := Core.onStore_readWord unmapped
      (vectorAddress ⟨core, options, cycles, last?⟩ number)
    simp only [onCore, read]
    dsimp only [store]
    cases core.store.peekWord _ with
    | ok w => rfl
    | error e => rfl
  unfold interruptWith
  dsimp only
  rw [read]
  cases m.store.peekWord (m.vectorAddress number) with
  | ok w => rfl
  | error e => rfl

/-- The numbers of the interrupts that restore the registers, with the operations that request
them. -/
def requests : List (ExtendedOp × Trit) := [(.intN, .minus), (.intP, .plus)]

section Step

variable {m : Machine} {op : ExtendedOp} {number : Trit}

theorem following?_of_cell {s : Store} {t : Tryte} {r : Registers} (cell : s.get? r.pc = some t) :
    following? r.pc r = some (r.pc + r.direction.toInt) := by
  have bounds := Core.bounds_of_cell cell
  have := r.direction.neg_one_le_toInt
  have := r.direction.toInt_le_one
  apply Signed32.check?_of_inRange
  unfold Signed32.InRange Signed32.minValue Signed32.maxValue
  omega

theorem step_of_request (unmapped : m.store.maps = []) (running : m.isHalted = false)
    (request : (op, number) ∈ requests)
    (opcode : m.store.get? m.registers.pc = some (Instruction.extended op).encode) (fuel : Nat) :
    m.step fuel = (m.interrupt fuel number none).andThen fun _ n =>
      some (n.complete (.extended op) (following? m.registers.pc)) := by
  have known : Instruction.HasOpcode (.extended op)
      ∧ (Instruction.extended op).operandSize = 0
      ∧ Core.perform (.extended op) 0 m.core.registers.pc m.core
        = .ok (.interrupt number) m.core := by
    simp only [requests, List.mem_cons, Prod.mk.injEq, List.not_mem_nil, or_false] at request
    rcases request with ⟨rfl, rfl⟩ | ⟨rfl, rfl⟩
    · exact ⟨by decide, rfl, rfl⟩
    · exact ⟨by decide, rfl, rfl⟩
  obtain ⟨hasOpcode, bare, performed⟩ := known
  have fetched := Core.fetch_of_bare unmapped hasOpcode bare opcode
  rw [step_eq_resume running fetched performed fuel]
  rfl

theorem complete_of_eq_some {m : Machine} {i : Instruction} {target? : Registers → Option Int}
    {target : Int} (h : target? m.registers = some target) :
    m.complete i target? = .ok i { m with
      core.registers.pc := target
      cycles := m.cycles + 1
      last? := some i } := by
  obtain ⟨⟨registers, store⟩, options, cycles, last?⟩ := m
  have found : target? registers = some target := h
  simp only [complete, found]

theorem registers_of_step (unmapped : m.store.maps = []) (running : m.isHalted = false)
    (request : (op, number) ∈ requests)
    (opcode : m.store.get? m.registers.pc = some (Instruction.extended op).encode) {fuel : Nat}
    {i : Instruction} {n : Machine} (h : m.step fuel = some (.ok i n)) :
    i = .extended op
      ∧ n.registers = { m.registers with pc := m.registers.pc + m.registers.direction.toInt } := by
  have restores : number ≠ .zero := by
    simp only [requests, List.mem_cons, Prod.mk.injEq, List.not_mem_nil, or_false] at request
    rcases request with ⟨-, rfl⟩ | ⟨-, rfl⟩
    · decide
    · decide
  rw [step_of_request unmapped running request opcode] at h
  cases requested : m.interrupt fuel number none with
  | none =>
    rw [requested] at h
    cases h
  | some result =>
    rw [requested] at h
    cases result with
    | error e k => cases h
    | ok accepted k =>
      have same : k.registers = m.registers := registers_of_interruptWith restores requested
      have after : following? m.registers.pc k.registers
          = some (m.registers.pc + m.registers.direction.toInt) := by
        rw [same]
        exact following?_of_cell opcode
      dsimp only [Outcome.andThen] at h
      rw [complete_of_eq_some after] at h
      cases h
      refine ⟨rfl, ?_⟩
      exact congrArg (fun r : Registers =>
        { r with pc := m.registers.pc + m.registers.direction.toInt }) same

end Step

/-- An interrupt other than number zero is not seen in the registers of the program that it
interrupts. A masked request and one that fails before the handler is entered leave the machine as
it is; a step at an instruction that requests an interrupt goes on to the next instruction. -/
theorem interrupt_transparent {m : Machine} (unmapped : m.store.maps = []) {number : Trit}
    (restores : number ≠ .zero) (fuel : Nat) (value? : Option Tryte) :
    (∀ accepted n, m.interrupt fuel number value? = some (.ok accepted n) →
      n.registers = m.registers ∧ accepted = !m.isMasked number)
    ∧ (m.isMasked number = true → m.interrupt fuel number value? = some (.ok false m))
    ∧ (m.isMasked number = false →
      (∀ e, m.store.peekWord (m.vectorAddress number) = .error e →
        m.interrupt fuel number value? = some (.error (.memory e) m))
      ∧ ∀ w, m.store.peekWord (m.vectorAddress number) = .ok w → w.isZero = true →
        m.interrupt fuel number value? = some (.error (.unsetVector number) m))
    ∧ ∀ op, (op, number) ∈ requests → m.isHalted = false →
      m.store.get? m.registers.pc = some (Instruction.extended op).encode →
      (∀ i n, m.step fuel = some (.ok i n) → i = .extended op
        ∧ n.registers = { m.registers with pc := m.registers.pc + m.registers.direction.toInt })
      ∧ (m.isMasked number = true → m.step fuel = some (.ok (.extended op) { m with
          core.registers.pc := m.registers.pc + m.registers.direction.toInt
          cycles := m.cycles + 1
          last? := some (.extended op) }))
      ∧ ∀ e n, m.interrupt fuel number none = some (.error e n) →
        m.step fuel = some (.error e n) := by
  have request (value? : Option Tryte) := interruptWith_eq unmapped (untilHalt fuel) number value?
  have maskedRequest (masked : m.isMasked number = true) (value? : Option Tryte) :
      m.interrupt fuel number value? = some (.ok false m) := by
    rw [interrupt, request, if_pos masked]
  refine ⟨?_, fun masked => maskedRequest masked value?, ?_, ?_⟩
  · intro accepted n done
    refine ⟨registers_of_interruptWith restores done, ?_⟩
    rcases interruptWith_eq_ok done with ⟨masked, rfl, -⟩ | ⟨open', rfl, -⟩
    · rw [masked]
      rfl
    · rw [open']
      rfl
  · intro unmasked
    have open' : ¬ m.isMasked number = true := by simp [unmasked]
    refine ⟨?_, ?_⟩
    · intro e outside
      rw [interrupt, request, if_neg open', outside]
    · intro w vector unset
      rw [interrupt, request, if_neg open', vector]
      exact if_pos unset
  · intro op requests running opcode
    have step := step_of_request unmapped running requests opcode fuel
    refine ⟨?_, ?_, ?_⟩
    · intro i n done
      exact registers_of_step unmapped running requests opcode done
    · intro masked
      rw [step, maskedRequest masked]
      exact congrArg some (complete_of_eq_some (following?_of_cell opcode))
    · intro e n failed
      rw [step, failed]
      rfl

theorem interrupt_transparent_nested :
    let empty : Store := ⟨13, Array.replicate 27 Tryte.zero, by decide, by decide, [], []⟩
    let place (origin : Int) (ops : List ExtendedOp) (m : Machine) : Machine :=
      (m.load ⟨origin, ops.map fun op => (Instruction.extended op).encode⟩).machine
    let vector (number : Trit) (target : Int) (m : Machine) : Machine :=
      (m.load ⟨m.vectorAddress number, [Tryte.ofDigits target 0, Tryte.ofDigits target 5]⟩).machine
    let loaded := place 0 [.intP, .haltZ] (place 4 [.secp, .pha, .intN, .haltP]
      (place 9 [.inx, .haltN] (vector .plus 4 (vector .minus 9 (powerOn {} empty)))))
    let m := loaded.update fun r =>
      { r with stackPointer := 12, flags := r.flags.set .mask .zero }
    let seven : Tryte := ⟨7, by decide, by decide⟩
    (∃ n, m.interrupt 6 .plus (some seven) = some (.ok true n)
      ∧ n.cycles = 6 ∧ n.store.get? 12 = some seven ∧ n.registers = m.registers)
    ∧ ∃ n, m.step 6 = some (.ok (.extended .intP) n)
      ∧ n.registers = { m.registers with pc := 1 } := by
  intro empty place vector loaded m seven
  have unmapped : m.store.maps = [] := by decide +kernel
  have running : m.isHalted = false := by decide +kernel
  have opcode : m.store.get? m.registers.pc = some (Instruction.extended .intP).encode := by
    decide +kernel
  have next : m.registers.pc + m.registers.direction.toInt = 1 := by decide +kernel
  obtain ⟨restored, -, -, stepped⟩ :=
    interrupt_transparent unmapped (by decide : Trit.plus ≠ .zero) 6 (some seven)
  obtain ⟨moved, -⟩ := stepped .intP (by decide) running opcode
  have requested : (m.interrupt 6 .plus (some seven)).map (fun r =>
      (r.value?, r.machine.cycles, r.machine.store.get? 12)) = some (some true, 6, some seven) := by
    decide +kernel
  have performed : (m.step 6).map (fun r => r.value?)
      = some (some (Instruction.extended .intP)) := by decide +kernel
  clear_value m
  constructor
  · obtain ⟨r, result, shown⟩ := Option.map_eq_some_iff.mp requested
    simp only [Prod.mk.injEq] at shown
    obtain ⟨value, cycles, cell⟩ := shown
    rw [Result.eq_ok value] at result
    exact ⟨r.machine, result, cycles, cell, (restored true r.machine result).1⟩
  · obtain ⟨r, result, value⟩ := Option.map_eq_some_iff.mp performed
    rw [Result.eq_ok value] at result
    have registers := (moved _ r.machine result).2
    rw [next] at registers
    exact ⟨r.machine, result, registers⟩

end Machine

end TernaryMachine
