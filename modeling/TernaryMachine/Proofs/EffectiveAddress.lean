import TernaryMachine.Proofs.Alike
import TernaryMachine.Proofs.StepEffects

/-!
Indexed and indirect forms. An extended operation that loads, stores, compares or clears through an
index register or a pointer does what the instruction in absolute mode does whose operand is the
effective address: the instruction takes other cells and another way through the decoder, and then
both perform one operation on one cell.
-/

set_option autoImplicit false
set_option relaxedAutoImplicit false

namespace TernaryMachine

/-- The instruction in absolute mode of which an extended operation is an indexed or indirect
form. -/
def ExtendedOp.absolute? (op : ExtendedOp) : Option Instruction :=
  match op.alu? with
  | some alu => some (.alu alu .absolute)
  | none => match op with
    | .stzX | .stzY | .stzIndY | .stzXInd => some (.extended .stz)
    | _ => none

example : (ExtendedOp.all.filter fun op => op.absolute?.isSome).length = 19 := by decide

namespace Core

variable {c : Core}

def IsAhead (c : Core) (a : Int) : Prop :=
  ∃ k : Nat, k < 3 ∧ a = c.registers.pc + k * c.registers.direction.toInt

def withCode (c : Core) (i : Instruction) (w : Word) : Core :=
  let ahead (k : Nat) := c.registers.pc + k * c.registers.direction.toInt
  ((c.assign (.address (ahead 0)) i.encode).assign (.address (ahead 1)) w.low).assign
    (.address (ahead 2)) w.high

theorem get?_assign {a : Int} (inside : c.store.Contains a) (v : Tryte) (b : Int) :
    (c.assign (.address a) v).store.get? b = if b = a then some v else c.store.get? b := by
  rw [assign, dif_pos inside]
  exact c.store.get?_put a b inside v

theorem fetch_of_present (unmapped : c.store.maps = []) {i : Instruction} {value : Int}
    (present : c.instruction? = some i) (literal : c.literal? i = some value) :
    fetch c = .ok (i, value, c.registers.pc + i.operandSize * c.registers.direction.toInt) c := by
  have bounds := pc_of_instruction? present
  obtain ⟨cell, hasOpcode⟩ := opcode_of_instruction? present
  have address {k : Nat} (near : k ≤ 2) : inRange (c.registers.ahead? k) c
      = .ok (c.registers.pc + k * c.registers.direction.toInt) c := by
    rw [Registers.ahead?_of_near (by omega) near]
    rfl
  have ahead {k : Nat} (near : k ≤ 2) {t : Tryte} (there : c.cellAhead? k = some t) :
      fetchAhead k c = .ok t c := by
    unfold fetchAhead
    refine bind_eq_ok_iff.mpr ⟨c.registers.ahead? k, c, rfl, ?_⟩
    exact bind_eq_ok_iff.mpr ⟨_, c, address near, onStore_read unmapped there⟩
  have operand : Instruction.fetchOperand i.mode fetchAhead c = .ok value c := by
    unfold literal? Instruction.operandSize at literal
    unfold Instruction.fetchOperand
    generalize i.mode.operandSize = size at literal ⊢
    match size, literal with
    | 0, literal =>
      cases literal
      rfl
    | 1, literal =>
      obtain ⟨t, first, rfl⟩ := Option.map_eq_some_iff.mp literal
      exact bind_eq_ok_iff.mpr ⟨t, c, ahead (by decide) first, rfl⟩
    | _ + 2, literal =>
      obtain ⟨low, first, literal⟩ := Option.bind_eq_some_iff.mp literal
      obtain ⟨high, second, same⟩ := Option.bind_eq_some_iff.mp literal
      cases same
      refine bind_eq_ok_iff.mpr ⟨low, c, ahead (by decide) first, ?_⟩
      exact bind_eq_ok_iff.mpr ⟨high, c, ahead (by decide) second, rfl⟩
  unfold fetch
  refine bind_eq_ok_iff.mpr ⟨c.registers.pc, c, rfl, ?_⟩
  refine bind_eq_ok_iff.mpr ⟨i.encode, c, onStore_read unmapped cell, ?_⟩
  rw [Instruction.decode_encode hasOpcode]
  refine bind_eq_ok_iff.mpr ⟨value, c, operand, ?_⟩
  refine bind_eq_ok_iff.mpr ⟨c.registers.ahead? i.operandSize, c, rfl, ?_⟩
  exact bind_eq_ok_iff.mpr ⟨_, c, address i.operandSize_le, rfl⟩

section WithCode

variable {i : Instruction} {e : Word}

@[simp] theorem registers_withCode : (c.withCode i e).registers = c.registers := by
  simp only [withCode, registers_assign_address]

@[simp] theorem maps_withCode : (c.withCode i e).store.maps = c.store.maps := by
  simp only [withCode, maps_assign]

theorem maxAddress_assign (c : Core) (p : Operand) (v : Tryte) :
    (c.assign p v).store.maxAddress = c.store.maxAddress := by
  cases p with
  | address a =>
    rw [assign]
    split <;> rfl
  | _ => rfl

variable (inside : ∀ k : Nat, k < 3 →
  c.store.Contains (c.registers.pc + k * c.registers.direction.toInt))
include inside

theorem get?_withCode (a : Int) : (c.withCode i e).store.get? a
    = if a = c.registers.pc + 2 * c.registers.direction.toInt then some e.high
      else if a = c.registers.pc + 1 * c.registers.direction.toInt then some e.low
      else if a = c.registers.pc + 0 * c.registers.direction.toInt then some i.encode
      else c.store.get? a := by
  have first := inside 0 (by decide)
  have second := inside 1 (by decide)
  have third := inside 2 (by decide)
  unfold withCode
  dsimp only
  rw [get?_assign ((contains_assign _ _ _ _).mpr ((contains_assign _ _ _ _).mpr third)),
    get?_assign ((contains_assign _ _ _ _).mpr second), get?_assign first]
  rfl

theorem alike_withCode (unmapped : c.store.maps = []) :
    Alike c.IsAhead (· = ·) c (c.withCode i e) where
  registers := registers_withCode.symm
  cells a apart := by
    have other (k : Nat) (near : k < 3) :
        a ≠ c.registers.pc + k * c.registers.direction.toInt :=
      fun same => apart ⟨k, near, same⟩
    refine ((get?_withCode inside a).trans ?_).symm
    exact (if_neg (other 2 (by decide))).trans
      ((if_neg (other 1 (by decide))).trans (if_neg (other 0 (by decide))))
  size := by simp only [withCode, maxAddress_assign]
  unmapped := unmapped
  unmapped' := maps_withCode.trans unmapped

theorem fetch_withCode (unmapped : c.store.maps = []) (running : c.registers.direction ≠ .zero)
    (hasOpcode : i.HasOpcode) (size : i.operandSize = 2) :
    fetch (c.withCode i e) = .ok (i, e.val, c.registers.pc + 2 * c.registers.direction.toInt)
      (c.withCode i e) := by
  have apart : c.registers.direction.toInt = 1 ∨ c.registers.direction.toInt = -1 := by
    cases direction : c.registers.direction with
    | minus => exact .inr rfl
    | zero => exact absurd direction running
    | plus => exact .inl rfl
  have opcode : (c.withCode i e).store.get? c.registers.pc = some i.encode := by
    rw [get?_withCode inside, if_neg (by omega), if_neg (by omega), if_pos (by omega)]
  have low : (c.withCode i e).cellAhead? 1 = some e.low := by
    rw [cellAhead?, registers_withCode]
    exact (get?_withCode inside _).trans ((if_neg (by omega)).trans (if_pos rfl))
  have high : (c.withCode i e).cellAhead? 2 = some e.high := by
    rw [cellAhead?, registers_withCode]
    exact (get?_withCode inside _).trans (if_pos rfl)
  have present : (c.withCode i e).instruction? = some i := by
    rw [instruction?, registers_withCode, opcode, Option.bind_some,
      Instruction.decode_encode hasOpcode]
    rfl
  have literal : (c.withCode i e).literal? i = some e.val := by
    rw [literal?, size, low, high]
    exact congrArg (fun w : Word => some w.val) e.ofHalves_low_high
  have fetched := fetch_of_present (maps_withCode.trans unmapped) present literal
  rw [size, registers_withCode] at fetched
  exact fetched

end WithCode

theorem contains_of_literal? {i : Instruction} {value : Int} (present : c.instruction? = some i)
    (literal : c.literal? i = some value) (size : i.operandSize = 2) (k : Nat) (near : k < 3) :
    c.store.Contains (c.registers.pc + k * c.registers.direction.toInt) := by
  obtain ⟨t, opcode, -⟩ := Option.bind_eq_some_iff.mp present
  rw [literal?, size] at literal
  obtain ⟨low, first, literal⟩ := Option.bind_eq_some_iff.mp literal
  obtain ⟨high, second, -⟩ := Option.bind_eq_some_iff.mp literal
  match k, near with
  | 0, _ =>
    rw [Int.natCast_zero, Int.zero_mul, Int.add_zero]
    exact contains_of_cell opcode
  | 1, _ => exact contains_of_cell first
  | 2, _ => exact contains_of_cell second

theorem literal?_near {i : Instruction} {value : Int} (h : c.literal? i = some value) :
    -29524 ≤ value ∧ value ≤ 29524 := by
  unfold literal? at h
  generalize i.operandSize = size at h
  match size, h with
  | 0, h =>
    cases h
    decide
  | 1, h =>
    obtain ⟨t, -, rfl⟩ := Option.map_eq_some_iff.mp h
    have := t.lower
    have := t.upper
    omega
  | _ + 2, h =>
    obtain ⟨low, -, h⟩ := Option.bind_eq_some_iff.mp h
    obtain ⟨high, -, same⟩ := Option.bind_eq_some_iff.mp h
    cases same
    exact ⟨(Word.ofHalves low high).lower, (Word.ofHalves low high).upper⟩

theorem resolve_of_operand? (unmapped : c.store.maps = []) {mode : AddressMode} {value : Int}
    {o : Operand} (near : -29524 ≤ value ∧ value ≤ 29524)
    (found : c.operand? mode value = some o) : resolve mode value c = .ok o c := by
  have indexed {a : Int} (bounds : -29524 ≤ a ∧ a ≤ 29524) (t : Tryte) :
      inRange (Signed32.add? a t.val) c = .ok (a + t.val) c := by
    have := t.lower
    have := t.upper
    rw [add?_of_near (by omega) (by omega)]
    rfl
  have pointer {a : Int} {w : Word} (there : c.store.peekWord a = .ok w) :
      onStore (Store.readWord a) c = .ok w c := by
    rw [onStore_readWord unmapped, there]
  have pointed {a : Int} {f : Word → Operand}
      (h : (c.store.peekWord a).toOption.map f = some o) :
      ∃ w, c.store.peekWord a = .ok w ∧ f w = o := by
    cases there : c.store.peekWord a with
    | error cause => simp [there, Except.toOption] at h
    | ok w => exact ⟨w, rfl, by simpa [there, Except.toOption] using h⟩
  cases mode with
  | accumulator | absolute =>
    cases found
    rfl
  | immediate =>
    obtain ⟨t, fits, rfl⟩ := Option.map_eq_some_iff.mp found
    exact bind_eq_ok_iff.mpr ⟨t, c, by rw [fits]; rfl, rfl⟩
  | absoluteX =>
    cases found
    refine bind_eq_ok_iff.mpr ⟨_, c, rfl, ?_⟩
    exact bind_eq_ok_iff.mpr ⟨_, c, indexed near c.registers.indexX, rfl⟩
  | absoluteY =>
    cases found
    refine bind_eq_ok_iff.mpr ⟨_, c, rfl, ?_⟩
    exact bind_eq_ok_iff.mpr ⟨_, c, indexed near c.registers.indexY, rfl⟩
  | indirect =>
    obtain ⟨w, there, rfl⟩ := pointed found
    exact bind_eq_ok_iff.mpr ⟨w, c, pointer there, rfl⟩
  | indexedXIndirect =>
    obtain ⟨w, there, rfl⟩ := pointed found
    refine bind_eq_ok_iff.mpr ⟨_, c, rfl, ?_⟩
    refine bind_eq_ok_iff.mpr ⟨_, c, indexed near c.registers.indexX, ?_⟩
    exact bind_eq_ok_iff.mpr ⟨w, c, pointer there, rfl⟩
  | indirectIndexedY =>
    obtain ⟨w, there, rfl⟩ := pointed found
    refine bind_eq_ok_iff.mpr ⟨w, c, pointer there, ?_⟩
    refine bind_eq_ok_iff.mpr ⟨_, c, rfl, ?_⟩
    exact bind_eq_ok_iff.mpr ⟨_, c, indexed ⟨w.lower, w.upper⟩ c.registers.indexY, rfl⟩

theorem effect_of_performAlu {op : AluOp} (active : op ≠ .dnop) {o : Operand} {effect : AluEffect}
    {d : Core} (h : performAlu op o c = .ok effect d) : effect = .proceed := by
  have last {α : Type} {x : Action α} (h : (x >>= fun _ => pure AluEffect.proceed) c = .ok effect d) :
      effect = .proceed := by
    obtain ⟨_, _, -, done⟩ := bind_eq_ok_iff.mp h
    cases done
    rfl
  cases op with
  | dnop => exact absurd rfl active
  | adc | sbc =>
    obtain ⟨_, _, -, h⟩ := bind_eq_ok_iff.mp h
    obtain ⟨_, _, -, done⟩ := bind_eq_ok_iff.mp h
    cases done
    rfl
  | _ => exact last h

theorem active_of_alu? {op : ExtendedOp} {alu : AluOp} (h : op.alu? = some alu) :
    alu ≠ .dnop := by
  rintro rfl
  cases op <;> cases h

/-- The two forms find the same operand, each its own way, and go on alike. -/
theorem together_forms {hidden : Int → Prop} {R : Registers → Registers → Prop} {d : Core}
    (tame : Registers.Tame R) (alike : Alike hidden R c d) {op : ExtendedOp} {form : Instruction}
    (absolute : op.absolute? = some form) {a e : Int}
    (resolved : resolve (op.mode?.getD .accumulator) a c = .ok (.address e) c)
    (visible : ¬ hidden e) (last : Int) :
    Together (fun flow c' d' => flow = .next ∧ Alike hidden R c' d') (Alike hidden R)
      (perform (.extended op) a last c) (perform form e last d) := by
  have seen : ∀ b, Operand.address e = .address b → ¬ hidden b := by
    rintro _ ⟨⟩
    exact visible
  have operand : Together (fun o c' d' => o = .address e ∧ Alike hidden R c' d') (Alike hidden R)
      (resolve (op.mode?.getD .accumulator) a c) (resolve .absolute e d) := by
    rw [resolved]
    exact .ok ⟨rfl, alike⟩
  have finish {c' d' : Core} (h : Alike hidden R c' d') :
      Together (fun flow c' d' => flow = .next ∧ Alike hidden R c' d') (Alike hidden R)
        ((pure Flow.next : Action Flow) c') ((pure Flow.next : Action Flow) d') := .ok ⟨rfl, h⟩
  unfold ExtendedOp.absolute? at absolute
  change Together _ _ (performExtended op a last c) _
  unfold performExtended
  cases further : op.alu? with
  | some alu =>
    rw [further] at absolute
    cases absolute
    change Together _ _ ((andNext _) c) (((resolve .absolute e) >>= _) d)
    simp only [andNext, bind_assoc, pure_bind]
    refine operand.bind ?_
    rintro o c' d' - ⟨rfl, alike'⟩
    refine ((blind_performAlu tame alu fun _ => seen) c' d' alike').bind ?_
    intro effect c' d' done alike''
    rw [effect_of_performAlu (active_of_alu? further) done]
    exact finish alike''
  | none =>
    rw [further] at absolute
    cases op with
    | stzX | stzY | stzIndY | stzXInd =>
      cases absolute
      change Together _ _ ((andNext _) c) ((andNext _) d)
      simp only [andNext, bind_assoc]
      refine operand.bind ?_
      rintro o c' d' - ⟨rfl, alike'⟩
      refine ((blind_writeOperand tame (.address e) Tryte.zero) c' d' alike').bind ?_
      exact fun _ _ _ _ alike'' => finish alike''
    | _ => cases absolute

end Core

theorem ExtendedOp.size_of_absolute? {op : ExtendedOp} {form : Instruction}
    (h : op.absolute? = some form) : (Instruction.extended op).operandSize = 2
      ∧ form.operandSize = 2 ∧ form.HasOpcode := by
  cases op with
  | ldaIndY | ldaX | ldaY | ldaXInd | staIndY | staX | staY | staXInd | cmpIndY | cmpX | cmpY | ldxY
  | ldyX | stxY | styX | stzX | stzY | stzIndY | stzXInd =>
    cases h
    exact ⟨rfl, rfl, by decide⟩
  | _ => cases h

namespace Machine

def withCode (m : Machine) (i : Instruction) (w : Word) : Machine :=
  { m with core := m.core.withCode i w }

theorem resume_next {m : Machine} {i : Instruction} {last : Int}
    (near : -60000 ≤ last ∧ last ≤ 60000) (fuel : Nat) (d : Core) :
    resume fuel i last .next { m with core := d } = some (.ok i
      ⟨d.withPc (last + d.registers.direction.toInt), m.options, m.cycles + 1, some i⟩) :=
  congrArg some (complete_of_eq_some (m := { m with core := d })
    (following?_of_near near d.registers))

theorem isHalted_withCode (m : Machine) (i : Instruction) (w : Word) :
    (m.withCode i w).isHalted = m.isHalted :=
  congrArg (fun r : Registers => r.flags.isHalted) Core.registers_withCode

/-- At an indexed or indirect form whose operand is at an address other than those of the three cells
of the instruction, a step is the step of the absolute form with that address: both succeed or both
fail with the same error, with the same registers and the same count of instructions, and with the
same cells apart from those three. -/
theorem step_at_effective_address {m : Machine} {op : ExtendedOp} {form : Instruction} {e : Word}
    (unmapped : m.store.maps = []) (present : m.core.instruction? = some (.extended op))
    (absolute : op.absolute? = some form)
    (place : m.core.place? (.extended op) = some (.address e.val))
    (apart : ¬ m.core.IsAhead e.val) (fuel : Nat) :
    ∃ n n' : Machine, n.registers = n'.registers ∧ n.cycles = n'.cycles
      ∧ (∀ a, ¬ m.core.IsAhead a → n.store.get? a = n'.store.get? a)
      ∧ ((m.step fuel = some (.ok (.extended op) n)
          ∧ (m.withCode form e).step fuel = some (.ok form n'))
        ∨ ∃ error, m.step fuel = some (.error error n)
          ∧ (m.withCode form e).step fuel = some (.error error n')) := by
  obtain ⟨size, size', hasOpcode⟩ := ExtendedOp.size_of_absolute? absolute
  obtain ⟨a, literal, found⟩ := Option.bind_eq_some_iff.mp place
  have inside := Core.contains_of_literal? present literal size
  have alike := Core.alike_withCode (i := form) (e := e) inside unmapped
  cases running : m.isHalted with
  | true =>
    have state : (m.withCode form e).state = m.state :=
      congrArg (fun r : Registers => RunState.ofDirection r.direction) Core.registers_withCode
    have step' := step_of_halted ((isHalted_withCode m form e).trans running) fuel
    rw [state] at step'
    exact ⟨m, m.withCode form e, Core.registers_withCode.symm, rfl, alike.cells,
      .inr ⟨_, step_of_halted running fuel, step'⟩⟩
  | false =>
    have direction : m.core.registers.direction ≠ .zero := by
      intro zero
      have halted : m.isHalted = true := congrArg Trit.isZero zero
      rw [running] at halted
      cases halted
    have fetched := Core.fetch_of_present unmapped present literal
    rw [size] at fetched
    have fetched' := Core.fetch_withCode (e := e) inside unmapped direction hasOpcode size'
    have resolved := Core.resolve_of_operand? unmapped (Core.literal?_near literal) found
    have running' := (isHalted_withCode m form e).trans running
    have near : -60000 ≤ m.core.registers.pc + 2 * m.core.registers.direction.toInt
        ∧ m.core.registers.pc + 2 * m.core.registers.direction.toInt ≤ 60000 := by
      have := Core.pc_of_instruction? present
      have := m.core.registers.direction.neg_one_le_toInt
      have := m.core.registers.direction.toInt_le_one
      omega
    have both := Core.together_forms Registers.tame_eq alike absolute resolved apart
      (m.core.registers.pc + 2 * m.core.registers.direction.toInt)
    generalize result : Core.perform (.extended op) a _ m.core = r at both
    generalize result' : Core.perform form e.val _ (m.core.withCode form e) = s at both
    cases both with
    | @ok flow d d' both =>
      obtain ⟨rfl, same⟩ := both
      have step := (step_eq_resume running fetched result fuel).trans (resume_next near fuel d)
      have step' := (step_eq_resume running' fetched' result' fuel).trans (resume_next near fuel d')
      rw [← same.registers] at step'
      refine ⟨_, _, ?_, ?_, ?_, .inl ⟨step, step'⟩⟩
      · exact congrArg (fun r : Registers =>
          { r with pc := m.core.registers.pc + 2 * m.core.registers.direction.toInt
            + d.registers.direction.toInt }) same.registers
      · rfl
      · exact same.cells
    | @error error d d' same =>
      have step := step_of_perform_error running fetched result fuel
      have step' := step_of_perform_error running' fetched' result' fuel
      refine ⟨_, _, ?_, ?_, ?_, .inr ⟨error, step, step'⟩⟩
      · exact same.registers
      · rfl
      · exact same.cells

theorem step_at_effective_address_backward :
    let empty : Store := ⟨13, Array.replicate 27 Tryte.zero, by decide, by decide, [], []⟩
    let place (a : Int) (values : List Int) (m : Machine) : Machine :=
      (m.load ⟨a, values.map fun n => Tryte.ofDigits n 0⟩).machine
    let m := (place 3 [0, -3, (Instruction.extended .ldaIndY).opcode]
      (place (-3) [6, 0] (place 8 [42] (powerOn {} empty)))).update fun r =>
        { r with pc := 5, indexY := Tryte.ofDigits 2 0, flags := r.flags.set .direction .minus }
    let form := Instruction.alu .lda .absolute
    let e : Word := ⟨8, by decide, by decide⟩
    ∃ n n', m.step 1 = some (.ok (.extended .ldaIndY) n)
      ∧ (m.withCode form e).step 1 = some (.ok form n') ∧ n.registers = n'.registers
      ∧ n.registers.pc = 2 ∧ n.registers.accumulator = Tryte.ofDigits 42 0 := by
  intro empty place m form e
  have unmapped : m.store.maps = [] := by decide +kernel
  have present : m.core.instruction? = some (.extended .ldaIndY) := by decide +kernel
  have found : m.core.place? (.extended .ldaIndY) = some (.address e.val) := by decide +kernel
  have around : m.core.registers.pc = 5 ∧ m.core.registers.direction = .minus := by decide +kernel
  have performed : (m.step 1).map (fun r => (r.value?, r.machine.registers.pc,
      r.machine.registers.accumulator))
      = some (some (.extended .ldaIndY), 2, Tryte.ofDigits 42 0) := by decide +kernel
  clear_value m
  have apart : ¬ m.core.IsAhead e.val := by
    rintro ⟨k, near, same⟩
    rw [around.1, around.2] at same
    change 8 = 5 + (k : Int) * -1 at same
    omega
  have absolute : ExtendedOp.absolute? .ldaIndY = some form := rfl
  obtain ⟨r, result, facts⟩ := Option.map_eq_some_iff.mp performed
  simp only [Prod.mk.injEq] at facts
  obtain ⟨value, pc, accumulator⟩ := facts
  rw [Result.eq_ok value] at result
  obtain ⟨n, n', registers, -, -, ⟨step, step'⟩ | ⟨error, step, -⟩⟩ :=
    step_at_effective_address unmapped present absolute found apart 1
  · rw [result] at step
    cases step
    exact ⟨r.machine, n', result, step', registers, pc, accumulator⟩
  · rw [result] at step
    cases step

end Machine

end TernaryMachine
