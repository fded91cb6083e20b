import Mathlib.Tactic.SplitIfs
import TernaryMachine.Machine
import TernaryMachine.Proofs.Actions
import TernaryMachine.Proofs.Opcode

/-!
Steps of a machine that runs forward. Cells that hold the trytes of an occurrence are fetched as its
instruction and its value. After the step the program counter stands just after the instruction,
unless the instruction is one that goes elsewhere or changes the run direction.
-/

set_option autoImplicit false
set_option relaxedAutoImplicit false

namespace TernaryMachine

theorem Store.bounds_of_contains {s : Store} {a : Int} (h : s.Contains a) :
    -29524 ≤ a ∧ a ≤ 29524 := by
  have := s.maxAddress_le
  unfold Contains at h
  omega

theorem Instruction.operandSize_le (i : Instruction) : i.operandSize ≤ 2 := by
  unfold operandSize
  cases i.mode <;> decide

namespace Core

theorem bind_eq_ok_iff {ε σ α β : Type} {x : EStateM ε σ α} {f : α → EStateM ε σ β} {c d : σ}
    {b : β} : (x >>= f) c = .ok b d ↔ ∃ a e, x c = .ok a e ∧ f a e = .ok b d := by
  change EStateM.bind x f c = _ ↔ _
  unfold EStateM.bind
  cases x c with
  | error e s => simp
  | ok a e =>
    constructor
    · exact fun h => ⟨a, e, rfl, h⟩
    · rintro ⟨_, _, ⟨⟩, h⟩
      exact h

theorem onStore_eq_ok_iff {α : Type} {x : Store.Access α} {c d : Core} {a : α} :
    onStore x c = .ok a d ↔ ∃ s, x c.store = .ok a s ∧ d = ⟨c.registers, s⟩ := by
  obtain ⟨registers, store⟩ := c
  cases result : x store with
  | error e s => simp [onStore, result]
  | ok b s =>
    simp only [onStore, result, EStateM.Result.ok.injEq]
    constructor
    · rintro ⟨rfl, rfl⟩
      exact ⟨s, ⟨rfl, rfl⟩, rfl⟩
    · rintro ⟨_, ⟨rfl, rfl⟩, rfl⟩
      exact ⟨rfl, rfl⟩

def KeepsDirection {α : Type} (x : Action α) : Prop :=
  ∀ c a d, x c = .ok a d → d.registers.direction = c.registers.direction

namespace KeepsDirection

theorem pure {α : Type} (a : α) : KeepsDirection (pure a : Action α) := by
  intro c b d h
  cases h
  rfl

theorem throw {α : Type} (e : MachineError) : KeepsDirection (throw e : Action α) := by
  intro c b d h
  cases h

theorem bind {α β : Type} {x : Action α} {f : α → Action β} (hx : KeepsDirection x)
    (hf : ∀ a, KeepsDirection (f a)) : KeepsDirection (x >>= f) := by
  intro c b d h
  obtain ⟨a, e, first, second⟩ := bind_eq_ok_iff.mp h
  exact (hf a e b d second).trans (hx c a e first)

theorem ask {α : Type} (f : Registers → α) : KeepsDirection (ask f) := by
  intro c b d h
  cases h
  rfl

theorem inRange {α : Type} (a? : Option α) : KeepsDirection (inRange a?) := by
  cases a? with
  | none => exact throw _
  | some a => exact pure a

theorem update {f : Registers → Registers} (h : ∀ r, (f r).direction = r.direction) :
    KeepsDirection (update f) := by
  intro c b d hd
  cases hd
  exact h c.registers

theorem onStore {α : Type} (x : Store.Access α) : KeepsDirection (onStore x) := by
  intro c a d h
  obtain ⟨s, -, rfl⟩ := onStore_eq_ok_iff.mp h
  rfl

theorem onStack {α : Type} (x : Stack.Access α) : KeepsDirection (onStack x) := by
  intro ⟨registers, store⟩ a d h
  cases result : x ⟨store, registers.stackPointer⟩ with
  | error e s => cases e <;> simp [Core.onStack, result] at h
  | ok b s =>
    simp only [Core.onStack, result, EStateM.Result.ok.injEq] at h
    obtain ⟨-, rfl⟩ := h
    rfl

theorem closed : Closed @KeepsDirection where
  pure := pure
  bind := bind
  ask := ask
  update mild := update mild.direction
  read _ := onStore _
  write _ _ := onStore _
  refuse _ := throw _

theorem resolve (mode : AddressMode) (value : Int) : KeepsDirection (resolve mode value) := by
  cases mode with
  | accumulator | absolute => exact pure _
  | immediate => exact (inRange _).bind fun _ => pure _
  | absoluteX | absoluteY =>
    exact (ask _).bind fun _ => (inRange _).bind fun _ => pure _
  | indirect => exact (onStore _).bind fun _ => pure _
  | indexedXIndirect =>
    exact (ask _).bind fun _ => (inRange _).bind fun _ => (onStore _).bind fun _ => pure _
  | indirectIndexedY =>
    exact (onStore _).bind fun _ => (ask _).bind fun _ => (inRange _).bind fun _ => pure _

end KeepsDirection

/-- An action after which execution goes on behind the instruction in the same direction, with no
more than an interrupt that restores the registers in between. -/
def Passes (x : Action Flow) : Prop :=
  ∀ c flow d, x c = .ok flow d → d.registers.direction = c.registers.direction
    ∧ (flow = .next ∨ flow = .debugNop ∨ ∃ number, number ≠ Trit.zero ∧ flow = .interrupt number)

theorem passes_andNext {x : Action Unit} (h : KeepsDirection x) : Passes (andNext x) := by
  intro c flow d hd
  obtain ⟨_, e, done, last⟩ := bind_eq_ok_iff.mp hd
  cases last
  exact ⟨h c _ d done, .inl rfl⟩

theorem passes_pure {flow : Flow}
    (h : flow = .next ∨ flow = .debugNop
      ∨ ∃ number, number ≠ Trit.zero ∧ flow = .interrupt number) : Passes (pure flow) := by
  intro c b d hd
  cases hd
  exact ⟨rfl, h⟩

end Core

/-- Whether an extended operation neither goes elsewhere, nor changes the run direction, nor runs
the handler of interrupt zero, which keeps the registers it leaves. -/
def ExtendedOp.isSequential : ExtendedOp → Bool
  | .haltN | .haltZ | .haltP | .intZ | .plp | .jsr | .jmp | .jmpInd | .rts => false
  | _ => true

def Instruction.isSequential : Instruction → Bool
  | .alu .. => true
  | .branch .. => false
  | .extended op => op.isSequential

def Instruction.isJump : Instruction → Bool
  | .branch .. | .extended .jsr | .extended .jmp | .extended .jmpInd | .extended .rts => true
  | _ => false

theorem Instruction.isJump_of_isSequential {i : Instruction} (h : i.isSequential = true) :
    i.isJump = false := by
  cases i with
  | alu op mode => rfl
  | branch flag comparison digit => contradiction
  | extended op => cases op <;> first | rfl | contradiction

namespace Core

theorem passes_performExtended {op : ExtendedOp} (h : op.isSequential = true) (value last : Int) :
    Passes (performExtended op value last) := by
  have closed := KeepsDirection.closed
  unfold performExtended
  cases further : op.alu? with
  | some alu =>
    exact passes_andNext
      (.bind (.resolve _ _) fun o => .bind (closed.performAlu alu o) fun _ => .pure _)
  | none =>
    have moved (source target : Operand) : Passes (transfer source target) :=
      passes_andNext (.bind (closed.readOperand source) fun _ => closed.modify target _)
    have pushed (f : Registers → Tryte) : Passes (pushRegister f) :=
      passes_andNext (.bind (.ask f) fun _ => .onStack _)
    have pulled (o : Operand) : Passes (pullInto o) :=
      passes_andNext (.bind (.onStack _) fun _ => closed.modify o _)
    cases op with
    | haltN | haltZ | haltP | intZ | plp | jsr | jmp | jmpInd | rts => contradiction
    | ldaIndY | ldaX | ldaY | ldaXInd | staIndY | staX | staY | staXInd | cmpIndY | cmpX | cmpY
    | ldxY | ldyX | stxY | styX => contradiction
    | stz | stzX | stzY | stzIndY | stzXInd =>
      exact passes_andNext (.bind (.resolve _ _) fun o => closed.writeOperand o _)
    | clc | secp | secn | clv | cli | sein | seip | cld | sedp | sedn =>
      exact passes_andNext (closed.setFlag (by decide) _)
    | intN => exact passes_pure (.inr (.inr ⟨.minus, by decide, rfl⟩))
    | intP => exact passes_pure (.inr (.inr ⟨.plus, by decide, rfl⟩))
    | nop => exact passes_pure (.inl rfl)
    | tax | tay | txa | tya => exact moved _ _
    | inx | iny | dex | dey => exact passes_andNext (closed.modify _ _)
    | txys =>
      exact passes_andNext
        (.update (f := fun r => { r with stackPointer := r.pointerWord.val }) fun _ => rfl)
    | tsxy =>
      exact passes_andNext (.bind (.ask _) fun p => .bind (.inRange _) fun _ =>
        .update (f := fun r =>
          { r with indexX := Tryte.ofDigits p 0, indexY := Tryte.ofDigits p 5 }) fun _ => rfl)
    | pha | phx | phy => exact pushed _
    | php => exact passes_andNext (.bind (.ask _) fun _ => .bind (.inRange _) fun _ => .onStack _)
    | pla | plx | ply => exact pulled _

theorem passes_perform {i : Instruction} (h : i.isSequential = true) (value last : Int) :
    Passes (perform i value last) := by
  cases i with
  | alu op mode =>
    intro c flow d hd
    obtain ⟨o, e, resolved, hd⟩ := bind_eq_ok_iff.mp hd
    obtain ⟨effect, e', performed, hd⟩ := bind_eq_ok_iff.mp hd
    have found := KeepsDirection.resolve mode value c o e resolved
    have kept := (KeepsDirection.closed.performAlu op o e effect e' performed).trans found
    cases effect with
    | proceed =>
      cases hd
      exact ⟨kept, .inl rfl⟩
    | debugNop =>
      cases hd
      exact ⟨kept, .inr (.inl rfl)⟩
  | branch flag comparison digit => contradiction
  | extended op => exact passes_performExtended h value last

theorem flow_of_perform {i : Instruction} (h : i.isJump = false) {value last : Int} {c d : Core}
    {flow : Flow} (performed : perform i value last c = .ok flow d) (target : Int) :
    flow ≠ .jump target := by
  by_cases sequential : i.isSequential = true
  · rcases (passes_perform sequential value last c flow d performed).2 with rfl | rfl | ⟨_, -, rfl⟩
    · simp
    · simp
    · simp
  · cases i with
    | alu op mode => exact absurd rfl sequential
    | branch flag comparison digit => contradiction
    | extended op =>
      have next {x : Action Unit} (done : andNext x c = .ok flow d) : flow ≠ .jump target := by
        obtain ⟨_, e, -, last⟩ := bind_eq_ok_iff.mp done
        cases last
        simp
      cases op with
      | haltN | haltZ | haltP =>
        obtain ⟨_, e, -, rest⟩ := bind_eq_ok_iff.mp performed
        obtain ⟨_, e', -, last⟩ := bind_eq_ok_iff.mp rest
        cases last
        simp
      | intZ =>
        cases performed
        simp
      | plp => exact next performed
      | jsr | jmp | jmpInd | rts => contradiction
      | _ => exact absurd rfl sequential

theorem contains_of_cell {s : Store} {a : Int} {t : Tryte} (cell : s.get? a = some t) :
    s.Contains a := by
  by_cases h : s.Contains a
  · exact h
  · rw [Store.get?_eq_none_iff.mpr h] at cell
    cases cell

theorem bounds_of_cell {s : Store} {a : Int} {t : Tryte} (cell : s.get? a = some t) :
    -29524 ≤ a ∧ a ≤ 29524 := Store.bounds_of_contains (contains_of_cell cell)

theorem read_eq_ok_iff {s s' : Store} (unmapped : s.maps = []) {a : Int} {t : Tryte} :
    Store.read a s = .ok t s' ↔ s.get? a = some t ∧ s' = s := by
  have silent := Store.readAnswer?_of_unmapped unmapped a
  by_cases contains : s.Contains a
  · simp [Store.read, Store.get?, contains, silent, eq_comm]
  · simp [Store.read, Store.get?, contains]

theorem onStore_read {c : Core} (unmapped : c.store.maps = []) {a : Int} {t : Tryte}
    (cell : c.store.get? a = some t) : onStore (Store.read a) c = .ok t c :=
  onStore_eq_ok_iff.mpr ⟨c.store, (read_eq_ok_iff unmapped).mpr ⟨cell, rfl⟩, rfl⟩

theorem ahead?_of_forward {r : Registers} (forward : r.direction = .plus)
    (lower : -29524 ≤ r.pc) (upper : r.pc ≤ 29524) {k : Nat} (near : k ≤ 2) :
    r.ahead? k = some (r.pc + k) := by
  have step : Signed32.mul? k Trit.plus.toInt = some (k : Int) := by
    rw [Signed32.mul?, Trit.toInt, Int.mul_one]
    apply Signed32.check?_of_inRange
    unfold Signed32.InRange Signed32.minValue Signed32.maxValue
    omega
  rw [Registers.ahead?, forward, step]
  apply Signed32.check?_of_inRange
  unfold Signed32.InRange Signed32.minValue Signed32.maxValue
  omega

/-- A machine whose program counter stands on trytes that it reads without asking a peripheral,
while it runs forward. -/
structure Poised (c : Core) (trytes : List Tryte) : Prop where
  forward : c.registers.direction = .plus
  unmapped : c.store.maps = []
  holds : ∀ k < trytes.length, c.store.get? (c.registers.pc + k) = trytes[k]?

namespace Poised

open Instruction (Occurrence operandTrytes)

variable {c : Core} {o : Occurrence}

theorem opcode (h : Poised c o.trytes) :
    c.store.get? c.registers.pc = some o.instruction.encode := by
  have cell := h.holds 0 (by simp [Occurrence.trytes])
  simpa [Occurrence.trytes] using cell

theorem bounds (h : Poised c o.trytes) :
    -29524 ≤ c.registers.pc ∧ c.registers.pc ≤ 29524 := bounds_of_cell h.opcode

theorem ahead? (h : Poised c o.trytes) {k : Nat} (near : k ≤ 2) :
    c.registers.ahead? k = some (c.registers.pc + k) :=
  ahead?_of_forward h.forward h.bounds.1 h.bounds.2 near

private theorem fetchAhead (h : Poised c o.trytes) {k : Nat} (near : k ≤ 2) {t : Tryte}
    (found : o.trytes[k]? = some t) : fetchAhead k c = .ok t c := by
  have cell := h.holds k (List.getElem?_eq_some_iff.mp found).1
  rw [found] at cell
  have address : inRange (c.registers.ahead? k) c = .ok (c.registers.pc + k) c := by
    rw [h.ahead? near]
    rfl
  unfold Core.fetchAhead
  refine bind_eq_ok_iff.mpr ⟨c.registers.ahead? k, c, rfl, ?_⟩
  exact bind_eq_ok_iff.mpr ⟨_, c, address, onStore_read h.unmapped cell⟩

private theorem fetchOperand (h : Poised c o.trytes) :
    Instruction.fetchOperand o.instruction.mode Core.fetchAhead c = .ok o.value c := by
  have ahead (k : Nat) (near : k ≤ 2) (t : Tryte) (found : o.trytes[k]? = some t) :=
    h.fetchAhead near found
  have holds := o.holds
  unfold Occurrence.trytes at ahead
  unfold Instruction.operandSize at holds ahead
  unfold Instruction.fetchOperand
  generalize o.instruction.mode.operandSize = size at holds ahead ⊢
  match size, holds with
  | 0, holds =>
    rw [show o.value = 0 from holds]
    rfl
  | 1, holds =>
    have first := ahead 1 (by decide) (Tryte.ofDigits o.value 0) rfl
    have value := congrArg Tryte.val (Tryte.ofDigits_val ⟨o.value, holds.1, holds.2⟩)
    refine bind_eq_ok_iff.mpr ⟨_, c, first, ?_⟩
    exact congrArg (EStateM.Result.ok · c) value
  | _ + 2, holds =>
    have first := ahead 1 (by decide) (Tryte.ofDigits o.value 0) rfl
    have second := ahead 2 (by decide) (Tryte.ofDigits o.value 5) rfl
    have value := congrArg Word.val (Word.ofHalves_low_high ⟨o.value, holds.1, holds.2⟩)
    refine bind_eq_ok_iff.mpr ⟨_, c, first, ?_⟩
    refine bind_eq_ok_iff.mpr ⟨_, c, second, ?_⟩
    exact congrArg (EStateM.Result.ok · c) value

theorem fetch (h : Poised c o.trytes) : fetch c
    = .ok (o.instruction, o.value, c.registers.pc + o.instruction.operandSize) c := by
  have near := o.instruction.operandSize_le
  have last : inRange (c.registers.ahead? o.instruction.operandSize) c
      = .ok (c.registers.pc + o.instruction.operandSize) c := by
    rw [h.ahead? near]
    rfl
  unfold Core.fetch
  refine bind_eq_ok_iff.mpr ⟨c.registers.pc, c, rfl, ?_⟩
  refine bind_eq_ok_iff.mpr ⟨_, c, onStore_read h.unmapped h.opcode, ?_⟩
  rw [Instruction.decode_encode o.hasOpcode]
  refine bind_eq_ok_iff.mpr ⟨o.value, c, h.fetchOperand, ?_⟩
  refine bind_eq_ok_iff.mpr ⟨c.registers.ahead? o.instruction.operandSize, c, rfl, ?_⟩
  exact bind_eq_ok_iff.mpr ⟨_, c, last, rfl⟩

end Poised

theorem perform_branch {c : Core} (forward : c.registers.direction = .plus) (flag : Flag)
    (comparison : Comparison) (digit : Trit) {value last : Int} (near : -121 ≤ value ∧ value ≤ 121)
    (low : -29524 ≤ last) (high : last ≤ 29526) :
    perform (.branch flag comparison digit) value last c
      = .ok (if comparison.holds (c.registers.flags.get flag) digit then
          .jump (last + 1 + value) else .next) c := by
  have after : Signed32.add? last Trit.plus.toInt = some (last + 1) := by
    apply Signed32.check?_of_inRange
    simp only [Trit.toInt, Signed32.InRange, Signed32.minValue, Signed32.maxValue]
    omega
  have target : Signed32.add? (last + 1) value = some (last + 1 + value) := by
    apply Signed32.check?_of_inRange
    simp only [Signed32.InRange, Signed32.minValue, Signed32.maxValue]
    omega
  change performBranch flag comparison digit value last c = _
  unfold performBranch
  refine bind_eq_ok_iff.mpr ⟨c.registers.flags.get flag, c, rfl, ?_⟩
  split_ifs
  · refine bind_eq_ok_iff.mpr ⟨c.registers.direction.toInt, c, rfl, ?_⟩
    refine bind_eq_ok_iff.mpr ⟨last + 1, c, by rw [forward, after]; rfl, ?_⟩
    exact bind_eq_ok_iff.mpr ⟨last + 1 + value, c, by rw [target]; rfl, rfl⟩
  · rfl

theorem flow_of_perform_jsr {c d : Core} {value last : Int} {flow : Flow}
    (h : perform (.extended .jsr) value last c = .ok flow d) : flow = .jump value := by
  obtain ⟨site, e, -, h⟩ := bind_eq_ok_iff.mp h
  obtain ⟨_, e', -, h⟩ := bind_eq_ok_iff.mp h
  cases h
  rfl

theorem flow_of_perform_jmpInd {c d : Core} (unmapped : c.store.maps = []) {value last : Int}
    {flow : Flow} (h : perform (.extended .jmpInd) value last c = .ok flow d) :
    ∃ low high, c.store.get? value = some low ∧ c.store.get? (value + 1) = some high
      ∧ flow = .jump (Word.ofHalves low high).val := by
  obtain ⟨w, e, read, h⟩ := bind_eq_ok_iff.mp h
  cases h
  obtain ⟨s, read, -⟩ := onStore_eq_ok_iff.mp read
  obtain ⟨low, s₁, first, read⟩ := bind_eq_ok_iff.mp read
  obtain ⟨lowCell, rfl⟩ := (read_eq_ok_iff unmapped).mp first
  obtain ⟨high, s₂, second, read⟩ := bind_eq_ok_iff.mp read
  obtain ⟨highCell, rfl⟩ := (read_eq_ok_iff unmapped).mp second
  cases read
  exact ⟨low, high, lowCell, highCell, rfl⟩

end Core

namespace Machine

theorem isHalted_of_forward {m : Machine} (forward : m.core.registers.direction = .plus) :
    m.isHalted = false := by
  change m.core.registers.direction.isZero = false
  rw [forward]
  rfl

theorem complete_eq_ok {m n : Machine} {i j : Instruction} {target? : Registers → Option Int}
    (h : m.complete i target? = .ok j n) : j = i ∧ ∃ target,
      target? m.core.registers = some target
        ∧ n.core.registers = { m.core.registers with pc := target } := by
  obtain ⟨⟨registers, store⟩, options, cycles, last?⟩ := m
  unfold complete at h
  cases found : target? registers with
  | none => simp [found] at h
  | some target =>
    simp only [found, EStateM.Result.ok.injEq] at h
    obtain ⟨rfl, rfl⟩ := h
    exact ⟨rfl, target, rfl, rfl⟩

theorem interruptWith_eq_ok {handler : Machine → Outcome Unit} {number : Trit}
    {value? : Option Tryte} {m n : Machine} {accepted : Bool}
    (h : interruptWith handler number value? m = some (.ok accepted n)) :
    (m.isMasked number = true ∧ accepted = false ∧ n = m)
      ∨ (m.isMasked number = false ∧ accepted = true ∧ ∃ w k,
        m.onCore (Core.onStore (Store.readWord (m.vectorAddress number))) = .ok w k
          ∧ dispatch handler number value? w.val k = some (.ok () n)) := by
  unfold interruptWith at h
  split_ifs at h with masked
  · cases h
    exact .inl ⟨masked, rfl, rfl⟩
  · rw [Bool.not_eq_true] at masked
    dsimp only at h
    cases read : m.onCore (Core.onStore (Store.readWord (m.vectorAddress number))) with
    | error e k =>
      rw [read] at h
      cases h
    | ok w k =>
      rw [read] at h
      dsimp only [Outcome.andThen] at h
      split_ifs at h with unset
      · cases h
      · cases handled : dispatch handler number value? w.val k with
        | none =>
          rw [handled] at h
          cases h
        | some result =>
          rw [handled] at h
          cases result with
          | error e after => cases h
          | ok _ after =>
            cases h
            exact .inr ⟨masked, rfl, w, k, rfl, handled⟩

theorem registers_of_dispatch {handler : Machine → Outcome Unit} {number : Trit}
    {value? : Option Tryte} {vector : Int} {m n : Machine} (restores : number ≠ .zero)
    (h : dispatch handler number value? vector m = some (.ok () n)) :
    n.core.registers = m.core.registers := by
  unfold dispatch at h
  dsimp only at h
  generalize handler _ = handled at h
  cases handled with
  | none => cases h
  | some result =>
    cases result with
    | error e after => cases h
    | ok _ after =>
      simp only [Outcome.andThen, if_neg restores, Option.some.injEq,
        EStateM.Result.ok.injEq] at h
      rw [← h.2]
      rfl

theorem registers_of_interruptWith {handler : Machine → Outcome Unit} {number : Trit}
    {value? : Option Tryte} {m n : Machine} {accepted : Bool} (restores : number ≠ .zero)
    (h : interruptWith handler number value? m = some (.ok accepted n)) :
    n.core.registers = m.core.registers := by
  rcases interruptWith_eq_ok h with ⟨-, -, rfl⟩ | ⟨-, -, w, k, read, handled⟩
  · rfl
  · have restored := registers_of_dispatch restores handled
    obtain ⟨core, options, cycles, last?⟩ := m
    unfold onCore at read
    cases result : Core.onStore (Store.readWord (vectorAddress ⟨core, options, cycles, last?⟩ number))
        core with
    | error e d => simp [result] at read
    | ok word d =>
      obtain ⟨s, -, rfl⟩ := Core.onStore_eq_ok_iff.mp result
      simp only [result, EStateM.Result.ok.injEq] at read
      rw [restored, ← read.2]

/-- What is left of a step when the instruction is performed. -/
def resume (fuel : Nat) (i : Instruction) (last : Int) (flow : Flow) (m : Machine) :
    Outcome Instruction :=
  match flow with
  | .next => some (m.complete i (following? last))
  | .jump target => some (m.complete i fun _ => some target)
  | .debugNop =>
    if m.options.dnopTraps then some (.error (.debugTrap m.core.registers.pc) m)
    else some (m.complete i (following? last))
  | .interrupt number =>
    Outcome.andThen (interruptWith (untilHalt fuel) number none m) fun _ m =>
      some (m.complete i (following? last))

theorem step_eq_resume {m : Machine} (running : m.isHalted = false) {i : Instruction}
    {value last : Int} (fetched : Core.fetch m.core = .ok (i, value, last) m.core) {flow : Flow}
    {d : Core} (performed : Core.perform i value last m.core = .ok flow d) (fuel : Nat) :
    m.step fuel = resume fuel i last flow { m with core := d } := by
  obtain ⟨core, options, cycles, last?⟩ := m
  unfold step stepWith
  rw [running]
  simp only [Bool.false_eq_true, if_false, onCore, fetched, Outcome.andThen, performed]
  rfl

theorem step_of_halted {m : Machine} (halted : m.isHalted = true) (fuel : Nat) :
    m.step fuel = some (.error (.notRunning m.state) m) := by
  unfold step stepWith
  exact if_pos halted

theorem step_of_fetch_error {m : Machine} (running : m.isHalted = false) {e : MachineError}
    {d : Core} (failed : Core.fetch m.core = .error e d) (fuel : Nat) :
    m.step fuel = some (.error e { m with core := d }) := by
  obtain ⟨core, options, cycles, last?⟩ := m
  have failed : Core.fetch core = .error e d := failed
  unfold step stepWith
  rw [running]
  simp only [Bool.false_eq_true, if_false, onCore, failed, Outcome.andThen]

theorem step_of_perform_error {m : Machine} (running : m.isHalted = false) {i : Instruction}
    {value last : Int} (fetched : Core.fetch m.core = .ok (i, value, last) m.core)
    {e : MachineError} {d : Core} (failed : Core.perform i value last m.core = .error e d)
    (fuel : Nat) : m.step fuel = some (.error e { m with core := d }) := by
  obtain ⟨core, options, cycles, last?⟩ := m
  have failed : Core.perform i value last core = .error e d := failed
  unfold step stepWith
  rw [running]
  simp only [Bool.false_eq_true, if_false, onCore, fetched, Outcome.andThen, failed]

theorem exists_perform_of_step {m n : Machine} (running : m.isHalted = false) {i j : Instruction}
    {value last : Int} (fetched : Core.fetch m.core = .ok (i, value, last) m.core) {fuel : Nat}
    (h : m.step fuel = some (.ok j n)) :
    ∃ flow d, Core.perform i value last m.core = .ok flow d := by
  cases performed : Core.perform i value last m.core with
  | ok flow d => exact ⟨flow, d, rfl⟩
  | error e d =>
    rw [step_of_perform_error running fetched performed] at h
    cases h

/-- What a step that succeeds does after the fetch: it jumps, it goes on, or it goes on after an
interrupt. -/
theorem step_cases {m n : Machine} (running : m.isHalted = false) {i j : Instruction}
    {value last : Int} (fetched : Core.fetch m.core = .ok (i, value, last) m.core) {fuel : Nat}
    (h : m.step fuel = some (.ok j n)) :
    ∃ flow d, Core.perform i value last m.core = .ok flow d
      ∧ ((∃ target, flow = .jump target
          ∧ { m with core := d }.complete i (fun _ => some target) = .ok j n)
        ∨ ((flow = .next ∨ flow = .debugNop)
          ∧ { m with core := d }.complete i (following? last) = .ok j n)
        ∨ ∃ number accepted k, flow = .interrupt number
          ∧ interruptWith (untilHalt fuel) number none { m with core := d } = some (.ok accepted k)
          ∧ k.complete i (following? last) = .ok j n) := by
  obtain ⟨flow, d, performed⟩ := exists_perform_of_step running fetched h
  rw [step_eq_resume running fetched performed] at h
  refine ⟨flow, d, performed, ?_⟩
  unfold resume at h
  cases flow with
  | next => exact .inr (.inl ⟨.inl rfl, Option.some.inj h⟩)
  | jump target => exact .inl ⟨target, rfl, Option.some.inj h⟩
  | debugNop =>
    dsimp only at h
    split_ifs at h
    · simp at h
    · exact .inr (.inl ⟨.inr rfl, Option.some.inj h⟩)
  | interrupt number =>
    dsimp only at h
    cases requested : interruptWith (untilHalt fuel) number none { m with core := d } with
    | none =>
      rw [requested] at h
      cases h
    | some result =>
      rw [requested] at h
      cases result with
      | error e k => cases h
      | ok accepted k => exact .inr (.inr ⟨number, accepted, k, rfl, requested, Option.some.inj h⟩)

theorem step_jump {m : Machine} (running : m.isHalted = false) {i : Instruction}
    {value last target : Int} (fetched : Core.fetch m.core = .ok (i, value, last) m.core)
    {d : Core} (performed : Core.perform i value last m.core = .ok (.jump target) d) (fuel : Nat) :
    ∃ n, m.step fuel = some (.ok i n) ∧ n.core.registers.pc = target := by
  rw [step_eq_resume running fetched performed]
  exact ⟨_, rfl, rfl⟩

theorem step_next {m : Machine} (running : m.isHalted = false) {i : Instruction}
    {value last target : Int} (fetched : Core.fetch m.core = .ok (i, value, last) m.core)
    {d : Core} (performed : Core.perform i value last m.core = .ok .next d)
    (following : following? last d.registers = some target) (fuel : Nat) :
    ∃ n, m.step fuel = some (.ok i n) ∧ n.core.registers.pc = target := by
  rw [step_eq_resume running fetched performed]
  obtain ⟨registers, store⟩ := d
  obtain ⟨core, options, cycles, last?⟩ := m
  have following : following? last registers = some target := following
  simp only [resume, complete, following]
  exact ⟨_, rfl, rfl⟩

theorem pc_of_complete {k n : Machine} {i j : Instruction} {last : Int}
    (h : k.complete i (following? last) = .ok j n) :
    n.core.registers.pc = last + n.core.registers.direction.toInt
      ∧ n.core.registers.direction = k.core.registers.direction := by
  obtain ⟨-, target, following, registers⟩ := complete_eq_ok h
  obtain ⟨-, rfl⟩ := Signed32.check?_eq_some_iff.mp following
  rw [registers]
  exact ⟨rfl, rfl⟩

theorem pc_of_step {m n : Machine} (running : m.isHalted = false) {i j : Instruction}
    {value last : Int} (fetched : Core.fetch m.core = .ok (i, value, last) m.core)
    (stays : i.isJump = false) {fuel : Nat} (h : m.step fuel = some (.ok j n)) :
    n.core.registers.pc = last + n.core.registers.direction.toInt := by
  obtain ⟨flow, d, performed, ways⟩ := step_cases running fetched h
  rcases ways with ⟨target, rfl, -⟩ | ⟨-, completed⟩ | ⟨number, accepted, k, -, -, completed⟩
  · exact absurd rfl (Core.flow_of_perform stays performed target)
  · exact (pc_of_complete completed).1
  · exact (pc_of_complete completed).1

theorem direction_of_step {m n : Machine} (running : m.isHalted = false) {i j : Instruction}
    {value last : Int} (fetched : Core.fetch m.core = .ok (i, value, last) m.core)
    (passes : Core.Passes (Core.perform i value last)) {fuel : Nat}
    (h : m.step fuel = some (.ok j n)) :
    n.core.registers.direction = m.core.registers.direction := by
  obtain ⟨flow, d, performed, ways⟩ := step_cases running fetched h
  obtain ⟨kept, flows⟩ := passes m.core flow d performed
  rcases ways with
    ⟨target, rfl, -⟩ | ⟨-, completed⟩ | ⟨number, accepted, k, rfl, requested, completed⟩
  · simp at flows
  · exact (pc_of_complete completed).2.trans kept
  · have restores : number ≠ .zero := by simpa using flows
    rw [(pc_of_complete completed).2, registers_of_interruptWith restores requested]
    exact kept

/-- Where a machine goes from an instruction with a value at an address. A branch goes to the tryte
that lies its value behind the next instruction, or to the next instruction; a jump or a call goes
to the value and an indirect jump to the word at the value. Any other instruction, a return apart,
goes to the tryte behind it in the direction that it leaves, which is forward except after a halt,
interrupt zero and a pull of the flags. -/
structure Moves (m : Machine) (i : Instruction) (value address : Int) : Prop where
  branch : ∀ flag comparison digit, i = .branch flag comparison digit → ∀ fuel, ∃ n,
    m.step fuel = some (.ok i n) ∧ n.core.registers.pc = address + i.length
      + if comparison.holds (m.core.registers.flags.get flag) digit then value else 0
  jump : i = .extended .jmp → ∀ fuel, ∃ n,
    m.step fuel = some (.ok i n) ∧ n.core.registers.pc = value
  call : i = .extended .jsr → ∀ fuel j n, m.step fuel = some (.ok j n) →
    n.core.registers.pc = value
  indirect : i = .extended .jmpInd → ∀ fuel j n, m.step fuel = some (.ok j n) → ∃ low high,
    m.core.store.get? value = some low ∧ m.core.store.get? (value + 1) = some high
      ∧ n.core.registers.pc = (Word.ofHalves low high).val
  passing : i.isJump = false → ∀ fuel j n, m.step fuel = some (.ok j n) →
    n.core.registers.pc = address + i.operandSize + n.core.registers.direction.toInt
  sequential : i.isSequential = true → ∀ fuel j n, m.step fuel = some (.ok j n) →
    n.core.registers.pc = address + i.length ∧ n.core.registers.direction = .plus

theorem moves_of_poised {m : Machine} {o : Instruction.Occurrence}
    (h : Core.Poised m.core o.trytes) :
    Moves m o.instruction o.value m.core.registers.pc := by
  have running := isHalted_of_forward h.forward
  have fetched := h.fetch
  have jumped {flow : Flow} {d : Core} {target : Int} {fuel : Nat} {j : Instruction} {n : Machine}
      (performed : Core.perform o.instruction o.value
        (m.core.registers.pc + o.instruction.operandSize) m.core = .ok flow d)
      (away : flow = .jump target) (done : m.step fuel = some (.ok j n)) :
      n.core.registers.pc = target := by
    subst away
    obtain ⟨n', step, pc⟩ := step_jump running fetched performed fuel
    rw [step] at done
    cases done
    exact pc
  constructor
  case branch =>
    intro flag comparison digit same fuel
    have near := o.holds
    have size : o.instruction.operandSize = 1 := by rw [same]; rfl
    rw [size] at near fetched
    have bounds := h.bounds
    have performed : Core.perform _ _ (m.core.registers.pc + 1) m.core = _ :=
      Core.perform_branch h.forward flag comparison digit near (by omega) (by omega)
    rw [← same] at performed
    rw [Instruction.length, size]
    split_ifs at performed ⊢ with passes
    · obtain ⟨n, step, pc⟩ := step_jump running fetched performed fuel
      exact ⟨n, step, by rw [pc]; omega⟩
    · have following : following? (m.core.registers.pc + 1) m.core.registers
          = some (m.core.registers.pc + 1 + 1) := by
        rw [following?, h.forward]
        apply Signed32.check?_of_inRange
        simp only [Trit.toInt, Signed32.InRange, Signed32.minValue, Signed32.maxValue]
        omega
      obtain ⟨n, step, pc⟩ := step_next running fetched performed following fuel
      exact ⟨n, step, by rw [pc]; omega⟩
  case jump =>
    intro same fuel
    rw [same] at fetched ⊢
    exact step_jump running fetched rfl fuel
  case call =>
    intro same fuel j n done
    obtain ⟨flow, d, performed⟩ := exists_perform_of_step running fetched done
    refine jumped performed ?_ done
    rw [same] at performed
    exact Core.flow_of_perform_jsr performed
  case indirect =>
    intro same fuel j n done
    obtain ⟨flow, d, performed⟩ := exists_perform_of_step running fetched done
    have performed' := performed
    rw [same] at performed'
    obtain ⟨low, high, first, second, away⟩ := Core.flow_of_perform_jmpInd h.unmapped performed'
    exact ⟨low, high, first, second, jumped performed away done⟩
  case passing =>
    intro stays fuel j n done
    exact pc_of_step running fetched stays done
  case sequential =>
    intro sequential fuel j n done
    have stays : o.instruction.isJump = false :=
      Instruction.isJump_of_isSequential sequential
    have kept := direction_of_step running fetched (Core.passes_perform sequential _ _) done
    rw [h.forward] at kept
    refine ⟨?_, kept⟩
    rw [pc_of_step running fetched stays done, kept, Instruction.length, Trit.toInt]
    omega

end Machine

end TernaryMachine
