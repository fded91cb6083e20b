import TernaryMachine.Proofs.EffectiveAddress
import TernaryMachine.Proofs.Mirror
import TernaryMachine.Proofs.Noninterference

/-!
Instructions at two places. Arithmetic on the accumulator and on literals, branches and the
operations that have neither an operand nor a use for the stack or for interrupts name no cell by
its address. So such an instruction does the same at two places, whatever else the stores hold: it
changes the same registers in the same way, and goes on at places that are as far apart.
-/

set_option autoImplicit false
set_option relaxedAutoImplicit false

namespace TernaryMachine

namespace Instruction

/-- Whether an instruction names no cell by its address: it is arithmetic on the accumulator or on a
literal, a branch, or an operation without operand, stack and interrupt. -/
def isRelative : Instruction → Bool
  | .alu _ mode => decide (mode = .accumulator ∨ mode = .immediate)
  | .branch .. => true
  | .extended op => decide (op.mode? = none ∧ (Instruction.extended op).pulled = 0
    ∧ (Instruction.extended op).pushed = 0 ∧ (Instruction.extended op).interrupt? = none)

variable {i : Instruction}

theorem stackless_of_relative (relative : i.isRelative = true) :
    (i.mode = .accumulator ∨ i.mode = .immediate) ∧ i.pulled = 0 ∧ i.pushed = 0
      ∧ i.interrupt? = none := by
  cases i with
  | alu op mode => exact ⟨of_decide_eq_true relative, rfl, rfl, rfl⟩
  | branch => exact ⟨.inr rfl, rfl, rfl, rfl⟩
  | extended op =>
    obtain ⟨bare, rest⟩ := of_decide_eq_true relative
    refine ⟨.inl ?_, rest⟩
    change op.mode?.getD .accumulator = _
    rw [bare]
    rfl

theorem straight_or_branch (relative : i.isRelative = true) :
    i.isStraight = true ∨ ∃ flag comparison digit, i = .branch flag comparison digit := by
  cases i with
  | alu op mode => exact .inl rfl
  | branch flag comparison digit => exact .inr ⟨flag, comparison, digit, rfl⟩
  | extended op =>
    cases op with
    | php | plp | jsr | jmp | jmpInd | rts | intN | intZ | intP => exact absurd relative (by decide)
    | _ => exact .inl rfl

theorem place?_ne_address (relative : i.isRelative = true) (c : Core) (a : Int) :
    c.place? i ≠ some (.address a) := by
  intro place
  obtain ⟨value, -, found⟩ := Option.bind_eq_some_iff.mp place
  rcases (stackless_of_relative relative).1 with mode | mode
  · rw [mode] at found
    cases found
  · rw [mode] at found
    obtain ⟨v, -, other⟩ := Option.map_eq_some_iff.mp found
    cases other

theorem reads_of_relative (relative : i.isRelative = true) (c : Core) : i.reads c = [] := by
  obtain ⟨mode, pulled, -, -⟩ := stackless_of_relative relative
  have pointer : (c.literal? i).elim [] (c.pointerCells i.mode) = [] := by
    cases c.literal? i with
    | none => rfl
    | some value =>
      rcases mode with mode | mode
      · rw [mode]
        rfl
      · rw [mode]
        rfl
  unfold reads
  rw [pointer, pulled]
  split
  · rename_i place
    exact absurd place (place?_ne_address relative c _)
  · rfl

theorem not_mem_targets_of_relative (relative : i.isRelative = true) (c : Core) (a : Int) :
    .address a ∉ i.targets c := by
  intro written
  rcases cell_of_targets written with ⟨-, place⟩ | ⟨k, few, -⟩
  · exact place?_ne_address relative c a place
  · rw [(stackless_of_relative relative).2.2.1] at few
    exact absurd few (Nat.not_lt_zero k)

end Instruction

/-- The registers of a machine whose code stands `distance` cells further up. -/
def Registers.displaced (distance : Int) (r : Registers) : Registers :=
  { r with pc := r.pc + distance }

def MachineError.displaced (distance : Int) : MachineError → MachineError
  | .decode pc cause => .decode (pc + distance) cause
  | .debugTrap pc => .debugTrap (pc + distance)
  | e => e

def Flow.displaced (distance : Int) : Flow → Flow
  | .jump target => .jump (target + distance)
  | flow => flow

theorem Registers.tame_displaced (distance : Int) :
    Registers.Tame fun r s => s = r.displaced distance where
  accumulator h := by rw [h]; rfl
  indexX h := by rw [h]; rfl
  indexY h := by rw [h]; rfl
  pointer h := by rw [h]; rfl
  flag h f _ := by rw [h]; rfl
  setAccumulator h v := by rw [h]; rfl
  setIndexX h v := by rw [h]; rfl
  setIndexY h v := by rw [h]; rfl
  setPointer h a := by rw [h]; rfl
  setFlag h f t := by rw [h]; rfl

namespace Core

def Unplaced {α : Type} (x : Action α) : Prop :=
  ∀ c, Meets (fun _ _ => True) (fun e _ => ∀ distance, e.displaced distance = e) (x c)

namespace Unplaced

variable {α β : Type}

theorem pure (a : α) : Unplaced (pure a : Action α) := fun _ => trivial

theorem bind {x : Action α} {f : α → Action β} (hx : Unplaced x) (hf : ∀ a, Unplaced (f a)) :
    Unplaced (x >>= f) := fun c => (hx c).bind fun a d _ => hf a d

theorem ask (f : Registers → α) : Unplaced (ask f) := fun _ => trivial

theorem update (f : Registers → Registers) : Unplaced (update f) := fun _ => trivial

theorem inRange (a? : Option α) : Unplaced (inRange a?) := by
  intro c
  cases a? with
  | none => exact fun _ => rfl
  | some a => exact trivial

theorem onStore (x : Store.Access α) : Unplaced (onStore x) := by
  intro ⟨registers, store⟩
  unfold Core.onStore
  dsimp only
  cases x store with
  | ok a s => exact trivial
  | error e s => exact fun _ => rfl

theorem onStack (x : Stack.Access α) : Unplaced (onStack x) := by
  intro ⟨registers, store⟩
  unfold Core.onStack
  dsimp only
  cases x ⟨store, registers.stackPointer⟩ with
  | ok a s => exact trivial
  | error e s => cases e <;> exact fun _ => rfl

theorem closed : Closed @Unplaced where
  pure := pure
  bind := bind
  ask := ask
  update _ := update _
  read _ := onStore _
  write _ _ := onStore _
  refuse _ _ _ := rfl

theorem resolve (mode : AddressMode) (value : Int) : Unplaced (resolve mode value) := by
  cases mode with
  | accumulator | absolute => exact pure _
  | immediate => exact (inRange _).bind fun _ => pure _
  | absoluteX | absoluteY => exact (ask _).bind fun _ => (inRange _).bind fun _ => pure _
  | indirect => exact (onStore _).bind fun _ => pure _
  | indexedXIndirect =>
    exact (ask _).bind fun _ => (inRange _).bind fun _ => (onStore _).bind fun _ => pure _
  | indirectIndexedY =>
    exact (onStore _).bind fun _ => (ask _).bind fun _ => (inRange _).bind fun _ => pure _

theorem andNext {x : Action Unit} (h : Unplaced x) : Unplaced (andNext x) := h.bind fun _ => pure _

theorem performExtended (op : ExtendedOp) (value last : Int) :
    Unplaced (performExtended op value last) := by
  unfold Core.performExtended
  have set (f : Flag) (t : Trit) : Unplaced (setFlag f t) := update _
  have halted (code : Trit) : Unplaced (halt code) :=
    (set _ _).bind fun _ => (set _ _).bind fun _ => pure _
  cases op.alu? with
  | some alu =>
    exact andNext ((resolve _ _).bind fun o => (closed.performAlu alu o).bind fun _ => pure _)
  | none =>
    cases op with
    | haltN | haltZ | haltP => exact halted _
    | stz | stzX | stzY | stzIndY | stzXInd =>
      exact andNext ((resolve _ _).bind fun o => closed.writeOperand o _)
    | clc | secp | secn | clv | cli | sein | seip | cld | sedp | sedn => exact andNext (set _ _)
    | tax | tay | txa | tya =>
      exact andNext ((closed.readOperand _).bind fun _ => closed.modify _ _)
    | inx | iny | dex | dey => exact andNext (closed.modify _ _)
    | txys => exact andNext (update _)
    | tsxy => exact andNext ((ask _).bind fun _ => (inRange _).bind fun _ => update _)
    | pha | phx | phy => exact andNext ((ask _).bind fun _ => onStack _)
    | php => exact andNext ((ask _).bind fun _ => (inRange _).bind fun _ => onStack _)
    | pla | plx | ply => exact andNext ((onStack _).bind fun _ => closed.modify _ _)
    | plp => exact andNext ((onStack _).bind fun _ => update _)
    | jsr => exact (inRange _).bind fun _ => (onStack _).bind fun _ => pure _
    | jmpInd => exact (onStore _).bind fun _ => pure _
    | rts => exact (onStack _).bind fun _ => (ask _).bind fun _ => (inRange _).bind fun _ => pure _
    | _ => exact pure _

theorem perform (i : Instruction) (value last : Int) : Unplaced (perform i value last) := by
  cases i with
  | alu op mode =>
    refine (resolve mode value).bind fun o => (closed.performAlu op o).bind fun effect => ?_
    cases effect <;> exact pure _
  | branch flag comparison digit =>
    refine (ask _).bind fun t => ?_
    split
    · exact (ask _).bind fun _ => (inRange _).bind fun _ => (inRange _).bind fun _ => pure _
    · exact pure _
  | extended op => exact performExtended op value last

end Unplaced

/-- Two cores with stores of one size whose registers are the same, but for a program counter that
is `distance` cells further up in the second one. -/
abbrev Apart (distance : Int) : Core → Core → Prop :=
  Alike (fun _ => True) fun r s => s = r.displaced distance

/-- Two instructions succeed and go on at places that are `distance` cells apart, or they fail with
the same error. -/
inductive Displaced (distance : Int) : EStateM.Result MachineError Core Flow →
    EStateM.Result MachineError Core Flow → Prop
  | ok {flow : Flow} {c d : Core} (h : Apart distance c d) :
    Displaced distance (.ok flow c) (.ok (flow.displaced distance) d)
  | error {e : MachineError} {c d : Core} (h : Apart distance c d) :
    Displaced distance (.error e c) (.error (e.displaced distance) d)

section Apart

variable {distance : Int} {c d : Core} {i : Instruction} {value last : Int}
variable (apart : Apart distance c d)
include apart

theorem displaced_of_straight (straight : i.isStraight = true) (relative : i.isRelative = true)
    (literal : c.literal? i = some value) :
    Displaced distance (perform i value last c) (perform i value (last + distance) d) := by
  have both := together_perform (Registers.tame_displaced distance) apart straight literal
    (by simp [Instruction.reads_of_relative relative]) last (last + distance)
  obtain ⟨-, stays, -⟩ := Machine.plain_of_straight straight
  have unplaced := Unplaced.perform i value last c
  generalize done : perform i value last c = r at both unplaced ⊢
  generalize perform i value (last + distance) d = r' at both ⊢
  cases both with
  | @ok flow c' d' same =>
    have keeps : flow.displaced distance = flow := by
      cases flow with
      | jump target => exact absurd rfl (flow_of_perform stays done target)
      | _ => rfl
    have displaced : Displaced distance (.ok flow c') (.ok (flow.displaced distance) d') :=
      .ok same
    rwa [keeps] at displaced
  | @error e c' d' same =>
    have displaced : Displaced distance (.error e c') (.error (e.displaced distance) d') :=
      .error same
    rwa [unplaced distance] at displaced

variable (forward : c.registers.direction = .plus)
  (bounds : -29524 ≤ c.registers.pc ∧ c.registers.pc ≤ 29524)
  (bounds' : -29524 ≤ d.registers.pc ∧ d.registers.pc ≤ 29524)
include forward bounds bounds'

/-- A branch is taken at both places or at neither, and the distance of its targets is that of the
places. -/
theorem displaced_of_branch {flag : Flag} {comparison : Comparison} {digit : Trit}
    (literal : c.literal? (.branch flag comparison digit) = some value)
    (behind : last = c.registers.pc + 1) :
    Displaced distance (perform (.branch flag comparison digit) value last c)
      (perform (.branch flag comparison digit) value (last + distance) d) := by
  have registers : d.registers = c.registers.displaced distance := apart.registers
  have forward' : d.registers.direction = .plus := by
    rw [registers]
    exact forward
  have pc : d.registers.pc = c.registers.pc + distance := by
    rw [registers]
    rfl
  have flags : d.registers.flags = c.registers.flags := by
    rw [registers]
    rfl
  have operand : (c.cellAhead? 1).map Tryte.val = some value := literal
  obtain ⟨t, -, rfl⟩ := Option.map_eq_some_iff.mp operand
  have near : -121 ≤ t.val ∧ t.val ≤ 121 := ⟨t.lower, t.upper⟩
  rw [perform_branch forward flag comparison digit near (by omega) (by omega),
    perform_branch forward' flag comparison digit near (by omega) (by omega), flags]
  split
  · have jumps : Displaced distance (.ok (.jump (last + 1 + t.val)) c)
        (.ok (.jump (last + 1 + t.val + distance)) d) := .ok apart
    rwa [show last + 1 + t.val + distance = last + distance + 1 + t.val by omega] at jumps
  · have next : Displaced distance (.ok .next c) (.ok .next d) := .ok apart
    exact next

theorem displaced_perform (relative : i.isRelative = true) (literal : c.literal? i = some value)
    (ends : last = c.registers.pc + i.operandSize * c.registers.direction.toInt) :
    Displaced distance (perform i value last c) (perform i value (last + distance) d) := by
  rcases Instruction.straight_or_branch relative with straight | ⟨flag, comparison, digit, rfl⟩
  · exact displaced_of_straight apart straight relative literal
  · have behind : last = c.registers.pc + 1 := by
      rw [ends, forward]
      exact congrArg (c.registers.pc + ·) (Int.mul_one _)
    exact displaced_of_branch apart forward bounds bounds' literal behind

end Apart

theorem Performed.direction_ne_minus {c d : Core} {i : Instruction} {flow : Flow}
    (h : Performed i c flow d) (relative : i.isRelative = true)
    (onward : c.registers.direction ≠ .minus) : d.registers.direction ≠ .minus := by
  have shown := h.flags
  by_cases turns : i.turns = true
  · have other : i ≠ .extended .plp := by
      rintro rfl
      cases relative
    obtain ⟨code, halts⟩ := Instruction.exists_haltCode?_of_turns turns other
    rw [(Instruction.bare_of_haltCode? halts c).1] at shown
    have halted : d.registers.direction = .zero := shown .direction
    rw [halted]
    decide
  · rw [Bool.not_eq_true, ← Instruction.turns_flagEffect] at turns
    rw [shown.direction turns]
    exact onward

theorem fetch_of_undecodable {c : Core} (unmapped : c.store.maps = []) {t : Tryte}
    (cell : c.store.get? c.registers.pc = some t) {cause : DecodeError}
    (bad : Instruction.decode t = .error cause) :
    fetch c = .error (.decode c.registers.pc cause) c := by
  have goes {α β : Type} {x : Action α} {a : α} (f : α → Action β) (done : x c = .ok a c) :
      (x >>= f) c = f a c := by
    change EStateM.bind x f c = _
    unfold EStateM.bind
    rw [done]
  unfold fetch
  rw [goes _ (show ask Registers.pc c = .ok c.registers.pc c from rfl),
    goes _ (onStore_read unmapped cell), bad]
  rfl

theorem exists_literal {c : Core} {i : Instruction} (present : c.instruction? = some i)
    (inside : ∀ a ∈ c.fetches, c.store.Contains a) : ∃ value, c.literal? i = some value := by
  have cell (k : Nat) (near : k ≤ i.operandSize) : ∃ t, c.cellAhead? k = some t := by
    have contains := inside _ (ahead_mem_fetches present near)
    cases found : c.cellAhead? k with
    | none => exact absurd contains (Store.get?_eq_none_iff.mp found)
    | some t => exact ⟨t, rfl⟩
  unfold literal?
  generalize i.operandSize = size at cell ⊢
  match size with
  | 0 => exact ⟨0, rfl⟩
  | 1 =>
    obtain ⟨t, first⟩ := cell 1 (Nat.le_refl 1)
    rw [first]
    exact ⟨t.val, rfl⟩
  | n + 2 =>
    obtain ⟨low, first⟩ := cell 1 (by omega)
    obtain ⟨high, second⟩ := cell 2 (by omega)
    rw [first, second]
    exact ⟨(Word.ofHalves low high).val, rfl⟩

end Core

end TernaryMachine
