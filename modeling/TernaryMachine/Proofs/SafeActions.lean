import TernaryMachine.Proofs.Bounds

/-!
The actions of instructions within the bounds of the registers. Each action keeps the bounds and the
ends of the store, and it does not find a value out of range as long as the stack pointer has room.
The operand that was fetched bounds the addresses that are computed from it, and the cell that was
read last bounds the addresses of the next instruction.
-/

set_option autoImplicit false
set_option relaxedAutoImplicit false

namespace TernaryMachine

namespace Core

/-- Registers within their bounds over a store up to `n`. If there was `room` for the stack pointer
at the start, there is now. -/
structure Sound (n : Nat) (room : Prop) (c : Core) : Prop where
  registers : c.registers.Bounded
  ends : c.store.maxAddress = n
  room : room → c.registers.HasRoom

structure Stopped (n : Nat) (room : Prop) (e : MachineError) (c : Core) : Prop where
  registers : c.registers.Bounded
  ends : c.store.maxAddress = n
  room : room → e ≠ .rangeFault

/-- An action that starts within the bounds ends within them; `Q` holds of its value. -/
def Safe {α : Type} (n : Nat) (room : Prop) (x : Action α) (Q : α → Prop) : Prop :=
  ∀ c, Sound n room c → Meets (fun a d => Sound n room d ∧ Q a) (Stopped n room) (x c)

abbrev Steady {α : Type} (n : Nat) (room : Prop) (x : Action α) : Prop :=
  Safe n room x fun _ => True

variable {n : Nat} {room : Prop} {α β : Type}

theorem Sound.stopped {c : Core} (h : Sound n room c) {e : MachineError} (other : e ≠ .rangeFault) :
    Stopped n room e c := ⟨h.registers, h.ends, fun _ => other⟩

theorem meets_onStore {x : Store.Access α} {Q : α → Prop} (h : Store.Safe n x Q) {c : Core}
    (sound : Sound n room c) :
    Meets (fun a d => Sound n room d ∧ d.registers = c.registers ∧ Q a) (Stopped n room)
      (onStore x c) := by
  obtain ⟨registers, store⟩ := c
  have met := h store sound.ends
  unfold onStore
  dsimp only
  cases result : x store with
  | ok a d =>
    rw [result] at met
    exact ⟨⟨sound.registers, met.1, sound.room⟩, rfl, met.2⟩
  | error e d =>
    rw [result] at met
    exact ⟨sound.registers, met, fun _ => by simp⟩

namespace Safe

theorem pure {a : α} {Q : α → Prop} (h : Q a) : Safe n room (pure a) Q := by
  intro c sound
  exact ⟨sound, h⟩

theorem throw {e : MachineError} {Q : α → Prop} (other : e ≠ .rangeFault) :
    Safe n room (throw e : Action α) Q := by
  intro c sound
  exact sound.stopped other

theorem bind {x : Action α} {f : α → Action β} {P : α → Prop} {Q : β → Prop}
    (hx : Safe n room x P) (hf : ∀ a, P a → Safe n room (f a) Q) : Safe n room (x >>= f) Q := by
  intro c sound
  exact (hx c sound).bind fun a d h => hf a h.2 d h.1

theorem ask {f : Registers → α} {Q : α → Prop} (h : ∀ r : Registers, r.Bounded → Q (f r)) :
    Safe n room (ask f) Q := by
  intro c sound
  exact ⟨sound, h c.registers sound.registers⟩

theorem inRange {a? : Option α} {Q : α → Prop} (h : ∃ a, a? = some a ∧ Q a) :
    Safe n room (inRange a?) Q := by
  obtain ⟨a, rfl, hQ⟩ := h
  exact pure hQ

theorem onStore {x : Store.Access α} {Q : α → Prop} (h : Store.Safe n x Q) :
    Safe n room (onStore x) Q := by
  intro c sound
  exact (meets_onStore h sound).weaken fun _ _ met => ⟨met.1, met.2.2⟩

theorem update {f : Registers → Registers} (pc : ∀ r, (f r).pc = r.pc)
    (pointer : ∀ r, (f r).stackPointer = r.stackPointer)
    (flags : ∀ r : Registers, r.flags.Bounded → (f r).flags.Bounded) :
    Steady n room (update f) := by
  intro ⟨registers, store⟩ sound
  have bounded := sound.registers
  refine ⟨⟨⟨?_, flags registers bounded.flags, ?_⟩, sound.ends, ?_⟩, trivial⟩
  · rw [pc]
    exact bounded.pc
  · rw [pointer]
    exact bounded.pointer
  · intro before
    have above := sound.room before
    unfold Registers.HasRoom at above ⊢
    rw [pointer]
    exact above

theorem onStack {x : Stack.Access α} (h : Stack.Safe n room x) : Steady n room (onStack x) := by
  intro ⟨registers, store⟩ sound
  have bounded := sound.registers
  have met := h ⟨store, registers.stackPointer⟩ ⟨sound.ends, bounded.pointer, sound.room⟩
  unfold Core.onStack
  dsimp only
  cases result : x ⟨store, registers.stackPointer⟩ with
  | ok a d =>
    rw [result] at met
    exact ⟨⟨⟨bounded.pc, bounded.flags, met.pointer⟩, met.ends, met.room⟩, trivial⟩
  | error e d =>
    rw [result] at met
    cases e with
    | memory cause =>
      exact ⟨⟨bounded.pc, bounded.flags, met.pointer⟩, met.ends, fun _ => by simp⟩
    | pointerOverflow =>
      refine ⟨⟨bounded.pc, bounded.flags, met.pointer⟩, met.ends, ?_⟩
      intro before
      exact absurd rfl (met.room before)

theorem setFlag (f : Flag) (t : Trit) : Steady n room (setFlag f t) :=
  update (fun _ => rfl) (fun _ => rfl) fun _ h => h.set f t

theorem anything (f : Registers → α) : Steady n room (Core.ask f) := ask fun _ _ => trivial

theorem closed : Closed fun _ => Steady n room where
  pure _ := pure trivial
  bind hx hf := hx.bind fun a _ => hf a
  ask := anything
  update mild := update mild.pc mild.pointer mild.flags
  read a := onStore ((Store.safe_read a).weaken fun _ _ => trivial)
  write a v := onStore ((Store.safe_write a v).weaken fun _ _ => trivial)
  refuse _ := throw (by simp)

theorem resolve {mode : AddressMode} {value : Int}
    (holds : Instruction.Holds mode.operandSize value) : Steady n room (resolve mode value) := by
  have indexed (base : Int) (index : Registers → Tryte) (lower : -29524 ≤ base)
      (upper : base ≤ 29524) : Safe n room
        (Core.ask fun r => Signed32.add? base (index r).val) fun a? => ∃ a, a? = some a ∧ True := by
    refine ask fun r _ => ⟨base + (index r).val, add?_of_near (by omega) ?_, trivial⟩
    have := (index r).lower
    have := (index r).upper
    omega
  have word (a : Int) : Steady n room (Core.onStore (Store.readWord a)) :=
    onStore (Store.safe_readWord a)
  cases mode with
  | accumulator | absolute => exact pure trivial
  | immediate =>
    have literal : Tryte.ofInt? value = some ⟨value, holds.1, holds.2⟩ :=
      Tryte.ofInt?_eq_some_iff.mpr rfl
    exact (inRange (Q := fun _ => True) ⟨_, literal, trivial⟩).bind fun _ _ => pure trivial
  | absoluteX =>
    exact (indexed value Registers.indexX holds.1 holds.2).bind fun _ found =>
      (inRange found).bind fun _ _ => pure trivial
  | absoluteY =>
    exact (indexed value Registers.indexY holds.1 holds.2).bind fun _ found =>
      (inRange found).bind fun _ _ => pure trivial
  | indirect => exact (word value).bind fun _ _ => pure trivial
  | indexedXIndirect =>
    exact (indexed value Registers.indexX holds.1 holds.2).bind fun _ found =>
      (inRange found).bind fun _ _ => (word _).bind fun _ _ => pure trivial
  | indirectIndexedY =>
    exact (word value).bind fun base _ =>
      (indexed base.val Registers.indexY base.lower base.upper).bind fun _ found =>
        (inRange found).bind fun _ _ => pure trivial

end Safe

/-- A jump goes no further than a branch at the last cell can. -/
def NearFlow (flow : Flow) : Prop := ∀ target, flow = .jump target → -29646 ≤ target ∧ target ≤ 29646

namespace Safe

theorem next {flow : Flow} (h : ∀ target, flow ≠ .jump target) :
    Safe n room (Pure.pure flow) NearFlow := pure fun target away => absurd away (h target)

theorem jump {target : Int} (h : -29646 ≤ target ∧ target ≤ 29646) :
    Safe n room (Pure.pure (.jump target)) NearFlow := by
  refine pure fun other same => ?_
  obtain rfl := Flow.jump.inj same
  exact h

theorem andNext {x : Action Unit} (h : Steady n room x) : Safe n room (andNext x) NearFlow :=
  h.bind fun _ _ => next (by simp)

theorem halt (code : Trit) : Safe n room (halt code) NearFlow :=
  (setFlag .haltCode code).bind fun _ _ => (setFlag .direction .zero).bind fun _ _ => next (by simp)

theorem pushRegister (f : Registers → Tryte) : Safe n room (pushRegister f) NearFlow :=
  andNext ((anything f).bind fun _ _ => onStack (Stack.safe_push _))

theorem pullInto (o : Operand) : Safe n room (pullInto o) NearFlow :=
  andNext ((onStack Stack.safe_pull).bind fun _ _ => closed.modify o _)

theorem transfer (source target : Operand) : Safe n room (transfer source target) NearFlow :=
  andNext ((closed.readOperand source).bind fun _ _ => closed.modify target _)

theorem storeZero {mode : AddressMode} {value : Int}
    (holds : Instruction.Holds mode.operandSize value) :
    Safe n room (storeZero mode value) NearFlow :=
  andNext ((resolve holds).bind fun _ _ => closed.writeOperand _ _)

theorem loadPointer : Steady n room
    (Core.update fun r => { r with stackPointer := r.pointerWord.val }) := by
  intro ⟨registers, store⟩ sound
  have bounded := sound.registers
  have lower := registers.pointerWord.lower
  have upper := registers.pointerWord.upper
  have above : Signed32.minValue < registers.pointerWord.val := by
    unfold Signed32.minValue
    omega
  refine ⟨⟨⟨bounded.pc, bounded.flags, ?_⟩, sound.ends, fun _ => above⟩, trivial⟩
  dsimp only
  omega

theorem splitPointer : Safe n room splitPointer NearFlow := by
  refine andNext ?_
  intro c sound
  have bounded := sound.registers
  refine Meets.bind (P := fun p d => Sound n room d ∧ p = d.registers.stackPointer)
    ⟨sound, rfl⟩ ?_
  rintro _ ⟨registers, store⟩ ⟨sound, rfl⟩
  cases digits : Digits.Bounded.split? registers.stackPointer with
  | some parts =>
    refine Meets.bind (P := fun _ d => Sound n room d) sound ?_
    intro _ d sound
    exact update (f := fun r => { r with
      indexX := Tryte.ofDigits registers.stackPointer 0
      indexY := Tryte.ofDigits registers.stackPointer 5 }) (fun _ => rfl) (fun _ => rfl)
      (fun _ h => h) d sound
  | none =>
    refine ⟨sound.registers, sound.ends, ?_⟩
    intro before
    have lower : Signed32.minValue < registers.stackPointer := sound.room before
    have upper : registers.stackPointer ≤ Signed32.maxValue := by
      have bound : registers.stackPointer ≤ 29525 := sound.registers.pointer.2
      unfold Signed32.maxValue
      omega
    rw [Digits.split?_eq_some lower upper] at digits
    cases digits

theorem enterSubroutine {target last : Int} (ht : -29524 ≤ target ∧ target ≤ 29524)
    (hl : -29524 ≤ last ∧ last ≤ 29524) : Safe n room (enterSubroutine target last) NearFlow := by
  have site : Word.ofInt? last = some ⟨last, hl.1, hl.2⟩ := Word.ofInt?_eq_some_iff.mpr rfl
  exact (inRange (Q := fun _ => True) ⟨_, site, trivial⟩).bind fun _ _ =>
    (onStack (Stack.safe_pushWord _)).bind fun _ _ => jump (by omega)

theorem direction : Safe n room (Core.ask fun r => r.direction.toInt)
    fun d => -1 ≤ d ∧ d ≤ 1 :=
  ask fun r _ => ⟨r.direction.neg_one_le_toInt, r.direction.toInt_le_one⟩

theorem leaveSubroutine : Safe n room leaveSubroutine NearFlow := by
  refine (onStack Stack.safe_pullWord).bind fun site _ => direction.bind fun step near => ?_
  have := site.lower
  have := site.upper
  refine (inRange ⟨site.val + step, add?_of_near (by omega) (by omega), rfl⟩).bind ?_
  rintro _ rfl
  exact jump (by omega)

theorem performBranch (flag : Flag) (comparison : Comparison) (digit : Trit) {value last : Int}
    (hv : -121 ≤ value ∧ value ≤ 121) (hl : -29524 ≤ last ∧ last ≤ 29524) :
    Safe n room (performBranch flag comparison digit value last) NearFlow := by
  refine (anything fun r => r.flags.get flag).bind fun t _ => ?_
  split
  · refine direction.bind fun step near => ?_
    refine (inRange ⟨last + step, add?_of_near (by omega) (by omega), rfl⟩).bind ?_
    rintro _ rfl
    refine (inRange ⟨last + step + value, add?_of_near (by omega) (by omega), rfl⟩).bind ?_
    rintro _ rfl
    exact jump (by omega)
  · exact next (by simp)

theorem performExtended {op : ExtendedOp} {value last : Int}
    (hv : Instruction.Holds (Instruction.extended op).operandSize value)
    (hl : -29524 ≤ last ∧ last ≤ 29524) :
    Safe n room (performExtended op value last) NearFlow := by
  unfold Core.performExtended
  cases op.alu? with
  | some alu =>
    exact andNext ((resolve hv).bind fun o _ => (closed.performAlu alu o).bind fun _ _ => pure trivial)
  | none =>
    cases op with
    | haltN | haltZ | haltP => exact halt _
    | stz | stzX | stzY | stzIndY | stzXInd => exact storeZero hv
    | clc | secp | secn | clv | cli | sein | seip | cld | sedp | sedn =>
      exact andNext (setFlag _ _)
    | intN | intZ | intP | nop => exact next (by simp)
    | tax | tay | txa | tya => exact transfer _ _
    | inx | iny | dex | dey => exact andNext (closed.modify _ _)
    | txys => exact andNext loadPointer
    | tsxy => exact splitPointer
    | pha | phx | phy => exact pushRegister _
    | php =>
      have packed : Safe n room (Core.ask fun r => r.flags.toWord?)
          fun w? => ∃ w, w? = some w ∧ True :=
        ask fun r bounded => by simpa using bounded.flags.toWord?
      exact andNext (packed.bind fun _ found => (inRange found).bind fun _ _ =>
        onStack (Stack.safe_pushWord _))
    | pla | plx | ply => exact pullInto _
    | plp =>
      exact andNext ((onStack Stack.safe_pullWord).bind fun w _ =>
        update (f := fun r => { r with flags := Flags.ofWord w }) (fun _ => rfl) (fun _ => rfl)
          fun _ _ => Flags.bounded_ofWord w)
    | jsr => exact enterSubroutine hv hl
    | jmp => exact jump (by have : -29524 ≤ value ∧ value ≤ 29524 := hv; omega)
    | jmpInd =>
      refine (onStore (Store.safe_readWord value)).bind fun w _ => jump ?_
      have := w.lower
      have := w.upper
      omega
    | rts => exact leaveSubroutine
    | ldaIndY | ldaX | ldaY | ldaXInd | staIndY | staX | staY | staXInd | cmpIndY | cmpX | cmpY
    | ldxY | ldyX | stxY | styX => exact next (by simp)

theorem perform {i : Instruction} {value last : Int} (hv : Instruction.Holds i.operandSize value)
    (hl : -29524 ≤ last ∧ last ≤ 29524) : Safe n room (perform i value last) NearFlow := by
  cases i with
  | alu op mode =>
    refine (resolve hv).bind fun o _ => (closed.performAlu op o).bind fun effect _ => ?_
    cases effect with
    | proceed => exact next (by simp)
    | debugNop => exact next (by simp)
  | branch flag comparison digit => exact performBranch flag comparison digit hv hl
  | extended op => exact performExtended hv hl

end Safe

theorem meets_fetchAhead {c : Core} (sound : Sound n room c) {k : Nat} (near : k ≤ 2) :
    Meets (fun _ d => Sound n room d ∧ d.registers = c.registers
      ∧ -29524 ≤ c.registers.pc + k * c.registers.direction.toInt
      ∧ c.registers.pc + k * c.registers.direction.toInt ≤ 29524)
      (Stopped n room) (fetchAhead k c) := by
  unfold fetchAhead
  refine Meets.bind (P := fun a? d => d = c
    ∧ a? = some (c.registers.pc + k * c.registers.direction.toInt))
    ⟨rfl, sound.registers.ahead? near⟩ ?_
  rintro _ _ ⟨rfl, rfl⟩
  exact meets_onStore (Store.safe_read _) sound

theorem meets_fetchOperand {c : Core} (sound : Sound n room c) (mode : AddressMode) :
    Meets (fun value d => Sound n room d ∧ d.registers = c.registers
      ∧ Instruction.Holds mode.operandSize value
      ∧ (0 < mode.operandSize →
        -29524 ≤ c.registers.pc + mode.operandSize * c.registers.direction.toInt
        ∧ c.registers.pc + mode.operandSize * c.registers.direction.toInt ≤ 29524))
      (Stopped n room) (Instruction.fetchOperand mode fetchAhead c) := by
  have small : mode.operandSize ≤ 2 := by cases mode <;> decide
  unfold Instruction.fetchOperand
  generalize mode.operandSize = size at small ⊢
  match size, small with
  | 0, _ => exact ⟨sound, rfl, rfl, fun absurd => nomatch absurd⟩
  | 1, _ =>
    refine (meets_fetchAhead sound (by decide)).bind ?_
    rintro t d ⟨sound, same, last⟩
    exact ⟨sound, same, ⟨t.lower, t.upper⟩, fun _ => last⟩
  | 2, _ =>
    refine (meets_fetchAhead sound (by decide)).bind ?_
    rintro low d ⟨sound, same, -⟩
    refine (meets_fetchAhead sound (by decide)).bind ?_
    rintro high e ⟨sound, same', last⟩
    rw [same] at same' last
    let w := Word.ofHalves low high
    exact ⟨sound, same', ⟨w.lower, w.upper⟩, fun _ => last⟩

theorem safe_fetch : Safe n room fetch fun (i, value, last) =>
    Instruction.Holds i.operandSize value ∧ -29524 ≤ last ∧ last ≤ 29524 := by
  intro c sound
  unfold fetch
  refine Meets.bind (P := fun pc d => d = c ∧ pc = c.registers.pc) ⟨rfl, rfl⟩ ?_
  rintro _ _ ⟨rfl, rfl⟩
  refine (meets_onStore (Store.safe_read _) sound).bind ?_
  rintro t d ⟨sound, same, first⟩
  cases Instruction.decode t with
  | error cause => exact sound.stopped (by simp)
  | ok i =>
    refine (meets_fetchOperand sound i.mode).bind ?_
    rintro value e ⟨sound', same', holds, far⟩
    have near := i.operandSize_le
    refine Meets.bind (P := fun a? g => g = e ∧ a? = e.registers.ahead? i.operandSize)
      ⟨rfl, rfl⟩ ?_
    rintro _ _ ⟨rfl, rfl⟩
    rw [sound'.registers.ahead? near]
    refine ⟨sound', holds, ?_⟩
    rw [same', same]
    rw [same] at far
    by_cases bare : i.operandSize = 0
    · rw [bare]
      simpa using first
    · exact far (Nat.pos_of_ne_zero bare)

end Core

end TernaryMachine
