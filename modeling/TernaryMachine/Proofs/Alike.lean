import TernaryMachine.Proofs.Effects

/-!
Instructions on two machines side by side. Without peripherals, what an instruction does depends on
the registers and on the cells that it reads. So on two machines that differ in other cells only,
and in parts of the registers that the instruction does not look at, it succeeds with the same value
or fails with the same error, and leaves machines that differ in no more than that.
-/

set_option autoImplicit false
set_option relaxedAutoImplicit false

namespace TernaryMachine

/-- A relation between the registers of two machines under which data, stack pointer and flags are
the same, the run direction apart, and which the changes of data, stack pointer and flags keep. -/
structure Registers.Tame (R : Registers → Registers → Prop) : Prop where
  accumulator : ∀ {r s}, R r s → r.accumulator = s.accumulator
  indexX : ∀ {r s}, R r s → r.indexX = s.indexX
  indexY : ∀ {r s}, R r s → r.indexY = s.indexY
  pointer : ∀ {r s}, R r s → r.stackPointer = s.stackPointer
  flag : ∀ {r s}, R r s → ∀ f, f ≠ .direction → r.flags.get f = s.flags.get f
  setAccumulator : ∀ {r s}, R r s → ∀ v, R { r with accumulator := v } { s with accumulator := v }
  setIndexX : ∀ {r s}, R r s → ∀ v, R { r with indexX := v } { s with indexX := v }
  setIndexY : ∀ {r s}, R r s → ∀ v, R { r with indexY := v } { s with indexY := v }
  setPointer : ∀ {r s}, R r s → ∀ a, R { r with stackPointer := a } { s with stackPointer := a }
  setFlag : ∀ {r s}, R r s → ∀ f t,
    R { r with flags := r.flags.set f t } { s with flags := s.flags.set f t }

theorem Registers.tame_eq : Registers.Tame (· = ·) where
  accumulator := congrArg _
  indexX := congrArg _
  indexY := congrArg _
  pointer := congrArg _
  flag same f _ := by rw [same]
  setAccumulator same _ := by rw [same]
  setIndexX same _ := by rw [same]
  setIndexY same _ := by rw [same]
  setPointer same _ := by rw [same]
  setFlag same _ _ := by rw [same]

def AluOp.reads : AluOp → Bool
  | .sta | .stx | .sty | .dnop => false
  | _ => true

/-- Whether an instruction goes on with the next one in run direction, or halts, and neither packs nor
unpacks the flags. -/
def Instruction.isStraight : Instruction → Bool
  | .alu .. => true
  | .branch .. => false
  | .extended .php | .extended .plp | .extended .jsr | .extended .jmp | .extended .jmpInd
  | .extended .rts | .extended .intN | .extended .intZ | .extended .intP => false
  | .extended _ => true

def Core.pointerCells (c : Core) (mode : AddressMode) (value : Int) : List Int :=
  match mode with
  | .indirect | .indirectIndexedY => [value, value + 1]
  | .indexedXIndirect => [value + c.registers.indexX.val, value + c.registers.indexX.val + 1]
  | _ => []

/-- The cells that an instruction reads as data: those of a pointer, that of its operand and those
that it pulls. -/
def Instruction.reads (i : Instruction) (c : Core) : List Int :=
  (c.literal? i).elim [] (c.pointerCells i.mode)
    ++ (match i.alu?, c.place? i with
      | some op, some (.address a) => if op.reads then [a] else []
      | _, _ => [])
    ++ (List.range i.pulled).map fun k : Nat => c.registers.stackPointer - 1 - k

namespace Core

/-- Registers and store of two machines without peripherals: the registers are related, and all
cells are the same but those that are hidden. -/
structure Alike (hidden : Int → Prop) (R : Registers → Registers → Prop) (c d : Core) : Prop where
  registers : R c.registers d.registers
  cells : ∀ a, ¬ hidden a → c.store.get? a = d.store.get? a
  size : c.store.maxAddress = d.store.maxAddress
  unmapped : c.store.maps = []
  unmapped' : d.store.maps = []

inductive Together {α : Type} (P : α → Core → Core → Prop) (E : Core → Core → Prop) :
    EStateM.Result MachineError Core α → EStateM.Result MachineError Core α → Prop
  | ok {a : α} {c d : Core} (h : P a c d) : Together P E (.ok a c) (.ok a d)
  | error {e : MachineError} {c d : Core} (h : E c d) : Together P E (.error e c) (.error e d)

theorem Together.bind {α β : Type} {P : α → Core → Core → Prop} {E : Core → Core → Prop}
    {Q : β → Core → Core → Prop} {x y : Action α} {f g : α → Action β} {c d : Core}
    (first : Together P E (x c) (y d))
    (second : ∀ a c' d', x c = .ok a c' → P a c' d' → Together Q E (f a c') (g a d')) :
    Together Q E ((x >>= f) c) ((y >>= g) d) := by
  change Together Q E (EStateM.bind x f c) (EStateM.bind y g d)
  unfold EStateM.bind
  generalize x c = r at first second ⊢
  generalize y d = s at first ⊢
  cases first with
  | ok h => exact second _ _ _ rfl h
  | error h => exact .error h

theorem onStore_bind {α β : Type} (x : Store.Access α) (f : α → Store.Access β) :
    onStore (x >>= f) = onStore x >>= fun a => onStore (f a) := by
  funext ⟨registers, store⟩
  change onStore (EStateM.bind x f) _ = EStateM.bind (onStore x) (fun a => onStore (f a)) _
  unfold EStateM.bind onStore
  dsimp only
  cases x store with
  | ok a s => rfl
  | error e s => rfl

section Pairs

variable {hidden : Int → Prop} {R : Registers → Registers → Prop} {c d : Core}

namespace Alike

theorem contains (h : Alike hidden R c d) (a : Int) : c.store.Contains a ↔ d.store.Contains a := by
  unfold Store.Contains
  rw [h.size]

theorem outside (h : Alike hidden R c d) (a : Int) : c.store.outside a = d.store.outside a := by
  unfold Store.outside Store.minAddress
  rw [h.size]

theorem update (h : Alike hidden R c d) {r s : Registers} (related : R r s) :
    Alike hidden R { c with registers := r } { d with registers := s } where
  registers := related
  cells := h.cells
  size := h.size
  unmapped := h.unmapped
  unmapped' := h.unmapped'

theorem write (h : Alike hidden R c d) (a : Int) (v : Tryte) :
    Alike hidden R (c.assign (.address a) v) (d.assign (.address a) v) := by
  by_cases inside : c.store.Contains a
  · have inside' := (h.contains a).mp inside
    rw [assign, assign, dif_pos inside, dif_pos inside']
    refine ⟨h.registers, fun b visible => ?_, h.size, h.unmapped, h.unmapped'⟩
    change (c.store.put a inside v).get? b = (d.store.put a inside' v).get? b
    rw [Store.get?_put, Store.get?_put, h.cells b visible]
  · have outside : ¬ d.store.Contains a := fun there => inside ((h.contains a).mpr there)
    rw [assign, assign, dif_neg inside, dif_neg outside]
    exact h

end Alike

/-- An action that tells apart no two machines which are alike. -/
def Blind (hidden : Int → Prop) (R : Registers → Registers → Prop) {α : Type} (x : Action α) :
    Prop :=
  ∀ c d, Alike hidden R c d →
    Together (fun _ => Alike hidden R) (Alike hidden R) (x c) (x d)

namespace Blind

variable {α β : Type}

theorem pure (a : α) : Blind hidden R (pure a : Action α) := fun _ _ h => .ok h

theorem throw (e : MachineError) : Blind hidden R (throw e : Action α) := fun _ _ h => .error h

theorem bind {x : Action α} {f : α → Action β} (hx : Blind hidden R x)
    (hf : ∀ a, Blind hidden R (f a)) : Blind hidden R (x >>= f) :=
  fun c d h => (hx c d h).bind fun a c' d' _ h' => hf a c' d' h'

theorem ask {f : Registers → α} (same : ∀ r s, R r s → f r = f s) : Blind hidden R (ask f) := by
  intro c d h
  change Together _ _ (.ok (f c.registers) c) (.ok (f d.registers) d)
  rw [same _ _ h.registers]
  exact .ok h

theorem update {f : Registers → Registers} (kept : ∀ r s, R r s → R (f r) (f s)) :
    Blind hidden R (update f) := fun _ _ h => .ok (h.update (kept _ _ h.registers))

theorem andNext {x : Action Unit} (h : Blind hidden R x) : Blind hidden R (andNext x) :=
  .bind h fun _ => .pure _

theorem inRange (a? : Option α) : Blind hidden R (inRange a?) := by
  cases a? with
  | none => exact throw _
  | some a => exact pure a

theorem read {a : Int} (visible : ¬ hidden a) : Blind hidden R (onStore (Store.read a)) := by
  intro c d h
  rw [onStore_read_eq h.unmapped, onStore_read_eq h.unmapped', h.cells a visible, h.outside]
  cases d.store.get? a with
  | some v => exact .ok h
  | none => exact .error h

theorem readWord {a : Int} (low : ¬ hidden a) (high : ¬ hidden (a + 1)) :
    Blind hidden R (onStore (Store.readWord a)) := by
  unfold Store.readWord
  rw [onStore_bind]
  refine .bind (read low) fun low => ?_
  rw [onStore_bind]
  exact .bind (read high) fun high => pure (Word.ofHalves low high)

theorem write (a : Int) (v : Tryte) : Blind hidden R (onStore (Store.write a v)) := by
  intro c d h
  rw [onStore_write_eq h.unmapped, onStore_write_eq h.unmapped', h.outside]
  by_cases inside : c.store.Contains a
  · rw [if_pos inside, if_pos ((h.contains a).mp inside)]
    exact .ok (h.write a v)
  · rw [if_neg inside, if_neg fun there => inside ((h.contains a).mpr there)]
    exact .error h

end Blind

section Tame

variable (tame : Registers.Tame R)
include tame

theorem blind_readOperand {o : Operand} (visible : ∀ a, o = .address a → ¬ hidden a) :
    Blind hidden R (readOperand o) := by
  cases o with
  | accumulator => exact .ask fun _ _ => tame.accumulator
  | indexX => exact .ask fun _ _ => tame.indexX
  | indexY => exact .ask fun _ _ => tame.indexY
  | address a => exact .read (visible a rfl)
  | immediate literal => exact .pure literal

theorem blind_writeOperand (o : Operand) (v : Tryte) : Blind hidden R (writeOperand o v) := by
  cases o with
  | accumulator =>
    exact .update (f := fun r => { r with accumulator := v }) fun _ _ h => tame.setAccumulator h v
  | indexX =>
    exact .update (f := fun r => { r with indexX := v }) fun _ _ h => tame.setIndexX h v
  | indexY =>
    exact .update (f := fun r => { r with indexY := v }) fun _ _ h => tame.setIndexY h v
  | address a => exact .write a v
  | immediate literal => exact .throw _

theorem blind_setFlag (f : Flag) (t : Trit) : Blind hidden R (setFlag f t) :=
  .update fun _ _ h => tame.setFlag h f t

theorem blind_recordResult (v : Tryte) : Blind hidden R (recordResult v) :=
  .update fun _ _ h => tame.setFlag (tame.setFlag h .sign v.sign) .lowest v.lowest

theorem blind_flag {f : Flag} (other : f ≠ .direction) :
    Blind hidden R (ask fun r => r.flags.get f) := .ask fun _ _ h => tame.flag h f other

theorem blind_modify {o : Operand} (visible : ∀ a, o = .address a → ¬ hidden a)
    (f : Tryte → Tryte) : Blind hidden R (modify o f) :=
  .bind (blind_readOperand tame visible) fun _ =>
    .bind (blind_writeOperand tame o _) fun _ => blind_recordResult tame _

theorem blind_load (target : Operand) {source : Operand}
    (visible : ∀ a, source = .address a → ¬ hidden a) : Blind hidden R (load target source) :=
  .bind (blind_readOperand tame visible) fun _ =>
    .bind (blind_writeOperand tame target _) fun _ => blind_recordResult tame _

theorem blind_save {source : Operand} (visible : ∀ a, source = .address a → ¬ hidden a)
    (target : Operand) : Blind hidden R (save source target) :=
  .bind (blind_readOperand tame visible) fun _ => blind_writeOperand tame target _

theorem blind_addWithCarry (addend : Tryte) : Blind hidden R (addWithCarry addend) := by
  refine .update fun r s h => ?_
  dsimp only
  rw [tame.accumulator h, tame.flag h .carry (by decide)]
  exact tame.setFlag (tame.setFlag (tame.setFlag (tame.setFlag (tame.setAccumulator h _) .carry _)
    .overflow _) .sign _) .lowest _

theorem blind_compare {register o : Operand} (visible : ∀ a, register = .address a → ¬ hidden a)
    (visible' : ∀ a, o = .address a → ¬ hidden a) : Blind hidden R (compare register o) :=
  .bind (blind_readOperand tame visible) fun _ =>
    .bind (blind_readOperand tame visible') fun _ =>
      .bind (blind_setFlag tame _ _) fun _ => blind_setFlag tame _ _

theorem blind_combine {o : Operand} (visible : ∀ a, o = .address a → ¬ hidden a)
    (f : Tryte → Tryte → Tryte) : Blind hidden R (combine o f) :=
  .bind (blind_readOperand tame visible) fun _ =>
    .bind (.ask fun _ _ => tame.accumulator) fun _ =>
      .bind (.update fun _ _ h => tame.setAccumulator h _) fun _ => blind_recordResult tame _

theorem blind_shiftUp {o : Operand} (visible : ∀ a, o = .address a → ¬ hidden a) :
    Blind hidden R (shiftUp o) :=
  .bind (blind_readOperand tame visible) fun _ =>
    .bind (blind_flag tame (by decide)) fun _ =>
      .bind (blind_writeOperand tame o _) fun _ =>
        .bind (blind_setFlag tame _ _) fun _ => blind_recordResult tame _

theorem blind_shiftDown {o : Operand} (visible : ∀ a, o = .address a → ¬ hidden a) :
    Blind hidden R (shiftDown o) :=
  .bind (blind_readOperand tame visible) fun _ =>
    .bind (blind_flag tame (by decide)) fun _ =>
      .bind (blind_writeOperand tame o _) fun _ =>
        .bind (blind_setFlag tame _ _) fun _ => blind_recordResult tame _

theorem blind_performAlu (op : AluOp) {o : Operand}
    (visible : op.reads = true → ∀ a, o = .address a → ¬ hidden a) :
    Blind hidden R (performAlu op o) := by
  have proceed {x : Action Unit} (h : Blind hidden R x) :
      Blind hidden R (x >>= fun _ => Pure.pure AluEffect.proceed : Action AluEffect) :=
    .bind h fun _ => .pure _
  cases op with
  | lda | ldx | ldy => exact proceed (blind_load tame _ (visible rfl))
  | sta | stx | sty => exact proceed (blind_save tame nofun o)
  | adc | sbc =>
    exact .bind (blind_readOperand tame (visible rfl)) fun _ => proceed (blind_addWithCarry tame _)
  | inc | dec | nti | sti | pti | fd | rd => exact proceed (blind_modify tame (visible rfl) _)
  | cmp | cpx | cpy => exact proceed (blind_compare tame nofun (visible rfl))
  | ora | and | but | eor => exact proceed (blind_combine tame (visible rfl) _)
  | shl => exact proceed (blind_shiftUp tame (visible rfl))
  | shr => exact proceed (blind_shiftDown tame (visible rfl))
  | dnop => exact .pure _

theorem together_resolve (alike : Alike hidden R c d) {mode : AddressMode} {value : Int}
    (visible : ∀ a ∈ c.pointerCells mode value, ¬ hidden a) :
    Together (fun _ => Alike hidden R) (Alike hidden R) (resolve mode value c)
      (resolve mode value d) := by
  have indexX (base : Int) : Blind hidden R (ask fun r => r.plusX? base) :=
    .ask fun r s h => by unfold Registers.plusX?; rw [tame.indexX h]
  have indexY (base : Int) : Blind hidden R (ask fun r => r.plusY? base) :=
    .ask fun r s h => by unfold Registers.plusY?; rw [tame.indexY h]
  have address (a : Int) : Blind hidden R (pure (.address a) : Action Operand) := .pure _
  cases mode with
  | accumulator | absolute => exact .ok alike
  | immediate => exact (Blind.bind (.inRange _) fun _ => .pure _) c d alike
  | absoluteX =>
    exact (Blind.bind (indexX value) fun _ => .bind (.inRange _) fun a => address a) c d alike
  | absoluteY =>
    exact (Blind.bind (indexY value) fun _ => .bind (.inRange _) fun a => address a) c d alike
  | indirect =>
    have pointer := Blind.readWord (R := R) (visible value (by simp [pointerCells]))
      (visible (value + 1) (by simp [pointerCells]))
    exact (Blind.bind pointer fun w => address w.val) c d alike
  | indexedXIndirect =>
    refine ((indexX value) c d alike).bind ?_
    rintro pointer? c' d' ⟨⟩ alike'
    dsimp only
    cases found : c.registers.plusX? value with
    | none => exact Together.error (e := .rangeFault) alike'
    | some a =>
      obtain ⟨-, same⟩ := Signed32.check?_eq_some_iff.mp found
      have pointer : Blind hidden R (onStore (Store.readWord a)) :=
        .readWord (visible a (by simp [pointerCells, same]))
          (visible (a + 1) (by simp [pointerCells, same]))
      exact (Blind.bind pointer fun w => address w.val) c d' alike'
  | indirectIndexedY =>
    have pointer := Blind.readWord (R := R) (visible value (by simp [pointerCells]))
      (visible (value + 1) (by simp [pointerCells]))
    exact (Blind.bind pointer fun w => .bind (indexY w.val) fun _ => .bind (.inRange _) fun a =>
      address a) c d alike

theorem blind_push (v : Tryte) : Blind hidden R (onStack (Stack.push v)) := by
  intro c d h
  have same := tame.pointer h.registers
  rw [onStack_push_eq h.unmapped, onStack_push_eq h.unmapped', ← same, h.outside]
  by_cases inside : c.store.Contains c.registers.stackPointer
  · rw [if_pos inside, if_pos ((h.contains _).mp inside)]
    have written := h.write c.registers.stackPointer v
    refine .ok ?_
    unfold push
    rw [← same]
    exact written.update (tame.setPointer written.registers _)
  · rw [if_neg inside, if_neg fun there => inside ((h.contains _).mpr there)]
    exact .error h

theorem together_pull (alike : Alike hidden R c d)
    (visible : ¬ hidden (c.registers.stackPointer - 1)) :
    Together (fun _ => Alike hidden R) (Alike hidden R) (onStack Stack.pull c)
      (onStack Stack.pull d) := by
  rw [onStack_pull_eq alike.unmapped, onStack_pull_eq alike.unmapped',
    ← tame.pointer alike.registers]
  cases below : Signed32.add? c.registers.stackPointer (-1) with
  | none => exact .error alike
  | some a =>
    obtain ⟨-, rfl⟩ := Signed32.check?_eq_some_iff.mp below
    rw [← Int.sub_eq_add_neg]
    have moved : Alike hidden R (c.withPointer (c.registers.stackPointer - 1))
        (d.withPointer (c.registers.stackPointer - 1)) :=
      alike.update (tame.setPointer alike.registers _)
    dsimp only
    rw [alike.cells _ visible, alike.outside]
    cases d.store.get? (c.registers.stackPointer - 1) with
    | some v => exact .ok moved
    | none => exact .error moved

/-- A straight instruction does the same on two machines that are alike in all that it reads, in
whichever direction it was fetched. -/
theorem together_perform (alike : Alike hidden R c d) {i : Instruction}
    (straight : i.isStraight = true) {value : Int} (literal : c.literal? i = some value)
    (visible : ∀ a ∈ i.reads c, ¬ hidden a) (last last' : Int) :
    Together (fun _ => Alike hidden R) (Alike hidden R) (perform i value last c)
      (perform i value last' d) := by
  have resolved : Together (fun _ => Alike hidden R) (Alike hidden R) (resolve i.mode value c)
      (resolve i.mode value d) := by
    refine together_resolve tame alike fun a mem => visible a ?_
    simp [Instruction.reads, literal, mem]
  have place {o : Operand} {c' : Core} (found : resolve i.mode value c = .ok o c') :
      c.place? i = some o := by
    have met := meets_resolve alike.unmapped i.mode value
    rw [found] at met
    exact place?_of_literal literal met.2
  have seen {op : AluOp} (arithmetic : i.alu? = some op) {o : Operand} {c' : Core}
      (found : resolve i.mode value c = .ok o c') (reads : op.reads = true) (a : Int)
      (here : o = .address a) : ¬ hidden a := by
    apply visible
    simp [Instruction.reads, arithmetic, place found, here, reads]
  have pushed {f : Registers → Tryte} (same : ∀ r s, R r s → f r = f s) :
      Blind hidden R (pushRegister f) := .andNext (.bind (.ask same) fun v => blind_push tame v)
  cases i with
  | alu op mode =>
    refine resolved.bind fun o c' d' found alike' => ?_
    refine ((blind_performAlu tame op (seen rfl found)) c' d' alike').bind ?_
    rintro (_ | _) c' d' - alike''
    · exact .ok alike''
    · exact .ok alike''
  | branch flag comparison digit => cases straight
  | extended op =>
    change Together _ _ (performExtended op value last c) (performExtended op value last' d)
    unfold performExtended
    cases further : op.alu? with
    | some alu =>
      refine Together.bind (resolved.bind fun o c' d' found alike' => ?_) fun _ _ _ _ h => .ok h
      exact (Blind.bind (blind_performAlu tame alu (seen further found)) fun _ => .pure _)
        c' d' alike'
    | none =>
      cases op with
      | php | plp | jsr | jmp | jmpInd | rts | intN | intZ | intP => cases straight
      | ldaIndY | ldaX | ldaY | ldaXInd | staIndY | staX | staY | staXInd | cmpIndY | cmpX | cmpY
      | ldxY | ldyX | stxY | styX => cases further
      | haltN | haltZ | haltP =>
        exact (Blind.bind (blind_setFlag tame .haltCode _) fun _ =>
          .bind (blind_setFlag tame .direction _) fun _ => .pure _) c d alike
      | stz | stzX | stzY | stzIndY | stzXInd =>
        refine Together.bind (resolved.bind fun o c' d' _ alike' => ?_) fun _ _ _ _ h => .ok h
        exact blind_writeOperand tame o Tryte.zero c' d' alike'
      | clc | secp | secn | clv | cli | sein | seip | cld | sedp | sedn =>
        exact Blind.andNext (blind_setFlag tame _ _) c d alike
      | nop => exact .ok alike
      | tax | tay | txa | tya =>
        exact Blind.andNext (.bind (blind_readOperand tame (by simp)) fun _ =>
          blind_modify tame (by simp) _) c d alike
      | inx | iny | dex | dey => exact Blind.andNext (blind_modify tame (by simp) _) c d alike
      | txys =>
        refine Blind.andNext (.update (f := fun r => { r with stackPointer := r.pointerWord.val })
          fun r s h => ?_) c d alike
        have same : r.pointerWord = s.pointerWord := by
          rw [Registers.pointerWord, tame.indexX h, tame.indexY h]
          rfl
        rw [same]
        exact tame.setPointer h s.pointerWord.val
      | tsxy =>
        exact Blind.andNext (.bind (.ask fun _ _ h => tame.pointer h) fun p => .bind (.inRange _)
          fun _ => .update (f := fun r =>
            { r with indexX := Tryte.ofDigits p 0, indexY := Tryte.ofDigits p 5 })
            fun _ _ h => tame.setIndexY (tame.setIndexX h (Tryte.ofDigits p 0))
              (Tryte.ofDigits p 5)) c d alike
      | pha => exact pushed (fun _ _ => tame.accumulator) c d alike
      | phx => exact pushed (fun _ _ => tame.indexX) c d alike
      | phy => exact pushed (fun _ _ => tame.indexY) c d alike
      | pla | plx | ply =>
        have top : ¬ hidden (c.registers.stackPointer - 1) := by
          refine visible _ (List.mem_append_right _ ?_)
          exact List.mem_singleton.mpr (Int.sub_zero _).symm
        refine Together.bind ((together_pull tame alike top).bind fun v c' d' _ alike' => ?_)
          fun _ _ _ _ h => .ok h
        exact blind_modify tame (by simp) _ c' d' alike'

end Tame

end Pairs

end Core

end TernaryMachine
