import TernaryMachine.Machine.Execution
import TernaryMachine.Proofs.Status

/-!
Properties that the actions of instructions have in common. Most instructions read operands, write
them and record what they did in the flags. A property that holds of these steps and that sequencing
keeps holds of the whole action, so that a fact about registers or store needs to be checked at the
steps only.
-/

set_option autoImplicit false
set_option relaxedAutoImplicit false

namespace TernaryMachine

namespace Core

/-- A change of the registers that leaves the program counter, the stack pointer and the run
direction, and that packs no more than nine flags. -/
structure Mild (f : Registers → Registers) : Prop where
  pc : ∀ r, (f r).pc = r.pc
  pointer : ∀ r, (f r).stackPointer = r.stackPointer
  direction : ∀ r, (f r).direction = r.direction
  flags : ∀ r : Registers, r.flags.Bounded → (f r).flags.Bounded

namespace Mild

theorem of_flags_eq {f : Registers → Registers} (pc : ∀ r, (f r).pc = r.pc)
    (pointer : ∀ r, (f r).stackPointer = r.stackPointer) (flags : ∀ r, (f r).flags = r.flags) :
    Mild f where
  pc := pc
  pointer := pointer
  direction r := congrArg (Flags.get · .direction) (flags r)
  flags r h := by
    rw [flags]
    exact h

theorem accumulator (v : Tryte) : Mild fun r => { r with accumulator := v } :=
  of_flags_eq (fun _ => rfl) (fun _ => rfl) fun _ => rfl

theorem indexX (v : Tryte) : Mild fun r => { r with indexX := v } :=
  of_flags_eq (fun _ => rfl) (fun _ => rfl) fun _ => rfl

theorem indexY (v : Tryte) : Mild fun r => { r with indexY := v } :=
  of_flags_eq (fun _ => rfl) (fun _ => rfl) fun _ => rfl

theorem setFlag {f : Flag} (h : f ≠ .direction) (t : Trit) :
    Mild fun r => { r with flags := r.flags.set f t } where
  pc _ := rfl
  pointer _ := rfl
  direction r := r.flags.get_set_of_ne h.symm t
  flags _ bounded := bounded.set f t

theorem recordResult (t : Tryte) : Mild fun r => { r with flags := r.flags.recordResult t } where
  pc _ := rfl
  pointer _ := rfl
  direction r := r.flags.direction_recordResult t
  flags _ bounded := bounded.recordResult t

theorem addWithCarry (addend : Tryte) : Mild fun r =>
    let sum := Tryte.add r.accumulator addend (r.flags.get .carry)
    { r with
      accumulator := sum.result
      flags := ((r.flags.set .carry sum.carry).set .overflow sum.overflow).recordResult
        sum.result } where
  pc _ := rfl
  pointer _ := rfl
  direction r := by
    refine (Flags.direction_recordResult _ _).trans ?_
    rw [Flags.get_set_of_ne _ (by decide), Flags.get_set_of_ne _ (by decide)]
    rfl
  flags _ bounded := ((bounded.set .carry _).set .overflow _).recordResult _

end Mild

/-- A property of actions that holds of the steps that instructions are built from, and that
sequencing keeps. -/
structure Closed (P : (α : Type) → Action α → Prop) : Prop where
  pure : ∀ {α : Type} (a : α), P α (pure a)
  bind : ∀ {α β : Type} {x : Action α} {f : α → Action β}, P α x → (∀ a, P β (f a)) →
    P β (x >>= f)
  ask : ∀ {α : Type} (f : Registers → α), P α (ask f)
  update : ∀ {f : Registers → Registers}, Mild f → P Unit (update f)
  read : ∀ a, P Tryte (onStore (Store.read a))
  write : ∀ a v, P Unit (onStore (Store.write a v))
  refuse : ∀ literal, P Unit (throw (.operandNotWritable literal))

namespace Closed

variable {P : (α : Type) → Action α → Prop}

theorem setFlag (closed : Closed P) {f : Flag} (h : f ≠ .direction) (t : Trit) :
    P Unit (setFlag f t) := closed.update (.setFlag h t)

theorem recordResult (closed : Closed P) (t : Tryte) : P Unit (recordResult t) :=
  closed.update (.recordResult t)

theorem readOperand (closed : Closed P) (o : Operand) : P Tryte (readOperand o) := by
  cases o with
  | accumulator | indexX | indexY => exact closed.ask _
  | address a => exact closed.read a
  | immediate literal => exact closed.pure literal

theorem writeOperand (closed : Closed P) (o : Operand) (v : Tryte) :
    P Unit (writeOperand o v) := by
  cases o with
  | accumulator => exact closed.update (.accumulator v)
  | indexX => exact closed.update (.indexX v)
  | indexY => exact closed.update (.indexY v)
  | address a => exact closed.write a v
  | immediate literal => exact closed.refuse literal

theorem modify (closed : Closed P) (o : Operand) (f : Tryte → Tryte) : P Unit (modify o f) :=
  closed.bind (closed.readOperand o) fun _ =>
    closed.bind (closed.writeOperand o _) fun _ => closed.recordResult _

theorem load (closed : Closed P) (target source : Operand) : P Unit (load target source) :=
  closed.bind (closed.readOperand source) fun _ =>
    closed.bind (closed.writeOperand target _) fun _ => closed.recordResult _

theorem save (closed : Closed P) (source target : Operand) : P Unit (save source target) :=
  closed.bind (closed.readOperand source) fun _ => closed.writeOperand target _

theorem compare (closed : Closed P) (register operand : Operand) :
    P Unit (compare register operand) :=
  closed.bind (closed.readOperand register) fun _ =>
    closed.bind (closed.readOperand operand) fun _ =>
      closed.bind (closed.setFlag (by decide) _) fun _ => closed.setFlag (by decide) _

theorem combine (closed : Closed P) (o : Operand) (f : Tryte → Tryte → Tryte) :
    P Unit (combine o f) :=
  closed.bind (closed.readOperand o) fun _ =>
    closed.bind (closed.ask _) fun _ =>
      closed.bind (closed.update (.accumulator _)) fun _ => closed.recordResult _

theorem shiftUp (closed : Closed P) (o : Operand) : P Unit (shiftUp o) :=
  closed.bind (closed.readOperand o) fun _ =>
    closed.bind (closed.ask _) fun _ =>
      closed.bind (closed.writeOperand o _) fun _ =>
        closed.bind (closed.setFlag (by decide) _) fun _ => closed.recordResult _

theorem shiftDown (closed : Closed P) (o : Operand) : P Unit (shiftDown o) :=
  closed.bind (closed.readOperand o) fun _ =>
    closed.bind (closed.ask _) fun _ =>
      closed.bind (closed.writeOperand o _) fun _ =>
        closed.bind (closed.setFlag (by decide) _) fun _ => closed.recordResult _

theorem performAlu (closed : Closed P) (op : AluOp) (o : Operand) :
    P AluEffect (performAlu op o) := by
  have proceed {x : Action Unit} (h : P Unit x) :
      P AluEffect (x >>= fun _ => Pure.pure AluEffect.proceed) :=
    closed.bind h fun _ => closed.pure _
  cases op with
  | lda | ldx | ldy => exact proceed (closed.load _ o)
  | sta | stx | sty => exact proceed (closed.save _ o)
  | adc | sbc =>
    exact closed.bind (closed.readOperand o) fun _ =>
      proceed (closed.update (.addWithCarry _))
  | inc | dec | nti | sti | pti | fd | rd => exact proceed (closed.modify o _)
  | cmp | cpx | cpy => exact proceed (closed.compare _ o)
  | ora | and | but | eor => exact proceed (closed.combine o _)
  | shl => exact proceed (closed.shiftUp o)
  | shr => exact proceed (closed.shiftDown o)
  | dnop => exact closed.pure _

end Closed

end Core

end TernaryMachine
