import TernaryMachine.Proofs.Bounds
import TernaryMachine.Proofs.Interrupts

/-!
Registers and store without peripherals as places that hold trytes. Reading a place changes nothing,
and writing one changes that place alone; either fails without a trace. From these two laws it is
told what the actions of instructions make of the place of their operand, of the flags and of the
stack, when they succeed and when they fail.
-/

set_option autoImplicit false
set_option relaxedAutoImplicit false

namespace TernaryMachine

namespace Flags

theorem get_set (s : Flags) (f g : Flag) (t : Trit) :
    (s.set f t).get g = if g = f then t else s.get g := by
  by_cases same : g = f
  · rw [if_pos same, same]
    exact s.get_set_self f t
  · rw [if_neg same]
    exact s.get_set_of_ne same t

/-- The listed flags have the listed digits, and every other flag is as it was. -/
def Changes (before after : Flags) (digits : List (Flag × Trit)) : Prop :=
  ∀ f, after.get f = (digits.lookup f).getD (before.get f)

namespace Changes

variable {s s' : Flags} {digits : List (Flag × Trit)}

theorem refl (s : Flags) : Changes s s [] := fun _ => rfl

theorem set (h : Changes s s' digits) (f : Flag) (t : Trit) :
    Changes s (s'.set f t) ((f, t) :: digits) := by
  intro g
  rw [get_set, List.lookup_cons]
  by_cases same : g = f
  · rw [if_pos same, same, beq_self_eq_true]
    rfl
  · rw [if_neg same, beq_false_of_ne same]
    exact h g

theorem recordResult (h : Changes s s' digits) (v : Tryte) :
    Changes s (s'.recordResult v) ((.lowest, v.lowest) :: (.sign, v.sign) :: digits) :=
  (h.set .sign v.sign).set .lowest v.lowest

end Changes

theorem get_take (n : Int) (f : Flag) :
    (Flags.mk (Digits.value (Digits.take 9 n))).get f = Digits.trit n f.index := by
  have digit (k i : Nat) (n : Int) (below : i < k) :
      Digits.trit (Digits.value (Digits.take k n)) i = Digits.trit n i := by
    induction k generalizing i n with
    | zero => exact absurd below (Nat.not_lt_zero i)
    | succ k ih =>
      obtain ⟨low, rest⟩ := Digits.eq_of_rest_low
        (show 3 * Digits.value (Digits.take k (Digits.rest n)) + (Digits.low n).toInt
          = Digits.value (Digits.take (k + 1) n) by rw [Digits.take, Digits.value]; omega)
      cases i with
      | zero => exact low
      | succ i =>
        change Digits.trit (Digits.rest _) i = Digits.trit (Digits.rest n) i
        rw [rest]
        exact ih i (Digits.rest n) (Nat.lt_of_succ_lt_succ below)
  have below : f.index < 9 := by cases f <;> decide
  exact digit 9 f.index n below

theorem get_ofWord (w : Word) (f : Flag) : (ofWord w).get f = Digits.trit w.val f.index :=
  get_take w.val f

end Flags

theorem Meets.imp {ε σ α : Type} {r : EStateM.Result ε σ α} {P Q : α → σ → Prop}
    {F G : ε → σ → Prop} (h : Meets P F r) (ok : ∀ a s, P a s → Q a s)
    (failed : ∀ e s, F e s → G e s) : Meets Q G r := by
  cases r with
  | ok a s => exact ok a s h
  | error e s => exact failed e s h

theorem Meets.imp_failed {ε σ α : Type} {r : EStateM.Result ε σ α} {P : α → σ → Prop}
    {F G : ε → σ → Prop} (h : Meets P F r) (failed : ∀ e s, F e s → G e s) : Meets P G r :=
  h.imp (fun _ _ met => met) failed

namespace Core

/-- The tryte at a place, unless the place lies outside of the store. A literal is its own value. -/
def valueAt? (c : Core) : Operand → Option Tryte
  | .accumulator => some c.registers.accumulator
  | .indexX => some c.registers.indexX
  | .indexY => some c.registers.indexY
  | .address a => c.store.get? a
  | .immediate literal => some literal

def Writable (c : Core) : Operand → Prop
  | .address a => c.store.Contains a
  | .immediate _ => False
  | _ => True

/-- Another tryte at a place, if the place can be written. -/
def assign (c : Core) (p : Operand) (v : Tryte) : Core :=
  match p with
  | .accumulator => { c with registers.accumulator := v }
  | .indexX => { c with registers.indexX := v }
  | .indexY => { c with registers.indexY := v }
  | .address a => if h : c.store.Contains a then { c with store := c.store.put a h v } else c
  | .immediate _ => c

def withFlags (c : Core) (s : Flags) : Core := { c with registers.flags := s }

def withPointer (c : Core) (a : Int) : Core := { c with registers.stackPointer := a }

def withPc (c : Core) (a : Int) : Core := { c with registers.pc := a }

def record (c : Core) (v : Tryte) : Core := c.withFlags (c.registers.flags.recordResult v)

section Laws

variable (c : Core) (p q : Operand) (v : Tryte) (s : Flags) (a : Int)

@[simp] theorem valueAt?_withFlags : (c.withFlags s).valueAt? p = c.valueAt? p := by
  cases p <;> rfl

@[simp] theorem valueAt?_withPointer : (c.withPointer a).valueAt? p = c.valueAt? p := by
  cases p <;> rfl

@[simp] theorem valueAt?_withPc : (c.withPc a).valueAt? p = c.valueAt? p := by
  cases p <;> rfl

@[simp] theorem flags_withFlags : (c.withFlags s).registers.flags = s := rfl

@[simp] theorem pointer_withPointer : (c.withPointer a).registers.stackPointer = a := rfl

theorem registers_assign_address :
    (c.assign (.address a) v).registers = c.registers := by
  dsimp only [assign]
  split <;> rfl

@[simp] theorem flags_assign : (c.assign p v).registers.flags = c.registers.flags := by
  cases p with
  | address a => rw [registers_assign_address]
  | _ => rfl

@[simp] theorem pc_assign : (c.assign p v).registers.pc = c.registers.pc := by
  cases p with
  | address a => rw [registers_assign_address]
  | _ => rfl

@[simp] theorem pointer_assign :
    (c.assign p v).registers.stackPointer = c.registers.stackPointer := by
  cases p with
  | address a => rw [registers_assign_address]
  | _ => rfl

@[simp] theorem maps_assign : (c.assign p v).store.maps = c.store.maps := by
  cases p with
  | address a =>
    dsimp only [assign]
    split <;> rfl
  | _ => rfl

@[simp] theorem contains_assign : (c.assign p v).store.Contains a ↔ c.store.Contains a := by
  cases p with
  | address b =>
    dsimp only [assign]
    split <;> rfl
  | _ => rfl

variable {c p q}

theorem valueAt?_assign_self (writable : c.Writable p) : (c.assign p v).valueAt? p = some v := by
  cases p with
  | address a =>
    have contains : c.store.Contains a := writable
    change (c.assign (.address a) v).store.get? a = some v
    rw [assign, dif_pos contains]
    exact (Store.get?_put _ _ _ contains v).trans (if_pos rfl)
  | immediate literal => exact absurd writable id
  | _ => rfl

theorem valueAt?_assign_of_ne (differ : q ≠ p) : (c.assign p v).valueAt? q = c.valueAt? q := by
  cases p with
  | address a =>
    dsimp only [assign]
    split
    · rename_i contains
      cases q with
      | address b =>
        have apart : b ≠ a := fun same => differ (congrArg Operand.address same)
        change (c.store.put a contains v).get? b = c.store.get? b
        rw [Store.get?_put, if_neg apart]
      | _ => rfl
    · rfl
  | immediate literal => rfl
  | _ => cases q <;> first | rfl | exact absurd rfl differ

end Laws

def Untouched (c : Core) (_ : MachineError) (d : Core) : Prop := d = c

def operand? (c : Core) (mode : AddressMode) (value : Int) : Option Operand :=
  match mode with
  | .accumulator => some .accumulator
  | .immediate => (Tryte.ofInt? value).map .immediate
  | .absolute => some (.address value)
  | .absoluteX => some (.address (value + c.registers.indexX.val))
  | .absoluteY => some (.address (value + c.registers.indexY.val))
  | .indirect => (c.store.peekWord value).toOption.map fun w => .address w.val
  | .indexedXIndirect =>
    (c.store.peekWord (value + c.registers.indexX.val)).toOption.map fun w => .address w.val
  | .indirectIndexedY =>
    (c.store.peekWord value).toOption.map fun w => .address (w.val + c.registers.indexY.val)

variable {c : Core} {α : Type}

theorem Meets.ask (f : Registers → α) (failed : MachineError → Core → Prop) :
    Meets (fun a d => d = c ∧ a = f c.registers) failed (ask f c) := ⟨rfl, rfl⟩

theorem meets_inRange (a? : Option α) :
    Meets (fun a d => d = c ∧ a? = some a) (Untouched c) (inRange a? c) := by
  cases a? with
  | none => exact rfl
  | some a => exact ⟨rfl, rfl⟩

section Unmapped

variable (unmapped : c.store.maps = [])
include unmapped

theorem onStore_read_eq (a : Int) : onStore (Store.read a) c = match c.store.get? a with
    | some v => .ok v c
    | none => .error (.memory (c.store.outside a)) c := by
  obtain ⟨registers, store⟩ := c
  have read : Store.read a store = _ := Store.read_eq_peek unmapped a
  simp only [onStore, read, Store.peek]
  cases store.get? a with
  | some v => rfl
  | none => rfl

theorem onStore_write_eq (a : Int) (v : Tryte) :
    onStore (Store.write a v) c = if c.store.Contains a then .ok () (c.assign (.address a) v)
      else .error (.memory (c.store.outside a)) c := by
  obtain ⟨registers, store⟩ := c
  have silent : store.writeListener? a = none := Store.writeListener?_of_unmapped unmapped a
  by_cases contains : store.Contains a
  · simp [onStore, Store.write, contains, silent, assign]
  · simp [onStore, Store.write, contains]

theorem meets_readWord (a : Int) :
    Meets (fun w d => d = c ∧ c.store.peekWord a = .ok w) (Untouched c)
      (onStore (Store.readWord a) c) := by
  rw [onStore_readWord unmapped]
  cases c.store.peekWord a with
  | ok w => exact ⟨rfl, rfl⟩
  | error e => exact rfl

theorem meets_readOperand (o : Operand) :
    Meets (fun v d => d = c ∧ c.valueAt? o = some v) (Untouched c) (readOperand o c) := by
  cases o with
  | accumulator | indexX | indexY | immediate => exact ⟨rfl, rfl⟩
  | address a =>
    change Meets _ _ (onStore (Store.read a) c)
    rw [onStore_read_eq unmapped, valueAt?]
    cases c.store.get? a with
    | some v => exact ⟨rfl, rfl⟩
    | none => exact rfl

theorem meets_writeOperand (o : Operand) (v : Tryte) :
    Meets (fun _ d => c.Writable o ∧ d = c.assign o v) (Untouched c) (writeOperand o v c) := by
  cases o with
  | accumulator | indexX | indexY => exact ⟨trivial, rfl⟩
  | immediate literal => exact rfl
  | address a =>
    change Meets _ _ (onStore (Store.write a v) c)
    rw [onStore_write_eq unmapped]
    split
    · rename_i contains
      exact ⟨contains, rfl⟩
    · exact rfl

theorem meets_modify (o : Operand) (f : Tryte → Tryte) :
    Meets (fun _ d => ∃ v, c.valueAt? o = some v ∧ c.Writable o
      ∧ d = (c.assign o (f v)).record (f v)) (Untouched c) (modify o f c) := by
  refine (meets_readOperand unmapped o).bind ?_
  rintro v _ ⟨rfl, value⟩
  refine (meets_writeOperand unmapped o (f v)).bind ?_
  rintro _ _ ⟨writable, rfl⟩
  exact ⟨v, value, writable, rfl⟩

theorem meets_load (target source : Operand) :
    Meets (fun _ d => ∃ v, c.valueAt? source = some v ∧ c.Writable target
      ∧ d = (c.assign target v).record v) (Untouched c) (load target source c) := by
  refine (meets_readOperand unmapped source).bind ?_
  rintro v _ ⟨rfl, value⟩
  refine (meets_writeOperand unmapped target v).bind ?_
  rintro _ _ ⟨writable, rfl⟩
  exact ⟨v, value, writable, rfl⟩

theorem meets_save (source target : Operand) :
    Meets (fun _ d => ∃ v, c.valueAt? source = some v ∧ c.Writable target
      ∧ d = c.assign target v) (Untouched c) (save source target c) := by
  refine (meets_readOperand unmapped source).bind ?_
  rintro v _ ⟨rfl, value⟩
  refine (meets_writeOperand unmapped target v).weaken ?_
  rintro _ _ ⟨writable, rfl⟩
  exact ⟨v, value, writable, rfl⟩

theorem meets_compare (register o : Operand) :
    Meets (fun _ d => ∃ a b, c.valueAt? register = some a ∧ c.valueAt? o = some b
      ∧ d = c.withFlags ((c.registers.flags.set .sign (Trit.ofSign (a.val - b.val))).set .lowest
        (Tryte.add a (-b) .zero).result.lowest)) (Untouched c) (compare register o c) := by
  refine (meets_readOperand unmapped register).bind ?_
  rintro a _ ⟨rfl, first⟩
  refine (meets_readOperand unmapped o).bind ?_
  rintro b _ ⟨rfl, second⟩
  exact ⟨a, b, first, second, rfl⟩

theorem meets_combine (o : Operand) (f : Tryte → Tryte → Tryte) :
    Meets (fun _ d => ∃ v, d = (c.assign .accumulator v).record v) (Untouched c)
      (combine o f c) := by
  refine (meets_readOperand unmapped o).bind ?_
  rintro v _ ⟨rfl, -⟩
  exact ⟨_, rfl⟩

private theorem meets_shift (o : Operand) (fill : Registers → Trit)
    (shift : Tryte → Trit → Tryte) (f : Flag) (lost : Tryte → Trit) :
    Meets (fun _ d => ∃ old new, c.valueAt? o = some old ∧ c.Writable o
      ∧ d = ((c.assign o new).withFlags (c.registers.flags.set f (lost old))).record new)
      (Untouched c)
      ((do
        let v ← readOperand o
        let result := shift v (← ask fill)
        writeOperand o result
        setFlag f (lost v)
        recordResult result : Action Unit) c) := by
  refine (meets_readOperand unmapped o).bind ?_
  rintro old d ⟨same, value⟩
  rw [same]
  refine Meets.bind (Meets.ask _ _) ?_
  rintro digit d ⟨same, -⟩
  rw [same]
  refine (meets_writeOperand unmapped o (shift old digit)).bind ?_
  rintro _ _ ⟨writable, rfl⟩
  refine ⟨old, shift old digit, value, writable, ?_⟩
  rw [← flags_assign c o (shift old digit)]
  rfl

theorem meets_shiftUp (o : Operand) :
    Meets (fun _ d => ∃ old new, c.valueAt? o = some old ∧ c.Writable o
      ∧ d = ((c.assign o new).withFlags (c.registers.flags.set .carry (old.trit 4))).record new)
      (Untouched c) (shiftUp o c) :=
  meets_shift unmapped o (fun r => r.flags.get .data) Tryte.shiftUp .carry fun v => v.trit 4

theorem meets_shiftDown (o : Operand) :
    Meets (fun _ d => ∃ old new, c.valueAt? o = some old ∧ c.Writable o
      ∧ d = ((c.assign o new).withFlags (c.registers.flags.set .data (old.trit 0))).record new)
      (Untouched c) (shiftDown o c) :=
  meets_shift unmapped o (fun r => r.flags.get .carry) Tryte.shiftDown .data fun v => v.trit 0

theorem meets_resolve (mode : AddressMode) (value : Int) :
    Meets (fun o d => d = c ∧ c.operand? mode value = some o) (Untouched c)
      (resolve mode value c) := by
  have sum {a? : Option Int} {a b : Int} (h : a? = Signed32.add? a b) {n : Int}
      (some : a? = some n) : n = a + b := by
    rw [h] at some
    exact (Signed32.check?_eq_some_iff.mp some).2.symm
  cases mode with
  | accumulator | absolute => exact ⟨rfl, rfl⟩
  | immediate =>
    refine (meets_inRange (Tryte.ofInt? value)).bind ?_
    rintro literal _ ⟨rfl, found⟩
    exact ⟨rfl, congrArg (Option.map Operand.immediate) found⟩
  | absoluteX | absoluteY =>
    refine Meets.bind (Meets.ask _ _) ?_
    rintro a? _ ⟨rfl, indexed⟩
    refine (meets_inRange a?).bind ?_
    rintro a _ ⟨rfl, found⟩
    exact ⟨rfl, by rw [sum indexed found]; rfl⟩
  | indirect =>
    refine (meets_readWord unmapped value).bind ?_
    rintro w _ ⟨rfl, pointer⟩
    exact ⟨rfl, by rw [operand?, pointer]; rfl⟩
  | indexedXIndirect =>
    refine Meets.bind (Meets.ask _ _) ?_
    rintro a? _ ⟨rfl, indexed⟩
    refine (meets_inRange a?).bind ?_
    rintro a _ ⟨rfl, found⟩
    refine (meets_readWord unmapped a).bind ?_
    rintro w _ ⟨rfl, pointer⟩
    rw [sum indexed found] at pointer
    exact ⟨rfl, by rw [operand?, pointer]; rfl⟩
  | indirectIndexedY =>
    refine (meets_readWord unmapped value).bind ?_
    rintro w _ ⟨rfl, pointer⟩
    refine Meets.bind (Meets.ask _ _) ?_
    rintro a? _ ⟨rfl, indexed⟩
    refine (meets_inRange a?).bind ?_
    rintro a _ ⟨rfl, found⟩
    exact ⟨rfl, by rw [operand?, pointer, sum indexed found]; rfl⟩

end Unmapped

def push (c : Core) (v : Tryte) : Core :=
  (c.assign (.address c.registers.stackPointer) v).withPointer (c.registers.stackPointer + 1)

@[simp] theorem pointer_push (c : Core) (v : Tryte) :
    (c.push v).registers.stackPointer = c.registers.stackPointer + 1 := rfl

@[simp] theorem flags_push (c : Core) (v : Tryte) :
    (c.push v).registers.flags = c.registers.flags :=
  flags_assign c (.address c.registers.stackPointer) v

theorem flags_pushWord (c : Core) (w : Word) :
    ((c.push w.low).push w.high).registers.flags = c.registers.flags := by simp

@[simp] theorem maps_push (c : Core) (v : Tryte) :
    (c.push v).store.maps = c.store.maps :=
  maps_assign c (.address c.registers.stackPointer) v

@[simp] theorem contains_push (c : Core) (v : Tryte) (a : Int) :
    (c.push v).store.Contains a ↔ c.store.Contains a :=
  contains_assign c (.address c.registers.stackPointer) v a

theorem onStack_bind {β : Type} (x : Stack.Access α) (f : α → Stack.Access β) :
    onStack (x >>= f) = onStack x >>= fun a => onStack (f a) := by
  funext ⟨registers, store⟩
  change onStack (EStateM.bind x f) _ = EStateM.bind (onStack x) (fun a => onStack (f a)) _
  unfold EStateM.bind onStack
  dsimp only
  cases x ⟨store, registers.stackPointer⟩ with
  | ok a s => rfl
  | error e s => cases e <;> rfl

theorem onStack_pull_eq (unmapped : c.store.maps = []) :
    onStack Stack.pull c = match Signed32.add? c.registers.stackPointer (-1) with
      | none => .error .rangeFault c
      | some a => match c.store.get? a with
        | some v => .ok v (c.withPointer a)
        | none => .error (.memory (c.store.outside a)) (c.withPointer a) := by
  obtain ⟨registers, store⟩ := c
  have read (a : Int) : Store.read a store = _ := Store.read_eq_peek unmapped a
  dsimp only [onStack, Stack.pull, bind, EStateM.bind, Stack.movePointer, Stack.top,
    Stack.onStore]
  cases Signed32.add? registers.stackPointer (-1) with
  | none => rfl
  | some a =>
    simp only [read, Store.peek]
    cases store.get? a with
    | some v => rfl
    | none => rfl

theorem onStack_push_eq (unmapped : c.store.maps = []) (v : Tryte) :
    onStack (Stack.push v) c = if c.store.Contains c.registers.stackPointer then .ok () (c.push v)
      else .error (.memory (c.store.outside c.registers.stackPointer)) c := by
  have write := onStore_write_eq unmapped c.registers.stackPointer v
  obtain ⟨registers, store⟩ := c
  dsimp only [onStore] at write
  dsimp only [onStack, Stack.push, bind, EStateM.bind, Stack.movePointer, Stack.top,
    Stack.onStore]
  by_cases contains : store.Contains registers.stackPointer
  · rw [if_pos contains] at write ⊢
    have above : Signed32.add? registers.stackPointer 1 = some (registers.stackPointer + 1) := by
      have bounds := Store.bounds_of_contains contains
      exact add?_of_near (by omega) (by omega)
    cases written : Store.write registers.stackPointer v store with
    | error e s =>
      rw [written] at write
      cases write
    | ok _ s =>
      rw [written] at write
      have same : _ = (Core.mk registers store).assign (.address registers.stackPointer) v :=
        (EStateM.Result.ok.inj write).2
      simp only [above, push]
      rw [← same]
      rfl
  · rw [if_neg contains] at write ⊢
    cases written : Store.write registers.stackPointer v store with
    | ok _ s =>
      rw [written] at write
      cases write
    | error e s =>
      rw [written] at write
      obtain ⟨same, rest⟩ := EStateM.Result.error.inj write
      cases same
      cases rest
      rfl

section Unmapped

variable (unmapped : c.store.maps = [])
include unmapped

theorem meets_push (v : Tryte) :
    Meets (fun _ d => c.store.Contains c.registers.stackPointer ∧ d = c.push v)
      (fun _ d => ¬ c.store.Contains c.registers.stackPointer ∧ d = c)
      (onStack (Stack.push v) c) := by
  rw [onStack_push_eq unmapped]
  split
  · rename_i contains
    exact ⟨contains, rfl⟩
  · rename_i outside
    exact ⟨outside, rfl⟩

theorem meets_pull :
    Meets (fun v d => c.store.get? (c.registers.stackPointer - 1) = some v
        ∧ d = c.withPointer (c.registers.stackPointer - 1))
      (fun e d => (e = .rangeFault ∧ Signed32.add? c.registers.stackPointer (-1) = none ∧ d = c)
        ∨ ¬ c.store.Contains (c.registers.stackPointer - 1)
          ∧ d = c.withPointer (c.registers.stackPointer - 1))
      (onStack Stack.pull c) := by
  rw [onStack_pull_eq unmapped]
  cases below : Signed32.add? c.registers.stackPointer (-1) with
  | none => exact .inl ⟨rfl, rfl, rfl⟩
  | some a =>
    obtain ⟨-, rfl⟩ := Signed32.check?_eq_some_iff.mp below
    rw [← Int.sub_eq_add_neg]
    dsimp only
    cases cell : c.store.get? (c.registers.stackPointer - 1) with
    | some v => exact ⟨rfl, rfl⟩
    | none => exact .inr ⟨Store.get?_eq_none_iff.mp cell, rfl⟩

theorem meets_pushWord (w : Word) :
    Meets (fun _ d => d = (c.push w.low).push w.high)
      (fun _ d => d = c ∨ c.store.Contains c.registers.stackPointer
        ∧ ¬ c.store.Contains (c.registers.stackPointer + 1) ∧ d = c.push w.low)
      (onStack (Stack.pushWord w) c) := by
  unfold Stack.pushWord
  rw [onStack_bind]
  refine Meets.bind (P := fun _ d => c.store.Contains c.registers.stackPointer ∧ d = c.push w.low)
    ((meets_push unmapped w.low).imp_failed fun _ _ h => .inl h.2) ?_
  rintro _ _ ⟨contains, rfl⟩
  refine (meets_push (c := c.push w.low) ((maps_push c w.low).trans unmapped) w.high).imp ?_ ?_
  · rintro _ _ ⟨-, rfl⟩
    rfl
  · rintro _ _ ⟨outside, rfl⟩
    rw [contains_push, pointer_push] at outside
    exact .inr ⟨contains, outside, rfl⟩

theorem meets_pullWord :
    Meets (fun w d => ∃ low high, c.store.get? (c.registers.stackPointer - 1) = some high
        ∧ c.store.get? (c.registers.stackPointer - 2) = some low
        ∧ w = Word.ofHalves low high ∧ d = c.withPointer (c.registers.stackPointer - 2))
      (fun e d => (e = .rangeFault ∧ d = c)
        ∨ (¬ c.store.Contains (c.registers.stackPointer - 1)
          ∧ d = c.withPointer (c.registers.stackPointer - 1))
        ∨ c.store.Contains (c.registers.stackPointer - 1)
          ∧ ¬ c.store.Contains (c.registers.stackPointer - 2)
          ∧ d = c.withPointer (c.registers.stackPointer - 2))
      (onStack Stack.pullWord c) := by
  unfold Stack.pullWord
  rw [onStack_bind]
  refine Meets.bind ((meets_pull unmapped).imp_failed fun _ _ h =>
    h.imp (fun fault => ⟨fault.1, fault.2.2⟩) .inl) ?_
  rintro high _ ⟨first, rfl⟩
  have contains := contains_of_cell first
  have second : c.registers.stackPointer - 1 - 1 = c.registers.stackPointer - 2 := by omega
  -- the first tryte was in the store, so that the pointer below it fits 32 bits
  have inside : Signed32.add? (c.registers.stackPointer - 1) (-1)
      = some (c.registers.stackPointer - 1 + -1) := by
    have bounds := Store.bounds_of_contains contains
    exact add?_of_near (by omega) (by omega)
  rw [onStack_bind]
  have pull := meets_pull (c := c.withPointer (c.registers.stackPointer - 1)) unmapped
  rw [pointer_withPointer, second, inside] at pull
  refine Meets.bind (pull.imp_failed ?_) ?_
  · rintro e d (⟨-, absurd, -⟩ | ⟨outside, rfl⟩)
    · cases absurd
    · exact .inr (.inr ⟨contains, outside, rfl⟩)
  · rintro low _ ⟨last, rfl⟩
    exact ⟨low, high, first, last, rfl, rfl⟩

end Unmapped

def cellAhead? (c : Core) (k : Nat) : Option Tryte :=
  c.store.get? (c.registers.pc + k * c.registers.direction.toInt)

def instruction? (c : Core) : Option Instruction :=
  (c.store.get? c.registers.pc).bind fun t => (Instruction.decode t).toOption

def literal? (c : Core) (i : Instruction) : Option Int :=
  match i.operandSize with
  | 0 => some 0
  | 1 => (c.cellAhead? 1).map Tryte.val
  | _ => do return (Word.ofHalves (← c.cellAhead? 1) (← c.cellAhead? 2)).val

def place? (c : Core) (i : Instruction) : Option Operand :=
  (c.literal? i).bind (c.operand? i.mode)

theorem place?_of_literal {i : Instruction} {value : Int} {o : Operand}
    (literal : c.literal? i = some value) (found : c.operand? i.mode value = some o) :
    c.place? i = some o := by
  rw [place?, literal]
  exact found

theorem pc_of_instruction? {i : Instruction} (h : c.instruction? = some i) :
    -29524 ≤ c.registers.pc ∧ c.registers.pc ≤ 29524 := by
  obtain ⟨t, cell, -⟩ := Option.bind_eq_some_iff.mp h
  exact bounds_of_cell cell

theorem opcode_of_instruction? {i : Instruction} (present : c.instruction? = some i) :
    c.store.get? c.registers.pc = some i.encode ∧ i.HasOpcode := by
  obtain ⟨t, cell, decoded⟩ := Option.bind_eq_some_iff.mp present
  cases read : Instruction.decode t with
  | error e =>
    rw [read] at decoded
    cases decoded
  | ok j =>
    rw [read] at decoded
    cases decoded
    obtain ⟨rfl, hasOpcode⟩ := Instruction.encode_of_decode read
    exact ⟨cell, hasOpcode⟩

section Unmapped

variable (unmapped : c.store.maps = [])
include unmapped

theorem meets_fetchAhead_of_unmapped (k : Nat) :
    Meets (fun t d => d = c ∧ c.cellAhead? k = some t) (Untouched c) (fetchAhead k c) := by
  refine Meets.bind (Meets.ask _ _) ?_
  rintro a? _ ⟨rfl, ahead⟩
  refine (meets_inRange a?).bind ?_
  rintro a _ ⟨rfl, found⟩
  rw [found] at ahead
  obtain ⟨step, distance, sum⟩ := Option.bind_eq_some_iff.mp ahead.symm
  obtain ⟨-, rfl⟩ := Signed32.check?_eq_some_iff.mp distance
  obtain ⟨-, rfl⟩ := Signed32.check?_eq_some_iff.mp sum
  rw [onStore_read_eq unmapped]
  unfold cellAhead?
  split
  · rename_i t cell
    exact ⟨rfl, cell⟩
  · exact rfl

theorem meets_fetchOperand_of_unmapped (i : Instruction) :
    Meets (fun value d => d = c ∧ c.literal? i = some value)
      (fun _ d => d = c ∧ 0 < i.operandSize) (Instruction.fetchOperand i.mode fetchAhead c) := by
  have cell (k : Nat) {n : Nat} : Meets (fun t d => d = c ∧ c.cellAhead? k = some t)
      (fun _ d => d = c ∧ 0 < n + 1) (fetchAhead k c) :=
    (meets_fetchAhead_of_unmapped unmapped k).imp_failed fun _ _ h => ⟨h, Nat.succ_pos n⟩
  unfold Instruction.fetchOperand literal? Instruction.operandSize
  match i.mode.operandSize with
  | 0 => exact ⟨rfl, rfl⟩
  | 1 =>
    refine (cell 1).bind ?_
    rintro t d ⟨same, first⟩
    exact ⟨same, by rw [first]; rfl⟩
  | n + 2 =>
    refine (cell 1).bind ?_
    rintro low d ⟨same, first⟩
    rw [same]
    refine (cell 2).bind ?_
    rintro high d ⟨same, second⟩
    exact ⟨same, by rw [first, second]; rfl⟩

/-- What is fetched stands at the program counter. A fetch that fails finds no instruction or not
all of its operand. -/
theorem meets_fetch : Meets
    (fun (i, value, last) d => d = c ∧ c.instruction? = some i ∧ c.literal? i = some value
      ∧ last = c.registers.pc + i.operandSize * c.registers.direction.toInt)
    (fun _ d => d = c ∧ ∀ i, c.instruction? = some i → 0 < i.operandSize) (fetch c) := by
  unfold fetch
  refine Meets.bind (Meets.ask _ _) ?_
  rintro pc d ⟨same, here⟩
  rw [same, here]
  refine Meets.bind (P := fun t d => d = c ∧ c.store.get? c.registers.pc = some t) ?_ ?_
  · rw [onStore_read_eq unmapped]
    split
    · rename_i t cell
      exact ⟨rfl, cell⟩
    · rename_i cell
      refine ⟨rfl, fun i present => ?_⟩
      simp [instruction?, cell] at present
  · rintro t d ⟨same, cell⟩
    rw [same]
    have present : c.instruction? = (Instruction.decode t).toOption := by
      rw [instruction?, cell]
      rfl
    cases decoded : Instruction.decode t with
    | error cause =>
      refine ⟨rfl, fun i absent => ?_⟩
      rw [present, decoded] at absent
      cases absent
    | ok i =>
      rw [decoded] at present
      have only (j : Instruction) (h : c.instruction? = some j) (size : 0 < i.operandSize) :
          0 < j.operandSize := by
        rw [present] at h
        cases h
        exact size
      refine Meets.bind ((meets_fetchOperand_of_unmapped unmapped i).imp_failed fun _ _ h =>
        ⟨h.1, fun j at_ => only j at_ h.2⟩) ?_
      rintro value d ⟨same, literal⟩
      rw [same]
      refine Meets.bind (Meets.ask _ _) ?_
      rintro a? d ⟨same, ahead⟩
      rw [same]
      have bounds := bounds_of_cell cell
      rw [ahead, Registers.ahead?_of_near (by omega) i.operandSize_le]
      exact ⟨rfl, present, literal, rfl⟩

end Unmapped

end Core

end TernaryMachine
