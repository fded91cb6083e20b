import TernaryMachine.Instruction
import TernaryMachine.Registers
import TernaryMachine.Stack

/-!
Registers and store together, and the actions of instructions on them: reading and writing an
operand, recording a result in the flags, using the stack. An action that fails keeps what it did
before it failed.
-/

set_option autoImplicit false
set_option relaxedAutoImplicit false

namespace TernaryMachine

inductive RunState where
  | forward
  | backward
  | halted
  deriving DecidableEq, Repr

namespace RunState

def ofDirection : Trit → RunState
  | .plus => .forward
  | .minus => .backward
  | .zero => .halted

def name : RunState → String
  | .forward => "RunningForward"
  | .backward => "RunningBackward"
  | .halted => "Halted"

end RunState

inductive MachineError where
  | notRunning (state : RunState)
  | memory (cause : MemoryError)
  | decode (pc : Int) (cause : DecodeError)
  | operandNotWritable (literal : Tryte)
  | unsetVector (number : Trit)
  | debugTrap (pc : Int)
  | rangeFault
  deriving DecidableEq, Repr

def MachineError.message : MachineError → String
  | .notRunning state => s!"CPU not running: {state.name}"
  | .memory cause => s!"memory error: {cause.message}"
  | .decode pc cause => s!"decode error at {pc}: {cause.message}"
  | .operandNotWritable literal => s!"cannot write to immediate operand {literal.val}"
  | .unsetVector number => s!"interrupt vector {number.toInt} is not set"
  | .debugTrap pc => s!"debug trap (DNOP) at {pc}"
  | .rangeFault => "value out of range"

structure Core where
  registers : Registers
  store : Store

inductive Operand where
  | accumulator
  | indexX
  | indexY
  | address (a : Int)
  | immediate (literal : Tryte)
  deriving DecidableEq, Repr

namespace Core

/-- An action on registers and store; where it fails, the changes made before stay. -/
abbrev Action (α : Type) : Type := EStateM MachineError Core α

def onStore {α : Type} (x : Store.Access α) : Action α := fun ⟨registers, store⟩ =>
  match x store with
  | .ok a store => .ok a ⟨registers, store⟩
  | .error e store => .error (.memory e) ⟨registers, store⟩

/-- Performs a stack operation with the stack pointer. -/
def onStack {α : Type} (x : Stack.Access α) : Action α := fun ⟨registers, store⟩ =>
  match x ⟨store, registers.stackPointer⟩ with
  | .ok a ⟨store, pointer⟩ => .ok a ⟨{ registers with stackPointer := pointer }, store⟩
  | .error (.memory e) ⟨store, pointer⟩ =>
    .error (.memory e) ⟨{ registers with stackPointer := pointer }, store⟩
  | .error .pointerOverflow ⟨store, pointer⟩ =>
    .error .rangeFault ⟨{ registers with stackPointer := pointer }, store⟩

def ask {α : Type} (f : Registers → α) : Action α := fun c => .ok (f c.registers) c

def update (f : Registers → Registers) : Action Unit := fun ⟨registers, store⟩ =>
  .ok () ⟨f registers, store⟩

/-- The value, or a fault if there is none. -/
def inRange {α : Type} : Option α → Action α
  | some a => pure a
  | none => throw .rangeFault

def setFlag (f : Flag) (t : Trit) : Action Unit :=
  update fun r => { r with flags := r.flags.set f t }

def recordResult (t : Tryte) : Action Unit :=
  update fun r => { r with flags := r.flags.recordResult t }

/-- Finds the operand that an addressing mode and a literal denote. -/
def resolve (mode : AddressMode) (value : Int) : Action Operand :=
  match mode with
  | .accumulator => pure .accumulator
  | .immediate => do return .immediate (← inRange (Tryte.ofInt? value))
  | .absolute => pure (.address value)
  | .absoluteX => do return .address (← inRange (← ask fun r => r.plusX? value))
  | .absoluteY => do return .address (← inRange (← ask fun r => r.plusY? value))
  | .indirect => do return .address (← onStore (Store.readWord value)).val
  | .indexedXIndirect => do
    let pointer ← inRange (← ask fun r => r.plusX? value)
    return .address (← onStore (Store.readWord pointer)).val
  | .indirectIndexedY => do
    let base ← onStore (Store.readWord value)
    return .address (← inRange (← ask fun r => r.plusY? base.val))

def readOperand : Operand → Action Tryte
  | .accumulator => ask Registers.accumulator
  | .indexX => ask Registers.indexX
  | .indexY => ask Registers.indexY
  | .address a => onStore (Store.read a)
  | .immediate literal => pure literal

/-- Writes an operand; a literal cannot be written. -/
def writeOperand (o : Operand) (v : Tryte) : Action Unit :=
  match o with
  | .accumulator => update fun r => { r with accumulator := v }
  | .indexX => update fun r => { r with indexX := v }
  | .indexY => update fun r => { r with indexY := v }
  | .address a => onStore (Store.write a v)
  | .immediate literal => throw (.operandNotWritable literal)

/-- Changes an operand where it is and records the result. -/
def modify (o : Operand) (f : Tryte → Tryte) : Action Unit := do
  let v := f (← readOperand o)
  writeOperand o v
  recordResult v

def load (target source : Operand) : Action Unit := do
  let v ← readOperand source
  writeOperand target v
  recordResult v

/-- Copies one operand to another without a trace in the flags. -/
def save (source target : Operand) : Action Unit := do
  writeOperand target (← readOperand source)

def addWithCarry (addend : Tryte) : Action Unit :=
  update fun r =>
    let sum := Tryte.add r.accumulator addend (r.flags.get .carry)
    { r with
      accumulator := sum.result
      flags := ((r.flags.set .carry sum.carry).set .overflow sum.overflow).recordResult sum.result }

/-- Compares a register with an operand: the sign of the difference and the lowest digit of the
wrapped difference go to the flags. -/
def compare (register operand : Operand) : Action Unit := do
  let a ← readOperand register
  let b ← readOperand operand
  setFlag .sign (Trit.ofSign (a.val - b.val))
  setFlag .lowest (Tryte.add a (-b) .zero).result.lowest

def combine (o : Operand) (f : Tryte → Tryte → Tryte) : Action Unit := do
  let v ← readOperand o
  let result := f (← ask Registers.accumulator) v
  update fun r => { r with accumulator := result }
  recordResult result

/-- Shifts an operand up: the data flag enters at the bottom, the top digit goes to the carry. -/
def shiftUp (o : Operand) : Action Unit := do
  let v ← readOperand o
  let result := v.shiftUp (← ask fun r => r.flags.get .data)
  writeOperand o result
  setFlag .carry (v.trit 4)
  recordResult result

/-- Shifts an operand down: the carry enters at the top, the lowest digit goes to the data flag. -/
def shiftDown (o : Operand) : Action Unit := do
  let v ← readOperand o
  let result := v.shiftDown (← ask fun r => r.flags.get .carry)
  writeOperand o result
  setFlag .data (v.trit 0)
  recordResult result

end Core

end TernaryMachine
