import TernaryMachine.Store

/-!
The stack: a store and a pointer to the first free cell above the stack. Words go on with their
low half first and come off with their high half first. Nothing but the limits of the store guards
the ends of the stack.
-/

set_option autoImplicit false
set_option relaxedAutoImplicit false

namespace TernaryMachine

/-- A store with a pointer to the first free cell. -/
structure Stack where
  store : Store
  pointer : Int

inductive StackError where
  | memory (cause : MemoryError)
  | pointerOverflow
  deriving DecidableEq, Repr

namespace Stack

/-- An operation on the stack; where it fails, the changes made before stay. -/
abbrev Access (α : Type) : Type := EStateM StackError Stack α

def onStore {α : Type} (x : Store.Access α) : Access α := fun ⟨store, pointer⟩ =>
  match x store with
  | .ok a store => .ok a ⟨store, pointer⟩
  | .error e store => .error (.memory e) ⟨store, pointer⟩

def movePointer (distance : Int) : Access Unit := fun s =>
  match Signed32.add? s.pointer distance with
  | some p => .ok () { s with pointer := p }
  | none => .error .pointerOverflow s

def top : Access Int := fun s => .ok s.pointer s

/-- Writes a tryte at the pointer and moves the pointer up. -/
def push (v : Tryte) : Access Unit := do
  onStore (Store.write (← top) v)
  movePointer 1

/-- Moves the pointer down and reads the tryte there. -/
def pull : Access Tryte := do
  movePointer (-1)
  onStore (Store.read (← top))

/-- Pushes a word, the low half first. -/
def pushWord (w : Word) : Access Unit := do
  push w.low
  push w.high

def pullWord : Access Word := do
  let high ← pull
  let low ← pull
  return Word.ofHalves low high

end Stack

end TernaryMachine
