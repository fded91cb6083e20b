import TernaryMachine.Assembly.Statement
import TernaryMachine.Program
import TernaryMachine.Text.Lines

/-!
The assembler. It goes through the lines once, lays out trytes and binds symbols; a value whose
symbol is not bound yet leaves zeros and a patch, and the patches are filled in at the end. Labels
that are bound before the first origin and before any tryte move to that origin.

An address is the sum of the origin and of the number of trytes before it, and this is the value of
a label that is looked up. Addresses are unbounded integers. As an origin is a word, they are what
sums of 32-bit integers give for every program of up to about `2 ^ 31` trytes, and differ from these
sums only beyond.
-/

set_option autoImplicit false
set_option relaxedAutoImplicit false

namespace TernaryMachine

namespace Assembly

/-- A value to be filled in when all symbols are bound. -/
structure Patch where
  offset : Nat
  layout : Layout
  expression : Expression
  line : Nat
  deriving DecidableEq, Repr

end Assembly

structure Assembly where
  origin? : Option Int := none
  code : Array Tryte := #[]
  /-- The symbols bound so far, newest first. -/
  symbols : List (String × Int) := []
  /-- The labels that the first origin moves. -/
  floating : List String := []
  /-- The values to be filled in, newest first. -/
  patches : List Assembly.Patch := []
  deriving DecidableEq, Repr

namespace Assembly

def origin (a : Assembly) : Int := a.origin?.getD 0

/-- The address of the next tryte. -/
def address (a : Assembly) : Int := a.origin + a.code.size

def lookup (a : Assembly) (name : String) : Option Int := a.symbols.lookup name

def isFresh (a : Assembly) : Bool := a.origin?.isNone && a.code.isEmpty

def define (a : Assembly) (name : String) (value : Int) : Except Cause Assembly :=
  match a.lookup name with
  | some _ => .error (.duplicateSymbol name)
  | none => .ok { a with symbols := (name, value) :: a.symbols }

def label (a : Assembly) (name : String) : Except Cause Assembly := do
  let b ← a.define name a.address
  return if a.isFresh then { b with floating := name :: b.floating } else b

def evaluateNow (a : Assembly) (e : Expression) : Except Cause Int :=
  match e.evaluate a.lookup with
  | .error cause => .error (.operand cause)
  | .ok (some value) => .ok value
  | .ok none => .error (.unresolvedSymbol (e.symbol?.getD ""))

def asWord (value : Int) : Except Cause Word :=
  match Word.ofInt? value with
  | some w => .ok w
  | none => .error (.literalOutOfRange value Word.maxValue)

def Layout.encode (layout : Layout) (value address : Int) : Except Cause (List Tryte) :=
  match layout with
  | .tryte =>
    match Tryte.ofInt? value with
    | some t => .ok [t]
    | none => .error (.literalOutOfRange value Tryte.maxValue)
  | .word => (asWord value).map fun w => [w.low, w.high]
  | .displacement =>
    let distance := Signed32.saturatingSub (Signed32.saturatingSub value address) 1
    match Tryte.ofInt? distance with
    | some t => .ok [t]
    | none => .error (.branchOutOfRange distance)

def append (a : Assembly) (trytes : List Tryte) : Assembly :=
  { a with code := a.code ++ trytes }

/-- Lays out a value, or zeros and a patch if its symbol is not bound yet. -/
def emitValue (a : Assembly) (line : Nat) (layout : Layout) (e : Expression) :
    Except Cause Assembly :=
  match e.evaluate a.lookup with
  | .error cause => .error (.operand cause)
  | .ok (some value) => (layout.encode value a.address).map a.append
  | .ok none =>
    let patch : Patch := ⟨a.code.size, layout, e, line⟩
    let zeros := List.replicate layout.size Tryte.zero
    .ok { a.append zeros with patches := patch :: a.patches }

/-- Sets the origin if there is none and no tryte, and pads with zeros otherwise. -/
def setOrigin (a : Assembly) (target : Int) : Except Cause Assembly :=
  if a.isFresh then
    .ok { a with
      origin? := some target
      symbols := a.symbols.map fun s => if a.floating.contains s.1 then (s.1, target) else s
      floating := [] }
  else if target < a.address then .error (.originBackwards a.address target)
  else .ok (a.append (List.replicate (target - a.address).toNat Tryte.zero))

def defineWord (a : Assembly) (name : String) (w : Word) : Except Cause Assembly := do
  let b ← a.define name w.val
  let c ← b.define (name ++ ".low") w.low.val
  c.define (name ++ ".high") w.high.val

def emit (a : Assembly) (line : Nat) : Statement → Except Cause Assembly
  | .origin target => do
    let w ← asWord (← a.evaluateNow target)
    a.setOrigin w.val
  | .define name value => do
    let w ← asWord (← a.evaluateNow value)
    a.defineWord name w
  | .value layout e => a.emitValue line layout e
  | .data trytes => .ok (a.append trytes)
  | .instruction i none => .ok (a.append [i.encode])
  | .instruction i (some (layout, e)) => (a.append [i.encode]).emitValue line layout e

def emitLine (a : Assembly) (number : Nat) (text : List Char) : Except Cause Assembly := do
  let line ← Line.parse text
  let b ← match line.label? with
    | some name => a.label name
    | none => .ok a
  match ← line.statement with
  | some statement => b.emit number statement
  | none => .ok b

def onLine {α : Type} (line : Nat) : Except Cause α → Except Error α
  | .ok a => .ok a
  | .error cause => .error ⟨line, cause⟩

def emitLines (a : Assembly) (number : Nat) : List (List Char) → Except Error Assembly
  | [] => .ok a
  | text :: rest => do
    let b ← onLine number (a.emitLine number text)
    b.emitLines (number + 1) rest

/-- The code with trytes written over it from an offset on. -/
def overlay (code : Array Tryte) (offset : Nat) : List Tryte → Array Tryte
  | [] => code
  | t :: ts => overlay (code.setIfInBounds offset t) (offset + 1) ts

def fill (a : Assembly) (p : Patch) : Except Cause Assembly := do
  let value ← a.evaluateNow p.expression
  let trytes ← p.layout.encode value (a.origin + p.offset)
  return { a with code := overlay a.code p.offset trytes }

def fillAll (a : Assembly) : List Patch → Except Error Assembly
  | [] => .ok a
  | p :: ps => do
    let b ← onLine p.line (a.fill p)
    b.fillAll ps

def toProgram (a : Assembly) : Program := ⟨a.origin, a.code.toList⟩

def assemble (source : List Char) : Except Error Program := do
  let a ← emitLines {} 1 (Text.lines source)
  let b ← a.fillAll a.patches.reverse
  return b.toProgram

end Assembly

end TernaryMachine
