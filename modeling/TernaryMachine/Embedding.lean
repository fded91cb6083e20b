import TernaryMachine.Assembly
import TernaryMachine.Disassembly
import TernaryMachine.Exchange

/-!
The machine as a component of a host program: it is built from options in JSON, loads source text,
and gives its state as plain values. A call that is rejected keeps the changes it made before.
-/

set_option autoImplicit false
set_option relaxedAutoImplicit false

namespace TernaryMachine

/-- A machine with its options and the program it was given last. -/
structure Embedding where
  machine : Machine
  options : MachineOptions
  program : Program

inductive Rejection where
  | invalidOptions
  | machine (cause : MachineError)
  | assembly (cause : Assembly.Error)
  | noInterrupt (number : Int)
  | outOfRange (cause : OutOfRange)
  deriving DecidableEq, Repr

namespace Embedding

abbrev Result (α : Type) : Type := EStateM.Result Rejection Embedding α

/-- The result of a call that runs the machine, none if it runs out of fuel. -/
abbrev Outcome (α : Type) : Type := Option (Result α)

def noProgram : Program := ⟨0, []⟩

def readOptions : Option String → Except Rejection MachineOptions
  | none => .ok {}
  | some text =>
    match (Json.parse? text.toList).bind Exchange.options? with
    | some o => .ok o
    | none => .error .invalidOptions

def create (options? : Option String) : Except Rejection Embedding := do
  let options ← readOptions options?
  match Machine.create options with
  | .ok machine => return ⟨machine, options, noProgram⟩
  | .error e => .error (.machine e)

/-- The embedding around what a machine call leaves. -/
def ofMachine {α : Type} (options : MachineOptions) (program : Program) :
    Machine.Result α → Result α
  | .ok a machine => .ok a ⟨machine, options, program⟩
  | .error e machine => .error (.machine e) ⟨machine, options, program⟩

/-- Starts again with a new machine and the program loaded. -/
def reset (s : Embedding) : Result Unit :=
  match Machine.create s.options with
  | .error e => .error (.machine e) s
  | .ok fresh =>
    match fresh.load s.program with
    | .error e machine => .error (.machine e) { s with machine }
    | .ok _ machine =>
      .ok () { s with machine := machine.update fun r => { r with pc := s.program.origin } }

/-- Assembles source text, makes it the program and starts again; gives its length. -/
def loadSource (source : List Char) (s : Embedding) : Result Nat :=
  match Assembly.assemble source with
  | .error e => .error (.assembly e) s
  | .ok program =>
    match reset { s with program } with
    | .error e s => .error e s
    | .ok _ s => .ok program.code.length s

/-- Performs one instruction and gives its text, read upwards from the program counter before the
step; the text is empty if nothing can be read there. -/
def step (fuel : Nat) : Embedding → Outcome (List Char)
  | ⟨machine, options, program⟩ =>
    let text := match Instruction.disassemble (machine.store.window 3 machine.registers.pc) with
      | .ok (text, _) => text
      | .error _ => []
    (machine.step fuel).map fun r =>
      match ofMachine options program r with
      | .ok _ s => .ok text s
      | .error e s => .error e s

/-- Performs at most `limit` instructions and gives the number performed since the machine was
built. -/
def run (fuel limit : Nat) : Embedding → Outcome Nat
  | ⟨machine, options, program⟩ =>
    (machine.runLimited fuel limit).map fun r =>
      match ofMachine options program r with
      | .ok _ s => .ok s.machine.cycles s
      | .error e s => .error e s

/-- Requests an interrupt, with a value for the accumulator if one is given, and tells whether it
was accepted. -/
def interrupt (fuel : Nat) (number : Int) (value? : Option Int) (s : Embedding) : Outcome Bool :=
  match Trit.ofInt? number with
  | none => some (.error (.noInterrupt number) s)
  | some number =>
    match value?.mapM Tryte.ofInt with
    | .error e => some (.error (.outOfRange e) s)
    | .ok value? =>
      match s with
      | ⟨machine, options, program⟩ =>
        (machine.interrupt fuel number value?).map (ofMachine options program)

/-- The value of a cell, zero outside the memory. -/
def memoryAt (s : Embedding) (a : Int) : Int :=
  match s.machine.store.get? a with
  | some t => t.val
  | none => 0

def memoryTextAt (s : Embedding) (a : Int) : String :=
  match s.machine.store.get? a with
  | some t => t.text
  | none => ""

def registers (s : Embedding) : Json := Exchange.ofRegisters s.machine.registers

def assemble (source : List Char) : Except Rejection Json :=
  match Assembly.assemble source with
  | .ok p => .ok (Exchange.ofProgram p)
  | .error e => .error (.assembly e)

def disassemble (code : List Int) : Except Rejection (List (List Char)) :=
  match code.mapM Tryte.ofInt with
  | .ok trytes => .ok (Disassembly.lines trytes)
  | .error e => .error (.outOfRange e)

end Embedding

end TernaryMachine
