import TernaryMachine.Disassembly
import TernaryMachine.Machine

/-!
The debugger: a machine with its program, breakpoints, a line of status and the address at which
the view of the memory begins. A continuous run goes on in ticks of a fixed number of steps and
stops before an instruction at a breakpoint.
-/

set_option autoImplicit false
set_option relaxedAutoImplicit false

namespace TernaryMachine

structure Debugger where
  machine : Machine
  program : Program
  options : MachineOptions
  breakpoints : List Int
  running : Bool
  quitting : Bool
  status : String
  scroll : Int

namespace Debugger

def stepsPerTick : Nat := 64

/-- The text and the length of what stands at an address, read without asking a peripheral. -/
def textAt (s : Store) (a : Int) : List Char × Nat :=
  let cells := s.window 3 a
  match Instruction.disassemble cells with
  | .ok r => r
  | .error _ =>
    match cells with
    | t :: _ => (".tryte ".toList ++ Text.decimal t.val, 1)
    | [] => ("<out of range>".toList, 1)

def failure (e : MachineError) : String := s!"Error: {e.message}"

/-- A new machine with the program loaded, and the status that tells how that went. -/
def reload (p : Program) (options : MachineOptions) : Machine × String :=
  let fresh := match Machine.create options with
    | .ok m => m
    | .error _ => Machine.standard
  match fresh.load p with
  | .ok _ m => (m.update fun r => { r with pc := p.origin }, "Reset. Ready.")
  | .error e m => (m, failure e)

def start (p : Program) (options : MachineOptions) : Debugger :=
  { machine := (reload p options).1
    program := p
    options
    breakpoints := []
    running := false
    quitting := false
    status := "Ready. Press 's' to step, 'r' to run, 'q' to quit."
    scroll := p.origin }

def reset (d : Debugger) : Debugger :=
  let (machine, status) := reload d.program d.options
  { d with machine, status, running := false }

def step (fuel : Nat) : Debugger → Option Debugger
  | ⟨machine, program, options, breakpoints, running, quitting, _, scroll⟩ =>
    if machine.isHalted then
      let status := s!"CPU halted: {machine.state.name}"
      some ⟨machine, program, options, breakpoints, false, quitting, status, scroll⟩
    else
      let pc := machine.registers.pc
      let text := String.ofList (textAt machine.store pc).1
      match machine.step fuel with
      | none => none
      | some (.ok _ machine) =>
        let status := s!"PC={pc}: {text}"
        some ⟨machine, program, options, breakpoints, running, quitting, status, scroll⟩
      | some (.error e machine) =>
        some ⟨machine, program, options, breakpoints, false, quitting, failure e, scroll⟩

def run (d : Debugger) : Debugger := { d with running := true, status := "Running..." }

def stop (d : Debugger) (status : String) : Debugger := { d with running := false, status }

/-- Performs at most `n` steps of a continuous run. -/
def tickFor (fuel : Nat) : Nat → Debugger → Option Debugger
  | 0, d => some d
  | n + 1, d =>
    if !d.running then some d
    else if d.machine.isHalted then some (d.stop s!"Halted after {d.machine.cycles} cycles")
    else if d.breakpoints.contains d.machine.registers.pc then
      some (d.stop s!"Breakpoint at PC={d.machine.registers.pc}")
    else
      match d.step fuel with
      | none => none
      | some d => tickFor fuel n d

def tick (fuel : Nat) (d : Debugger) : Option Debugger := tickFor fuel stepsPerTick d

def insert (a : Int) : List Int → List Int
  | [] => [a]
  | b :: bs => if a < b then a :: b :: bs else b :: insert a bs

/-- Sets a breakpoint at the program counter or removes the one there. -/
def toggleBreakpoint (d : Debugger) : Debugger :=
  let pc := d.machine.registers.pc
  if d.breakpoints.contains pc then
    { d with
      breakpoints := d.breakpoints.filter fun a => a != pc
      status := s!"Removed breakpoint at PC={pc}" }
  else
    { d with breakpoints := insert pc d.breakpoints, status := s!"Set breakpoint at PC={pc}" }

def scrollBy? (d : Debugger) (distance : Int) : Option Debugger :=
  (Signed32.add? d.scroll distance).map fun a =>
    let s := d.machine.store
    { d with scroll := max s.minAddress (min a s.maxAddress) }

/-- At most `n` lines of disassembly from an address on: address, text, and whether the address is
that of the program counter. -/
def disassemblyFrom (s : Store) (pc : Int) : Nat → Int → List (Int × List Char × Bool)
  | 0, _ => []
  | n + 1, a =>
    if s.maxAddress < a then []
    else
      let (text, length) := textAt s a
      (a, text, decide (a = pc)) :: disassemblyFrom s pc n (a + length)

def disassembly (d : Debugger) (n : Nat) : List (Int × List Char × Bool) :=
  disassemblyFrom d.machine.store d.machine.registers.pc n d.machine.registers.pc

end Debugger

end TernaryMachine
