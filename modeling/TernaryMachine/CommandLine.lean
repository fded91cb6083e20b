import TernaryMachine.Assembly
import TernaryMachine.CommandLine.Arguments
import TernaryMachine.CommandLine.Host
import TernaryMachine.CommandLine.Path
import TernaryMachine.Exchange
import TernaryMachine.Image

/-!
The command line: running, assembling and disassembling programs in files. Everything printed and
the exit code are decided here, over the surroundings that a host provides.
-/

set_option autoImplicit false
set_option relaxedAutoImplicit false

namespace TernaryMachine.CommandLine

def version : String := "0.1.0"

/-- The text without a command. -/
def banner : String :=
  s!"trit-cpu v{version}\nA balanced ternary CPU emulator and assembler\n\n"
    ++ "Use --help for available commands\n"

def versionText : String := s!"trit-cpu {version}\n"

def usage : String :=
  "Emulator and assembler for a 5-trit balanced ternary CPU\n\n"
    ++ "Usage: trit-cpu [--config <CONFIG>] [--trace] [COMMAND]\n\nCommands:\n"
    ++ "  run <PROGRAM> [-m <MAX_CYCLES>] [--boot] [--dump <START:END>]\n"
    ++ "  debug <PROGRAM>\n  asm <SOURCE> [-o <OUTPUT>]\n  disasm <TROM>\n  help\n"

structure Failure where
  context : String
  reason : String
  deriving DecidableEq, Repr

def Failure.message (f : Failure) : String := s!"❌ {f.context}: {f.reason}\n"

def orFail {ε α : Type} (context : String) (message : ε → String) :
    Except ε α → Except Failure α
  | .ok a => .ok a
  | .error e => .error ⟨context, message e⟩

def finished {α : Type} : Machine.Outcome α → Except Failure Machine
  | some (.ok _ m) => .ok m
  | some (.error e m) => .error ⟨s!"CPU error at PC={m.registers.pc}", e.message⟩
  | none => .error ⟨"CPU error", "the run does not end"⟩

/-- Runs a program on a machine, through the start vector or from its origin. -/
def execute (fuel : Nat) (m : Machine) (p : Program) (limit : Nat) (boot : Bool) :
    Except Failure Machine :=
  if boot then finished (m.boot fuel p)
  else
    match m.load p with
    | .error e m => finished (some (.error e m) : Machine.Outcome Unit)
    | .ok _ m => finished ((m.update fun r => { r with pc := p.origin }).runLimited fuel limit)

def registerLine (name : String) (t : Tryte) : String := s!"{name}: {t.text} ({t.val})\n"

def report (m : Machine) : String :=
  let r := m.registers
  let flags := Flag.all.reverse.map fun f => s!"{f.letter}={(r.flags.get f).toInt}"
  s!"\n━━━ Result ━━━\nCycles: {m.cycles}\nState:  {m.state.name}\n"
    ++ s!"PC: {r.pc}   SP: {r.stackPointer}\n" ++ registerLine "A" r.accumulator
    ++ registerLine "X" r.indexX ++ registerLine "Y" r.indexY
    ++ "Flags: " ++ " ".intercalate flags ++ "\n"

def dumpLines (a : Int) : List Tryte → List Char
  | [] => []
  | t :: ts =>
    Text.padLeft 6 (Text.decimal a) ++ ": ".toList ++ t.chars ++ " = ".toList
      ++ Text.decimal t.val ++ '\n' :: dumpLines (a + 1) ts

def dump (m : Machine) (range : Int × Int) : Except Failure String := do
  let cells ← orFail "Invalid dump range" MemoryError.message (m.store.subarray range.1 range.2)
  return "\n" ++ String.ofList (dumpLines range.1 cells)

def limitRemark (limit : Nat) : String :=
  s!"\n⚠️  Reached max cycles limit ({limit}). Use --max-cycles to increase.\n"

section

variable {m : Type → Type} [Monad m] (host : Host m)

abbrev Action (m : Type → Type) (α : Type) : Type := ExceptT Failure m α

def say (text : String) : Action m Unit := ExceptT.lift (host.print text)

def settle {α : Type} (x : Except Failure α) : Action m α := ExceptT.mk (pure x)

def readText (context path : String) (wording : HostError → String) : Action m String := do
  let text ← ExceptT.lift (host.readText path)
  settle (orFail context wording text)

/-- Reads the machine options from a file; the standard ones without a file. -/
def readOptions (path? : Option String) : Action m MachineOptions :=
  match path? with
  | none => return {}
  | some path => do
    let text ← readText host s!"Failed to read {path}" path HostError.message
    match (Json.parse? text.toList).bind Exchange.options? with
    | some o => return o
    | none => throw ⟨"Invalid config", "not a valid set of options"⟩

def readImage (path : String) : Action m Program := do
  let context := "Failed to load TROM"
  let text ← readText host context path fun e => s!"I/O error: {e.message}"
  settle (orFail context Image.Error.message (Image.parse text.toList))

def readSource (path : String) : Action m Program := do
  let text ← readText host "Failed to read file" path HostError.message
  settle (orFail "Assembly error" Assembly.Error.message (Assembly.assemble text.toList))

/-- Reads a program that is not empty: source text from a file that ends in `.asm`, an image from
any other. -/
def readProgram (path : String) : Action m Program := do
  let isSource := Path.extension? path.toList == some "asm".toList
  let p ← if isSource then readSource host path else readImage host path
  say host (if isSource then s!"📝 Assembled {p.code.length} trytes\n"
    else s!"📂 Loaded {p.code.length} trytes\n")
  if p.code.isEmpty then throw ⟨"Nothing to execute", path⟩
  return p

def runProgram (fuel : Nat) (options : MachineOptions) (path : String) (limit : Nat)
    (boot : Bool) (dump? : Option (Int × Int)) : Action m Unit := do
  say host s!"🔧 Running: {path}\n"
  let p ← readProgram host path
  let fresh ← settle (orFail "Invalid CPU options" MachineError.message (Machine.create options))
  let machine ← settle (execute fuel fresh p limit boot)
  say host (report machine)
  match dump? with
  | some range => say host (← settle (dump machine range))
  | none => pure ()
  if !machine.isHalted then say host (limitRemark limit)

def debugProgram (options : MachineOptions) (path : String) : Action m Unit := do
  say host s!"🔍 Loading: {path}\n"
  let p ← readProgram host path
  say host "🚀 Launching debugger...\n"
  let result ← ExceptT.lift (host.debug p options)
  settle (orFail "Debugger error" HostError.message result)

def assembleFile (path : String) (output? : Option String) : Action m Unit := do
  let target := output?.getD (String.ofList (Path.withExtension path.toList "trom".toList))
  say host s!"📝 Assembling: {path} → {target}\n"
  let p ← readSource host path
  say host s!"✓ Assembled {p.code.length} trytes at origin {p.origin}\n"
  let result ← ExceptT.lift (host.writeText target (String.ofList (Image.write p)))
  settle (orFail "Failed to save TROM" (fun e => s!"I/O error: {e.message}") result)
  say host s!"✓ Saved to {target}\n"

def disassembleFile (path : String) : Action m Unit := do
  let p ← readImage host path
  say host (String.ofList (Disassembly.listing p))

/-- Does what is asked; `fuel` bounds the steps of a run. -/
def perform (fuel : Nat) (r : Request) : Action m Unit := do
  let options ← readOptions host r.config?
  match r.command? with
  | some (.run path limit boot dump?) => runProgram host fuel options path limit boot dump?
  | some (.debug path) => debugProgram host options path
  | some (.assemble path output?) => assembleFile host path output?
  | some (.disassemble path) => disassembleFile host path
  | none => say host banner

/-- Does what the arguments ask and gives the exit code: zero for success, one for a failure, two
for arguments that are not understood. -/
def main (fuel : Nat) (args : List String) : m Nat :=
  match readArguments args with
  | .error .version => do
    host.print versionText
    return 0
  | .error .help => do
    host.print usage
    return 0
  | .error .invalid => do
    host.printError usage
    return 2
  | .ok r => do
    match ← (perform host fuel r).run with
    | .ok () => return 0
    | .error f =>
      host.printError f.message
      return 1

end

end TernaryMachine.CommandLine
