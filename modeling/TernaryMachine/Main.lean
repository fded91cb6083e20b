import TernaryMachine.CommandLine

/-!
The program: the command line on the files and streams of the system.
-/

set_option autoImplicit false
set_option relaxedAutoImplicit false

namespace TernaryMachine

def HostError.ofSystem (e : IO.Error) : HostError :=
  match e with
  | .noFileOrDirectory .. => .notFound
  | .noSuchThing .. => .notFound
  | .permissionDenied .. => .permissionDenied
  | .inappropriateType .. => .isDirectory
  | .userError _ => .invalidText
  | e => .other (toString e)

def attempt {α : Type} (x : IO α) : IO (Except HostError α) := do
  try
    return .ok (← x)
  catch e => return .error (.ofSystem e)

/-- The system as the surroundings of the command line; there is no terminal for the debugger. -/
def system : Host IO where
  readText path := attempt (IO.FS.readFile path)
  writeText path text := attempt (IO.FS.writeFile path text)
  print text := IO.print text
  printError text := IO.eprint text
  debug _ _ := return .error .noDevice

end TernaryMachine

/-- Runs the command line. Its fuel is more than any run can use up. -/
def main (args : List String) : IO UInt32 := do
  let code ← TernaryMachine.CommandLine.main TernaryMachine.system 1000000000000000000 args
  return code.toUInt32
