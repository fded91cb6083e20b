import TernaryMachine.Machine

/-!
What the command line needs of its surroundings: text files, two streams of output and a terminal
for the debugger.
-/

set_option autoImplicit false
set_option relaxedAutoImplicit false

namespace TernaryMachine

inductive HostError where
  | notFound
  | noDevice
  | permissionDenied
  | notDirectory
  | isDirectory
  | nameTooLong
  | invalidText
  | other (text : String)
  deriving DecidableEq, Repr

def HostError.message : HostError → String
  | .notFound => "No such file or directory (os error 2)"
  | .noDevice => "No such device or address (os error 6)"
  | .permissionDenied => "Permission denied (os error 13)"
  | .notDirectory => "Not a directory (os error 20)"
  | .isDirectory => "Is a directory (os error 21)"
  | .nameTooLong => "File name too long (os error 36)"
  | .invalidText => "stream did not contain valid UTF-8"
  | .other text => text

/-- The surroundings of the command line. -/
structure Host (m : Type → Type) where
  readText : String → m (Except HostError String)
  writeText : String → String → m (Except HostError Unit)
  print : String → m Unit
  printError : String → m Unit
  debug : Program → MachineOptions → m (Except HostError Unit)

end TernaryMachine
