import TernaryMachine.Text.Blank
import TernaryMachine.Text.Decimal

/-!
The arguments of the command line. Options are given in full after two dashes or by a letter after
one; a value follows its option, or stands in the same argument after an equals sign or, for a
letter, directly. An argument of two dashes ends the options. No option may be given twice at the
same place, and `--config` and `--trace` may stand before and after the command.
-/

set_option autoImplicit false
set_option relaxedAutoImplicit false

namespace TernaryMachine.CommandLine

inductive Command where
  /-- Runs a program, at most `limit` instructions of it, through the start vector if `boot` is
  set, and prints the cells of a range afterwards. -/
  | run (program : String) (limit : Nat) (boot : Bool) (dump? : Option (Int × Int))
  | debug (program : String)
  | assemble (source : String) (output? : Option String)
  | disassemble (image : String)
  deriving DecidableEq, Repr

/-- A command with the path of the machine options. -/
structure Request where
  config? : Option String
  command? : Option Command
  deriving DecidableEq, Repr

/-- What arguments ask for instead of a request. -/
inductive Notice where
  | version
  | help
  | invalid
  deriving DecidableEq, Repr

inductive Setting where
  | config
  | trace
  | version
  | help
  | limit
  | boot
  | dump
  | output
  deriving DecidableEq, Repr

namespace Setting

def hasValue : Setting → Bool
  | .config | .limit | .dump | .output => true
  | .trace | .version | .help | .boot => false

end Setting

/-- The options that a place of the command line knows. -/
structure Level where
  names : List (String × Setting)
  letters : List (Char × Setting)

namespace Level

def common : List (String × Setting) :=
  [("config", .config), ("trace", .trace), ("help", .help)]

def top : Level := ⟨("version", .version) :: common, [('V', .version), ('h', .help)]⟩

def run : Level :=
  ⟨("max-cycles", .limit) :: ("boot", .boot) :: ("dump", .dump) :: common,
    [('m', .limit), ('h', .help)]⟩

def assemble : Level := ⟨("output", .output) :: common, [('o', .output), ('h', .help)]⟩

def plain : Level := ⟨common, [('h', .help)]⟩

end Level

/-- The options and the file given at one place. -/
structure Given where
  config? : Option String := none
  trace : Bool := false
  limit? : Option Nat := none
  boot : Bool := false
  dump? : Option (Int × Int) := none
  output? : Option String := none
  file? : Option String := none
  deriving DecidableEq, Repr

/-- The text before the first of a character and the text after it. -/
def cutAt? (mark : Char) (cs : List Char) : Option (List Char × List Char) :=
  match cs.dropWhile fun c => c != mark with
  | _ :: rest => some (cs.takeWhile fun c => c != mark, rest)
  | [] => none

/-- A range of addresses, two integers with a colon between. -/
def range? (cs : List Char) : Option (Int × Int) := do
  let (start, stop) ← cutAt? ':' cs
  return (← Text.signed32? (Text.trim start), ← Text.signed32? (Text.trim stop))

namespace Given

def notePath (before? : Option String) (path : List Char) : Except Notice (Option String) :=
  if before?.isSome || path.isEmpty then .error .invalid else .ok (some (String.ofList path))

def flag (g : Given) : Setting → Except Notice Given
  | .version => .error .version
  | .help => .error .help
  | .trace => if g.trace then .error .invalid else .ok { g with trace := true }
  | .boot => if g.boot then .error .invalid else .ok { g with boot := true }
  | .config | .limit | .dump | .output => .error .invalid

def set (g : Given) (o : Setting) (value : List Char) : Except Notice Given :=
  match o with
  | .config => do return { g with config? := ← notePath g.config? value }
  | .output => do return { g with output? := ← notePath g.output? value }
  | .limit =>
    match g.limit?, Text.unsigned64? value with
    | none, some n => .ok { g with limit? := some n }
    | _, _ => .error .invalid
  | .dump =>
    match g.dump?, range? value with
    | none, some r => .ok { g with dump? := some r }
    | _, _ => .error .invalid
  | .version | .help | .trace | .boot => .error .invalid

def file (g : Given) (path : List Char) : Except Notice Given := do
  return { g with file? := ← notePath g.file? path }

end Given

inductive Argument where
  | endOfOptions
  | name (text : List Char) (value? : Option (List Char))
  | letters (text : List Char)
  | plain (text : List Char)
  deriving DecidableEq, Repr

def Argument.parse (text : List Char) : Argument :=
  match text with
  | ['-', '-'] => .endOfOptions
  | '-' :: '-' :: rest =>
    match cutAt? '=' rest with
    | some (word, value) => .name word (some value)
    | none => .name rest none
  | '-' :: c :: rest => .letters (c :: rest)
  | _ => .plain text

/-- Notes options given by letters; the result also names an option whose value is still to come. -/
def noteLetters (level : Level) (g : Given) :
    List Char → Except Notice (Given × Option Setting)
  | [] => .ok (g, none)
  | c :: cs =>
    match level.letters.lookup c with
    | none => .error .invalid
    | some o =>
      if o.hasValue then
        match cs with
        | [] => .ok (g, some o)
        | '=' :: value => (g.set o value).map fun g => (g, none)
        | value => (g.set o value).map fun g => (g, none)
      else do
        let g ← g.flag o
        noteLetters level g cs

/-- Notes an option given by name; the result also names it if its value is still to come. -/
def noteName (level : Level) (g : Given) (name : List Char) (value? : Option (List Char)) :
    Except Notice (Given × Option Setting) :=
  match level.names.lookup (String.ofList name) with
  | none => .error .invalid
  | some o =>
    match o.hasValue, value? with
    | true, some value => (g.set o value).map fun g => (g, none)
    | true, none => .ok (g, some o)
    | false, some _ => .error .invalid
    | false, none => (g.flag o).map fun g => (g, none)

def noteValue (g : Given) (o : Setting) (argument : Argument) : Except Notice Given :=
  match argument with
  | .plain value => g.set o value
  | _ => .error .invalid

def readFiles (g : Given) : List (List Char) → Except Notice Given
  | [] => .ok g
  | text :: rest => do
    let g ← g.file text
    readFiles g rest

/-- Reads the arguments of a command; `pending?` is an option whose value comes next. -/
def readCommand (level : Level) (g : Given) (pending? : Option Setting) :
    List (List Char) → Except Notice Given
  | [] => if pending?.isSome then .error .invalid else .ok g
  | text :: rest =>
    match pending?, Argument.parse text with
    | some o, argument => do
      let g ← noteValue g o argument
      readCommand level g none rest
    | none, .endOfOptions => readFiles g rest
    | none, .name name value? => do
      let (g, pending?) ← noteName level g name value?
      readCommand level g pending? rest
    | none, .letters text => do
      let (g, pending?) ← noteLetters level g text
      readCommand level g pending? rest
    | none, .plain text => do
      let g ← g.file text
      readCommand level g none rest

def standardLimit : Nat := 1000000

def commandNames : List String := ["run", "debug", "asm", "disasm", "help"]

/-- Reads a command by its name with its arguments, after the options `before` it. -/
def readNamed (before : Given) (name : String) (rest : List (List Char)) :
    Except Notice Request := do
  let withFile (level : Level) (build : Given → String → Command) : Except Notice Request := do
    let g ← readCommand level {} none rest
    match g.file? with
    | some file => return ⟨g.config? <|> before.config?, some (build g file)⟩
    | none => .error .invalid
  match name with
  | "run" =>
    withFile .run fun g file => .run file (g.limit?.getD standardLimit) g.boot g.dump?
  | "debug" => withFile .plain fun _ file => .debug file
  | "asm" => withFile .assemble fun g file => .assemble file g.output?
  | "disasm" => withFile .plain fun _ file => .disassemble file
  | "help" =>
    match rest with
    | [] => .error .help
    | [topic] =>
      .error (if commandNames.contains (String.ofList topic) then .help else .invalid)
    | _ => .error .invalid
  | _ => .error .invalid

def readTop (g : Given) (pending? : Option Setting) :
    List (List Char) → Except Notice Request
  | [] => if pending?.isSome then .error .invalid else .ok ⟨g.config?, none⟩
  | text :: rest =>
    match pending?, Argument.parse text with
    | some o, argument => do
      let g ← noteValue g o argument
      readTop g none rest
    | none, .endOfOptions => if rest.isEmpty then .ok ⟨g.config?, none⟩ else .error .invalid
    | none, .name name value? => do
      let (g, pending?) ← noteName .top g name value?
      readTop g pending? rest
    | none, .letters text => do
      let (g, pending?) ← noteLetters .top g text
      readTop g pending? rest
    | none, .plain text => readNamed g (String.ofList text) rest

def readArguments (args : List String) : Except Notice Request :=
  readTop {} none (args.map String.toList)

end TernaryMachine.CommandLine
