import TernaryMachine.CommandLine.Host
import TernaryMachine.CommandLine.Path

/-!
A folder of text files in memory as the surroundings of the command line. A path is followed
segment by segment from the folder; nothing is found outside of it, and there is no terminal.
-/

set_option autoImplicit false
set_option relaxedAutoImplicit false

namespace TernaryMachine

structure Folder where
  files : List (List String × String)
  printed : String := ""
  printedErrors : String := ""

namespace Folder

inductive Node where
  | file (text : String)
  | directory
  | missing

/-- What is found at the names of a path. The directories are the ancestors of files. -/
def node (f : Folder) (names : List String) : Node :=
  match f.files.lookup names with
  | some text => .file text
  | none =>
    if names.isEmpty || f.files.any fun x => names.isPrefixOf x.1 then .directory else .missing

/-- The failure of a path that leaves the folder: what it names is a directory unless a name
follows. -/
def outside (rest : List String) : HostError :=
  if rest.all fun s => s == "" || s == "." || s == ".." then .isDirectory else .notFound

/-- The greatest length of a name in bytes. -/
def longestName : Nat := 255

def follow (f : Folder) (here : List String) : List String → Except HostError (List String)
  | [] => .ok here
  | segment :: rest =>
    match f.node here with
    | .missing => .error .notFound
    | .file _ => .error .notDirectory
    | .directory =>
      if segment = "" ∨ segment = "." then f.follow here rest
      else if segment = ".." then
        if here.isEmpty then .error (outside rest) else f.follow here.dropLast rest
      else if longestName < segment.utf8ByteSize then .error .nameTooLong
      else f.follow (here ++ [segment]) rest

/-- The names that the segments of a path lead to; a path from the root leaves the folder. -/
def resolve (f : Folder) (segments : List String) : Except HostError (List String) :=
  match segments with
  | "" :: rest => .error (outside rest)
  | _ => f.follow [] segments

def segments (path : String) : List String := (Path.segments path.toList).map String.ofList

def read (f : Folder) (path : String) : Except HostError String := do
  match f.node (← f.resolve (segments path)) with
  | .file text => return text
  | .directory => .error .isDirectory
  | .missing => .error .notFound

def put (names : List String) (text : String) :
    List (List String × String) → List (List String × String)
  | [] => [(names, text)]
  | x :: xs => if x.1 = names then (names, text) :: xs else x :: put names text xs

/-- The folder with a text written to a file; a path that ends in a slash is refused as that of a
directory. -/
def write (f : Folder) (path text : String) : Except HostError Folder := do
  match (segments path).reverse with
  | "" :: before =>
    let _ ← f.resolve (before.dropWhile fun s => s == "").reverse
    .error .isDirectory
  | _ =>
    let names ← f.resolve (segments path)
    match f.node names with
    | .directory => .error .isDirectory
    | .file _ | .missing => return { f with files := put names text f.files }

def ofFiles (files : List (String × String)) : Folder :=
  { files := files.map fun x => (segments x.1, x.2) }

def host : Host (StateM Folder) where
  readText path := do return (← get).read path
  writeText path text := do
    match (← get).write path text with
    | .ok f =>
      set f
      return .ok ()
    | .error e => return .error e
  print text := modify fun f => { f with printed := f.printed ++ text }
  printError text := modify fun f => { f with printedErrors := f.printedErrors ++ text }
  debug _ _ := return .error .noDevice

end Folder

end TernaryMachine
