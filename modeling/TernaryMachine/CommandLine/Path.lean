/-!
Paths as text: their segments, the name of the file they end in, and its extension. A trailing
slash and a trailing `.` segment do not count; a path that ends in `..` names no file.
-/

set_option autoImplicit false
set_option relaxedAutoImplicit false

namespace TernaryMachine.Path

/-- The segments between slashes, in order, given the reversed beginning of the first one. -/
def segmentsFrom (segment : List Char) : List Char → List (List Char)
  | [] => [segment.reverse]
  | c :: cs =>
    if c = '/' then segment.reverse :: segmentsFrom [] cs else segmentsFrom (c :: segment) cs

def segments (path : List Char) : List (List Char) := segmentsFrom [] path

/-- Takes segments that do not count off the reversed segments of a path, except the first. -/
def dropIdle : List (List Char) → List (List Char)
  | [] => []
  | [s] => [s]
  | s :: t :: rest => if s.isEmpty ∨ s = ['.'] then dropIdle (t :: rest) else s :: t :: rest

def split? (path : List Char) : Option (List (List Char) × List Char) :=
  match dropIdle (segments path).reverse with
  | [] => none
  | name :: before =>
    if name.isEmpty ∨ name = ['.'] ∨ name = ['.', '.'] then none else some (before.reverse, name)

/-- A name without its extension, and the extension after the last dot. A dot at the beginning of
a name begins no extension. -/
def splitName (name : List Char) : List Char × Option (List Char) :=
  let extension := (name.reverse.takeWhile fun c => c != '.').reverse
  match name.reverse.dropWhile fun c => c != '.' with
  | _ :: stem => if stem.isEmpty then (name, none) else (stem.reverse, some extension)
  | [] => (name, none)

def extension? (path : List Char) : Option (List Char) := do
  let (_, name) ← split? path
  (splitName name).2

/-- The path cut by the length of its extension. -/
def dropExtension (path : List Char) : List Char :=
  match extension? path with
  | some extension => path.take (path.length - extension.length)
  | none => path

/-- The path with another extension. The old one is dropped first; if what is left names no file, as
`..` does, nothing is added. -/
def withExtension (path extension : List Char) : List Char :=
  match split? (dropExtension path) with
  | none => dropExtension path
  | some (before, name) =>
    List.intercalate ['/'] (before ++ [(splitName name).1 ++ '.' :: extension])

example : withExtension "a/b.c/".toList "d".toList = "a/b.d".toList := by decide

example : withExtension "a/..c".toList "d".toList = "a/..".toList := by decide

example : extension? ".profile".toList = none := by decide

end TernaryMachine.Path
