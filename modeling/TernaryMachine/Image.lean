import TernaryMachine.Disassembly
import TernaryMachine.Text.Blank
import TernaryMachine.Text.Lines

/-!
Program images as text: one tryte a line in five digits, comments after a semicolon, and the
origin in a comment that begins with the word `origin`.
-/

set_option autoImplicit false
set_option relaxedAutoImplicit false

namespace TernaryMachine.Image

inductive Cause where
  | invalidOrigin (text : String)
  | wrongWidth (digits : String)
  | invalidTrits (digits : String)
  deriving DecidableEq, Repr

structure Error where
  line : Nat
  cause : Cause
  deriving DecidableEq, Repr

def Cause.message : Cause → String
  | .invalidOrigin text => s!"invalid origin '{text}'"
  | .wrongWidth digits => s!"expected {Tryte.width} trits, found '{digits}'"
  | .invalidTrits digits => s!"invalid trits '{digits}'"

def Error.message (e : Error) : String := s!"parse error on line {e.line}: {e.cause.message}"

inductive Line where
  | blank
  | origin (address : Word)
  | tryte (t : Tryte)
  deriving DecidableEq, Repr

/-- What follows a text at the beginning of another. -/
def afterStart? : List Char → List Char → Option (List Char)
  | [], cs => some cs
  | _ :: _, [] => none
  | x :: xs, c :: cs => if x = c then afterStart? xs cs else none

def parseComment (cs : List Char) : Except Cause Line :=
  match afterStart? "origin".toList (Text.trim cs) with
  | none => .ok .blank
  | some rest =>
    let text := Text.trim rest
    match (Text.signed32? text).bind Word.ofInt? with
    | some w => .ok (.origin w)
    | none => .error (.invalidOrigin (String.ofList text))

def parseDigits (digits : List Char) : Except Cause Line :=
  if digits.isEmpty then .ok .blank
  else if digits.length ≠ Tryte.width then .error (.wrongWidth (String.ofList digits))
  else
    match Radix.ternary.read digits with
    | .error _ => .error (.invalidTrits (String.ofList digits))
    | .ok n =>
      match Tryte.ofInt? n with
      | some t => .ok (.tryte t)
      | none => .error (.invalidTrits (String.ofList digits))

def Line.parse (cs : List Char) : Except Cause Line :=
  match Text.trim cs with
  | ';' :: comment => parseComment comment
  | text => parseDigits (Text.trim (text.takeWhile fun c => c != ';'))

/-- Reads lines, the first of which has the given number, onto the origin and the reversed trytes
of the lines before them. -/
def parseLines (number : Nat) (origin : Int) (code : List Tryte) :
    List (List Char) → Except Error Program
  | [] => .ok ⟨origin, code.reverse⟩
  | text :: rest =>
    match Line.parse text with
    | .error cause => .error ⟨number, cause⟩
    | .ok .blank => parseLines (number + 1) origin code rest
    | .ok (.origin w) => parseLines (number + 1) w.val code rest
    | .ok (.tryte t) => parseLines (number + 1) origin (t :: code) rest

/-- Reads an image; without an origin its program starts at zero. -/
def parse (text : List Char) : Except Error Program := parseLines 1 0 [] (Text.lines text)

def writeTryte (address : Int) (t : Tryte) (remark : List Char) : List Char :=
  t.chars ++ " ; ".toList ++ Text.padLeft 6 (Text.decimal address) ++ remark ++ ['\n']

def writeTrytes (address : Int) : List Tryte → List Char
  | [] => []
  | t :: ts => writeTryte address t [] ++ writeTrytes (address + 1) ts

/-- The lines of an instruction or of data; an instruction is remarked at its first tryte. -/
def writeEntry (origin : Int) (e : Disassembly.Entry) : List Char :=
  let remark := match e.instruction? with
    | some text => ' ' :: ' ' :: text
    | none => []
  writeTryte (origin + e.offset) e.first remark ++ writeTrytes (origin + e.offset + 1) e.operand

def write (p : Program) : List Char :=
  "; trit-cpu TROM image\n; origin ".toList ++ Text.decimal p.origin ++ "\n; ".toList
    ++ Text.natDigits p.code.length ++ " trytes\n\n".toList
    ++ (Disassembly.sweep p.code).flatMap (writeEntry p.origin)

/-- The image of a program, if the address of every tryte fits 32 bits. -/
def write? (p : Program) : Option (List Char) :=
  if p.code.isEmpty ∨ Signed32.InRange (p.origin + p.code.length - 1) then some (write p) else none

end TernaryMachine.Image
