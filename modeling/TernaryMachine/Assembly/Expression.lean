import TernaryMachine.Charset
import TernaryMachine.Numeral
import TernaryMachine.Text.Blank
import TernaryMachine.Text.Decimal
import TernaryMachine.Word

/-!
Value expressions of assembly source: an optional selector of one half of a word, followed by a
number or by a symbol with an optional offset. Numbers are decimal or, after a mark, written in
one of the balanced notations or as a character.
-/

set_option autoImplicit false
set_option relaxedAutoImplicit false

namespace TernaryMachine.Assembly

/-- Which part of a value an expression means. -/
inductive Selector where
  | full
  | low
  | high
  deriving DecidableEq, Repr

inductive Term where
  | number (value : Int)
  | symbol (name : String) (offset : Int)
  deriving DecidableEq, Repr

structure Expression where
  selector : Selector
  term : Term
  deriving DecidableEq, Repr

inductive OperandError where
  | empty
  | malformed (text : String)
  | invalidNumber (text : String)
  | numeral (cause : NumeralError)
  | invalidCharacter (text : String)
  | overflow (symbol : String)
  | wordRange (value : Int)
  deriving DecidableEq, Repr

def OperandError.message : OperandError → String
  | .empty => "empty operand"
  | .malformed text => s!"malformed operand '{text}'"
  | .invalidNumber text => s!"invalid number '{text}'"
  | .numeral cause => cause.message
  | .invalidCharacter text => s!"invalid character literal '{text}'"
  | .overflow symbol => s!"offset from '{symbol}' overflows"
  | .wordRange value => s!"{value} does not fit in a word"

/-- Whether a character is an ASCII letter. -/
def isLetter (c : Char) : Bool :=
  (decide ('A' ≤ c) && decide (c ≤ 'Z')) || (decide ('a' ≤ c) && decide (c ≤ 'z'))

def startsSymbol (c : Char) : Bool := isLetter c || c == '_'

def continuesSymbol (c : Char) : Bool := isLetter c || Text.isDigit c || c == '_' || c == '.'

def isSymbol : List Char → Bool
  | [] => false
  | c :: cs => startsSymbol c && cs.all continuesSymbol

def unescape? (c : Char) : Option Char :=
  if c = 'n' then some '\n'
  else if c = 't' then some '\t'
  else if c = '0' then some '\x00'
  else if c = '\\' ∨ c = '\x27' ∨ c = '"' then some c
  else none

namespace Expression

def ofNumber (n : Int) : Expression := ⟨.full, .number n⟩

def symbol? (e : Expression) : Option String :=
  match e.term with
  | .number _ => none
  | .symbol name _ => some name

/-- The selected part of a value; a half is taken of words only. -/
def select (s : Selector) (value : Int) : Except OperandError Int :=
  match s with
  | .full => .ok value
  | .low =>
    match Word.ofInt? value with
    | some w => .ok w.low.val
    | none => .error (.wordRange value)
  | .high =>
    match Word.ofInt? value with
    | some w => .ok w.high.val
    | none => .error (.wordRange value)

/-- The value of an expression; none as long as its symbol is unknown. -/
def evaluate (e : Expression) (lookup : String → Option Int) :
    Except OperandError (Option Int) :=
  match e.term with
  | .number n => (select e.selector n).map some
  | .symbol name offset =>
    match lookup name with
    | none => .ok none
    | some base =>
      match Signed32.add? base offset with
      | none => .error (.overflow name)
      | some value => (select e.selector value).map some

def readDecimal (cs : List Char) : Except OperandError Int :=
  match Text.signed32? cs with
  | some n => .ok n
  | none => .error (.invalidNumber (String.ofList cs))

def readNumeral (r : Radix) (cs : List Char) : Except OperandError Int :=
  match r.read cs with
  | .ok n => .ok n
  | .error cause => .error (.numeral cause)

def literalChar? : List Char → Option Char
  | [c] => if c = '\\' then none else some c
  | [mark, c] => if mark = '\\' then unescape? c else none
  | _ => none

def readCharacter (cs : List Char) : Except OperandError Int :=
  match (literalChar? cs).bind Charset.encode? with
  | some t => .ok t.val
  | none => .error (.invalidCharacter (String.ofList cs))

def isSign (c : Char) : Bool := c == '+' || c == '-'

def readSymbol (cs : List Char) : Except OperandError Term :=
  let name := cs.takeWhile fun c => !isSign c
  let offset := cs.dropWhile fun c => !isSign c
  if !isSymbol name then .error (.malformed (String.ofList cs))
  else if offset.isEmpty then .ok (.symbol (String.ofList name) 0)
  else (readDecimal offset).map fun n => .symbol (String.ofList name) n

def readTerm (cs : List Char) : Except OperandError Term :=
  match cs with
  | [] => .error .empty
  | '%' :: rest => (readNumeral .ternary rest).map .number
  | '$' :: rest => (readNumeral .nonary rest).map .number
  | '&' :: rest => (readNumeral .base27 rest).map .number
  | '\x27' :: rest => (readCharacter rest).map .number
  | c :: rest =>
    if startsSymbol c then readSymbol (c :: rest) else (readDecimal (c :: rest)).map .number

/-- Reads an expression; blanks around it do not count. -/
def parse (cs : List Char) : Except OperandError Expression :=
  match Text.trim cs with
  | [] => .error .empty
  | '<' :: rest => (readTerm rest).map fun t => ⟨.low, t⟩
  | '>' :: rest => (readTerm rest).map fun t => ⟨.high, t⟩
  | text => (readTerm text).map fun t => ⟨.full, t⟩

end Expression

end TernaryMachine.Assembly
