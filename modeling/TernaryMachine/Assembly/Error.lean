import TernaryMachine.Assembly.Expression
import TernaryMachine.Instruction.Operation
import TernaryMachine.Text.Quoted

/-!
Why source does not assemble: the line and the cause, with the wording of each.
-/

set_option autoImplicit false
set_option relaxedAutoImplicit false

namespace TernaryMachine.Assembly

inductive Malformation where
  | commentNotSeparated
  | invalidLabel (label : String)
  | invalidSymbol (name : String)
  | definitionArity
  | missingValue
  | notQuoted
  | invalidEscape
  | unescapedQuote
  deriving DecidableEq, Repr

def Malformation.message : Malformation → String
  | .commentNotSeparated => "';' must be preceded by whitespace"
  | .invalidLabel label => s!"invalid label '{label}'"
  | .invalidSymbol name => s!"invalid symbol name '{name}'"
  | .definitionArity => ".equ takes a value and a name"
  | .missingValue => "missing value"
  | .notQuoted => "expected a quoted string"
  | .invalidEscape => "invalid escape in string"
  | .unescapedQuote => "unescaped quote in string"

inductive Cause where
  | malformed (what : Malformation)
  | unknownMnemonic (mnemonic : String)
  | unknownDirective (directive : String)
  | duplicateSymbol (name : String)
  | unresolvedSymbol (name : String)
  | literalOutOfRange (value limit : Int)
  | branchOutOfRange (displacement : Int)
  | operand (cause : OperandError)
  | missingOperand (mnemonic : String)
  | unexpectedOperand (mnemonic : String)
  | unsupportedMode (mnemonic : String) (mode : AddressMode)
  | originBackwards (current target : Int)
  | unencodableChar (char : Char)
  deriving DecidableEq, Repr

/-- A cause with the number of its line, counted from one. -/
structure Error where
  line : Nat
  cause : Cause
  deriving DecidableEq, Repr

def Error.message (e : Error) : String :=
  match e.cause with
  | .malformed what => s!"syntax error on line {e.line}: {what.message}"
  | .unknownMnemonic mnemonic => s!"unknown mnemonic on line {e.line}: {mnemonic}"
  | .unknownDirective directive => s!"unknown directive on line {e.line}: {directive}"
  | .duplicateSymbol name => s!"symbol redefined on line {e.line}: {name}"
  | .unresolvedSymbol name => s!"unresolved symbol on line {e.line}: {name}"
  | .literalOutOfRange value limit =>
    s!"value out of range on line {e.line}: {value} (limit ±{limit})"
  | .branchOutOfRange displacement =>
    s!"branch target out of range on line {e.line}: displacement {displacement}"
  | .operand cause => s!"bad operand on line {e.line}: {cause.message}"
  | .missingOperand mnemonic => s!"{mnemonic} on line {e.line} requires an operand"
  | .unexpectedOperand mnemonic => s!"{mnemonic} on line {e.line} takes no operand"
  | .unsupportedMode mnemonic mode =>
    s!"{mnemonic} on line {e.line} does not support {mode.name} addressing"
  | .originBackwards current target =>
    s!".org on line {e.line} moves backwards from {current} to {target}"
  | .unencodableChar char =>
    s!"character {Text.quotedChar char} on line {e.line} has no tryte encoding"

end TernaryMachine.Assembly
