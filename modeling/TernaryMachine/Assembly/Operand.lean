import TernaryMachine.Assembly.Expression
import TernaryMachine.Instruction.Operation

/-!
Operands of assembly source. The punctuation around an expression gives the addressing mode:
`#e` is immediate, `(e)` indirect, `(e,X)` and `(e),Y` indirect and indexed, `e,X` and `e,Y`
indexed, a bare `e` absolute, and a bare `A` the accumulator.
-/

set_option autoImplicit false
set_option relaxedAutoImplicit false

namespace TernaryMachine.Assembly

/-- An addressing mode with its expression; the accumulator has none. -/
structure Operand where
  mode : AddressMode
  expression? : Option Expression
  deriving DecidableEq, Repr

namespace Operand

/-- The text before a three-character ending, the last character read in either case. -/
def before? (ending : Char × Char × Char) : List Char → Option (List Char) := fun cs =>
  match cs.reverse with
  | c :: b :: a :: rest =>
    if (a.toUpper, b.toUpper, c.toUpper) = ending then some rest.reverse else none
  | _ => none

/-- The addressing mode of an operand that begins with a parenthesis, given the text after it, and
the text of its expression. -/
def splitParenthesised (rest : List Char) : Option (AddressMode × List Char) :=
  match before? (')', ',', 'Y') rest with
  | some inner => some (.indirectIndexedY, inner)
  | none =>
    match before? (',', 'X', ')') rest with
    | some inner => some (.indexedXIndirect, inner)
    | none =>
      match rest.reverse with
      | ')' :: inner => some (.indirect, inner.reverse)
      | _ => none

def splitIndex (cs : List Char) : AddressMode × List Char :=
  match cs.reverse with
  | c :: ',' :: inner =>
    if c = 'X' ∨ c = 'x' then (.absoluteX, inner.reverse)
    else if c = 'Y' ∨ c = 'y' then (.absoluteY, inner.reverse)
    else (.absolute, cs)
  | _ => (.absolute, cs)

def split (cs : List Char) : Option (AddressMode × List Char) :=
  match cs with
  | '#' :: rest => some (.immediate, rest)
  | '(' :: rest => splitParenthesised rest
  | _ => some (splitIndex cs)

def parse (cs : List Char) : Except OperandError Operand :=
  let text := Text.trim cs
  if text.isEmpty then .error .empty
  else if text = ['A'] then .ok ⟨.accumulator, none⟩
  else
    match split text with
    | none => .error (.malformed (String.ofList text))
    | some (mode, inner) =>
      match Expression.parse inner with
      | .ok e => .ok ⟨mode, some e⟩
      | .error .empty => .error (.malformed (String.ofList text))
      | .error e => .error e

end Operand

end TernaryMachine.Assembly
