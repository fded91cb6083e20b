import TernaryMachine.Instruction
import TernaryMachine.Numeral
import TernaryMachine.Program
import TernaryMachine.Text.Decimal

/-!
Disassembly: the text of instructions, in the form in which the assembler reads them. A block is
swept from its beginning; a tryte that begins no instruction is written as data.
-/

set_option autoImplicit false
set_option relaxedAutoImplicit false

namespace TernaryMachine

namespace AddressMode

def write (mode : AddressMode) (value : Int) : List Char :=
  match mode with
  | .accumulator => ['A']
  | .immediate => '#' :: '%' :: Radix.ternary.write value
  | .absolute => Text.decimal value
  | .absoluteX => Text.decimal value ++ [',', 'X']
  | .absoluteY => Text.decimal value ++ [',', 'Y']
  | .indirect => '(' :: Text.decimal value ++ [')']
  | .indexedXIndirect => '(' :: Text.decimal value ++ [',', 'X', ')']
  | .indirectIndexedY => '(' :: Text.decimal value ++ [')', ',', 'Y']

end AddressMode

namespace Instruction

def branchMnemonic (flag : Flag) (comparison : Comparison) (digit : Trit) : String :=
  String.ofList ['B', 'R', flag.letter, comparison.letter, digit.branchLetter]

/-- The displacement of a branch, with a sign unless it is zero. -/
def writeDisplacement (value : Int) : List Char :=
  if 0 < value then '#' :: '+' :: Text.decimal value else '#' :: Text.decimal value

def write (i : Instruction) (value : Int) : List Char :=
  match i with
  | .alu op mode => op.mnemonic.toList ++ ' ' :: mode.write value
  | .branch flag comparison digit =>
    let full := branchMnemonic flag comparison digit
    ((branchInShort? full).getD full).toList ++ ' ' :: writeDisplacement value
  | .extended op =>
    match op.mode? with
    | some mode => op.mnemonic.toList ++ ' ' :: mode.write value
    | none => op.mnemonic.toList

def readFrom (code : List Tryte) : Except DecodeError (Instruction × Int) :=
  match code with
  | [] => .error (.truncated 1)
  | t :: _ => do
    let i ← decode t
    let value ← operandOf i.mode code
    return (i, value)

/-- The text and the length of the instruction that begins a block of trytes. -/
def disassemble (code : List Tryte) : Except DecodeError (List Char × Nat) :=
  (readFrom code).map fun (i, value) => (i.write value, i.length)

end Instruction

namespace Disassembly

/-- One line of a disassembly: the trytes it covers and their text as an instruction, if they are
one. -/
structure Entry where
  offset : Nat
  first : Tryte
  operand : List Tryte
  instruction? : Option (List Char)
  deriving DecidableEq, Repr

namespace Entry

def raw (e : Entry) : List Tryte := e.first :: e.operand

/-- The source text of a line; a tryte that begins no instruction is written as data. -/
def text (e : Entry) : List Char :=
  e.instruction?.getD (".tryte ".toList ++ Text.decimal e.first.val)

end Entry

def sweepFrom (offset : Nat) : List Tryte → List Entry
  | [] => []
  | t :: ts =>
    match Instruction.disassemble (t :: ts) with
    | .ok (text, length) =>
      ⟨offset, t, ts.take (length - 1), some text⟩
        :: sweepFrom (offset + length) (ts.drop (length - 1))
    | .error _ => ⟨offset, t, [], none⟩ :: sweepFrom (offset + 1) ts
termination_by code => code.length
decreasing_by
  · simp only [List.length_drop, List.length_cons]; omega
  · simp

theorem flatMap_raw_sweepFrom (offset : Nat) (code : List Tryte) :
    (sweepFrom offset code).flatMap Entry.raw = code := by
  fun_induction sweepFrom offset code with
  | case1 => rfl
  | case2 offset t ts text length h ih =>
    rw [List.flatMap_cons, ih]
    simp [Entry.raw]
  | case3 offset t ts e h ih =>
    rw [List.flatMap_cons, ih]
    rfl

def sweep (code : List Tryte) : List Entry := sweepFrom 0 code

def lines (code : List Tryte) : List (List Char) := (sweep code).map Entry.text

def writeRaw (raw : List Tryte) : List Char := List.intercalate [' '] (raw.map Tryte.chars)

def writeEntry (origin : Int) (e : Entry) : List Char :=
  Text.padLeft 6 (Text.decimal (origin + e.offset)) ++ ": ".toList ++ Text.padRight 20 e.text
    ++ " ; ".toList ++ writeRaw e.raw ++ ['\n']

def listing (p : Program) : List Char :=
  "; trit-cpu disassembly\n; origin ".toList ++ Text.decimal p.origin ++ ", ".toList
    ++ Text.natDigits p.code.length ++ " trytes\n\n".toList
    ++ (sweep p.code).flatMap (writeEntry p.origin)

/-- A program with addresses and raw trytes, if every address fits 32 bits. -/
def listing? (p : Program) : Option (List Char) :=
  if (sweep p.code).all fun e => decide (Signed32.InRange (p.origin + e.offset)) then
    some (listing p)
  else none

end Disassembly

end TernaryMachine
