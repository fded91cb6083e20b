import TernaryMachine.Assembly.Error
import TernaryMachine.Assembly.Operand
import TernaryMachine.Instruction

/-!
Lines of assembly source, read without knowledge of any symbol: an optional label, an optional
statement and an optional comment. A semicolon begins a comment at the start of a line or after a
blank, but not inside a string or as a character literal.
-/

set_option autoImplicit false
set_option relaxedAutoImplicit false

namespace TernaryMachine.Assembly

inductive Layout where
  | tryte
  | word
  /-- The distance of a target from the tryte after this one. -/
  | displacement
  deriving DecidableEq, Repr

def Layout.size : Layout → Nat
  | .tryte => 1
  | .word => 2
  | .displacement => 1

inductive Statement where
  /-- Sets the origin, or pads up to an address. -/
  | origin (target : Expression)
  | define (name : String) (value : Expression)
  | value (layout : Layout) (e : Expression)
  | data (code : List Tryte)
  | instruction (i : Instruction) (operand? : Option (Layout × Expression))
  deriving DecidableEq, Repr

/-- A line: its label and its statement, or why the text after the label is no statement. -/
structure Line where
  label? : Option String
  statement : Except Cause (Option Statement)

/-- The line without its comment. Inside a string a semicolon is text, and so is the character
after a backslash; outside, the character after an apostrophe is. -/
def stripComment (inString afterBlank : Bool) : List Char → Except Malformation (List Char)
  | [] => .ok []
  | c :: cs =>
    if c = '"' then (stripComment (!inString) false cs).map (c :: ·)
    else if c = '\\' ∧ inString then
      match cs with
      | [] => .ok [c]
      | d :: rest => (stripComment inString false rest).map fun r => c :: d :: r
    else if c = '\x27' ∧ ¬ inString then
      match cs with
      | [] => .ok [c]
      | ['\\'] => .ok [c, '\\']
      | '\\' :: d :: rest => (stripComment inString false rest).map fun r => c :: '\\' :: d :: r
      | d :: rest => (stripComment inString false rest).map fun r => c :: d :: r
    else if c = ';' ∧ ¬ inString then
      if afterBlank then .ok [] else .error .commentNotSeparated
    else (stripComment inString (Text.isBlank c) cs).map (c :: ·)

def unescapeString : List Char → Except Malformation (List Char)
  | [] => .ok []
  | ['\\'] => .error .invalidEscape
  | '\\' :: c :: cs =>
    match unescape? c with
    | some d => (unescapeString cs).map (d :: ·)
    | none => .error .invalidEscape
  | c :: cs =>
    if c = '"' then .error .unescapedQuote else (unescapeString cs).map (c :: ·)

def parseString (cs : List Char) : Except Malformation (List Char) :=
  match cs with
  | '"' :: rest =>
    match rest.reverse with
    | '"' :: inner => unescapeString inner.reverse
    | _ => .error .notQuoted
  | _ => .error .notQuoted

def encodeChars : List Char → Except Cause (List Tryte)
  | [] => .ok []
  | c :: cs =>
    match Charset.encode? c with
    | some t => (encodeChars cs).map (t :: ·)
    | none => .error (.unencodableChar c)

/-- The branch of a mnemonic in full: flag, comparison and digit after `BR`. -/
def branchInFull? (mnemonic : String) : Option (Flag × Comparison × Trit) :=
  match mnemonic.toList with
  | ['B', 'R', f, c, d] => do
    return (← Flag.ofLetter? f, ← Comparison.ofLetter? c, ← Trit.ofBranchLetter? d)
  | _ => none

def branch? (mnemonic : String) : Option (Flag × Comparison × Trit) :=
  branchInFull? ((Instruction.branchInFull? mnemonic).getD mnemonic)

def layout? (mode : AddressMode) : Option Layout :=
  match mode.operandSize with
  | 0 => none
  | 1 => some .tryte
  | _ => some .word

def withOperand (i : Instruction) (o : Operand) : Statement :=
  .instruction i do return (← layout? o.mode, ← o.expression?)

/-- The branch with the given operand: a displacement if it is immediate, a target if absolute. -/
def branchStatement (mnemonic : String) (i : Instruction) (operand? : Option Operand) :
    Except Cause Statement :=
  match operand? with
  | none => .error (.missingOperand mnemonic)
  | some o =>
    match o.mode with
    | .immediate => .ok (.instruction i (o.expression?.map fun e => (.tryte, e)))
    | .absolute => .ok (.instruction i (o.expression?.map fun e => (.displacement, e)))
    | mode => .error (.unsupportedMode mnemonic mode)

/-- The arithmetic operation with the given operand, as an extended operation where the mode
calls for one. -/
def aluStatement (mnemonic : String) (op : AluOp) (operand? : Option Operand) :
    Except Cause Statement :=
  match operand? with
  | none => .error (.missingOperand mnemonic)
  | some o =>
    match o.mode.aluTrit? with
    | some _ => .ok (withOperand (.alu op o.mode) o)
    | none =>
      match ExtendedOp.all.find? fun x => x.alu? == some op && x.mode? == some o.mode with
      | some x => .ok (withOperand (.extended x) o)
      | none => .error (.unsupportedMode mnemonic o.mode)

def extendedStatement (mnemonic : String) (operand? : Option Operand) : Except Cause Statement :=
  match operand? with
  | none =>
    match ExtendedOp.find? mnemonic none with
    | some op => .ok (.instruction (.extended op) none)
    | none => .error (.missingOperand mnemonic)
  | some o =>
    match ExtendedOp.find? mnemonic (some o.mode) with
    | some op => .ok (withOperand (.extended op) o)
    | none =>
      if (ExtendedOp.find? mnemonic none).isSome then .error (.unexpectedOperand mnemonic)
      else .error (.unsupportedMode mnemonic o.mode)

def operandOf? (text : List Char) : Except Cause (Option Operand) :=
  if text.isEmpty then .ok none
  else
    match Operand.parse text with
    | .ok o => .ok (some o)
    | .error e => .error (.operand e)

def parseInstruction (mnemonic : String) (text : List Char) : Except Cause Statement := do
  let operand? ← operandOf? text
  match branch? mnemonic with
  | some (flag, comparison, digit) =>
    branchStatement mnemonic (.branch flag comparison digit) operand?
  | none =>
    match AluOp.ofMnemonic? mnemonic with
    | some op => aluStatement mnemonic op operand?
    | none =>
      if ExtendedOp.isMnemonic mnemonic then extendedStatement mnemonic operand?
      else .error (.unknownMnemonic mnemonic)

def parseValue (text : List Char) : Except Cause Expression :=
  match Expression.parse text with
  | .ok e => .ok e
  | .error e => .error (.operand e)

def parseDefinition (text : List Char) : Except Cause Statement :=
  match Text.words text with
  | [] => .error (.missingOperand ".equ")
  | [_] => .error (.missingOperand ".equ")
  | [value, name] =>
    if !isSymbol name then .error (.malformed (.invalidSymbol (String.ofList name)))
    else (parseValue value).map (.define (String.ofList name))
  | _ => .error (.malformed .definitionArity)

def parseLayout (directive : String) (layout : Layout) (text : List Char) :
    Except Cause Statement :=
  if text.isEmpty then .error (.missingOperand directive)
  else (parseValue text).map (.value layout)

def parseData (text : List Char) : Except Cause Statement :=
  if text.isEmpty then .error (.missingOperand ".data")
  else
    match parseString text with
    | .error what => .error (.malformed what)
    | .ok chars => (encodeChars chars).map .data

def parseDirective (name : String) (text : List Char) : Except Cause Statement :=
  match name with
  | "org" =>
    if text.isEmpty then .error (.malformed .missingValue)
    else (parseValue text).map .origin
  | "equ" => parseDefinition text
  | "word" => parseLayout ".word" .word text
  | "tryte" => parseLayout ".tryte" .tryte text
  | "data" => parseData text
  | other => .error (.unknownDirective ("." ++ other))

/-- Reads a statement: a directive or a mnemonic, in either case, and the text after it. -/
def parseStatement (cs : List Char) : Except Cause (Option Statement) :=
  if cs.isEmpty then .ok none
  else
    let (head, rest) := Text.cutAtBlank cs
    let argument := Text.trim rest
    match head with
    | '.' :: name =>
      (parseDirective (String.ofList (name.map Char.toLower)) argument).map some
    | _ => (parseInstruction (String.ofList (head.map Char.toUpper)) argument).map some

def cutLabel (cs : List Char) : Option (List Char) × List Char :=
  match (Text.headWord cs).reverse with
  | ':' :: label => (some label.reverse, Text.trim (Text.afterWord cs))
  | _ => (none, cs)

def Line.parse (cs : List Char) : Except Cause Line :=
  match stripComment false true cs with
  | .error what => .error (.malformed what)
  | .ok text =>
    match cutLabel (Text.trim text) with
    | (none, rest) => .ok ⟨none, parseStatement rest⟩
    | (some label, rest) =>
      if isSymbol label then .ok ⟨some (String.ofList label), parseStatement rest⟩
      else .error (.malformed (.invalidLabel (String.ofList label)))

end TernaryMachine.Assembly
