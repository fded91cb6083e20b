import TernaryMachine.Text.Decimal

/-!
JSON values and their strict reader. Members keep their order and may repeat. A number is kept
only if it is written as an integer, and a string only if its escapes make up text; the other ones
are still values, which a reader that ignores them accepts.
-/

set_option autoImplicit false
set_option relaxedAutoImplicit false

namespace TernaryMachine

inductive Json where
  | null
  | boolean (b : Bool)
  | integer (n : Int)
  /-- A number with a fraction or an exponent, or minus zero. -/
  | decimal
  | string (s : String)
  /-- A string with half of a surrogate pair. -/
  | brokenString
  | array (items : List Json)
  | object (members : List (Option String × Json))
  deriving Inhabited

namespace Json

def isSpace (c : Char) : Bool := c == ' ' || c == '\n' || c == '\t' || c == '\r'

def skipSpace (cs : List Char) : List Char := cs.dropWhile isSpace

def hexDigit? (c : Char) : Option Nat :=
  if '0' ≤ c ∧ c ≤ '9' then some (c.toNat - '0'.toNat)
  else if 'a' ≤ c ∧ c ≤ 'f' then some (c.toNat - 'a'.toNat + 10)
  else if 'A' ≤ c ∧ c ≤ 'F' then some (c.toNat - 'A'.toNat + 10)
  else none

/-- A piece of a string: a character, or a code unit written in hexadecimal. -/
inductive Piece where
  | char (c : Char)
  | unit (n : Nat)
  deriving DecidableEq, Repr

def escaped? (c : Char) : Option Char :=
  if c = '"' ∨ c = '\\' ∨ c = '/' then some c
  else if c = 'b' then some '\x08'
  else if c = 'f' then some '\x0c'
  else if c = 'n' then some '\n'
  else if c = 'r' then some '\r'
  else if c = 't' then some '\t'
  else none

/-- Reads the pieces of a string up to its closing quotation mark. -/
def pieces? : List Char → Option (List Piece × List Char)
  | [] => none
  | '"' :: rest => some ([], rest)
  | '\\' :: 'u' :: a :: b :: c :: d :: rest => do
    let n := (((← hexDigit? a) * 16 + (← hexDigit? b)) * 16 + (← hexDigit? c)) * 16
      + (← hexDigit? d)
    let (ps, rest) ← pieces? rest
    return (.unit n :: ps, rest)
  | '\\' :: c :: rest => do
    let c ← escaped? c
    let (ps, rest) ← pieces? rest
    return (.char c :: ps, rest)
  | c :: rest => do
    if c = '\\' ∨ c.toNat < 0x20 then none
    let (ps, rest) ← pieces? rest
    return (.char c :: ps, rest)

/-- The text of pieces; a code unit of a surrogate pair needs its other half. -/
def textOf? : List Piece → Option (List Char)
  | [] => some []
  | .char c :: ps => (textOf? ps).map (c :: ·)
  | .unit n :: .unit m :: ps =>
    if 0xD800 ≤ n ∧ n ≤ 0xDBFF then
      if 0xDC00 ≤ m ∧ m ≤ 0xDFFF then
        (textOf? ps).map (Char.ofNat (0x10000 + (n - 0xD800) * 0x400 + (m - 0xDC00)) :: ·)
      else none
    else if 0xDC00 ≤ n ∧ n ≤ 0xDFFF then none
    else (textOf? (.unit m :: ps)).map (Char.ofNat n :: ·)
  | .unit n :: ps =>
    if 0xD800 ≤ n ∧ n ≤ 0xDFFF then none else (textOf? ps).map (Char.ofNat n :: ·)

/-- Reads a string after its opening quotation mark; its text is none if it is broken. -/
def string? (cs : List Char) : Option (Option String × List Char) :=
  (pieces? cs).map fun (ps, rest) => ((textOf? ps).map String.ofList, rest)

def digits? (cs : List Char) : Option (List Char × List Char) :=
  let ds := cs.takeWhile Text.isDigit
  if ds.isEmpty then none else some (ds, cs.dropWhile Text.isDigit)

/-- Reads the digits before a fraction: a zero alone or digits that do not begin with zero. -/
def whole? : List Char → Option (List Char × List Char)
  | '0' :: c :: rest => if Text.isDigit c then none else some (['0'], c :: rest)
  | cs => digits? cs

/-- Skips a fraction, if there is one, and tells whether there was. -/
def fraction? : List Char → Option (Bool × List Char)
  | '.' :: rest => (digits? rest).map fun (_, rest) => (true, rest)
  | cs => some (false, cs)

def skipSign : List Char → List Char
  | '+' :: rest => rest
  | '-' :: rest => rest
  | cs => cs

def exponent? : List Char → Option (Bool × List Char)
  | 'e' :: rest => (digits? (skipSign rest)).map fun (_, rest) => (true, rest)
  | 'E' :: rest => (digits? (skipSign rest)).map fun (_, rest) => (true, rest)
  | cs => some (false, cs)

def unsigned? (negative : Bool) (cs : List Char) : Option (Json × List Char) := do
  let (ds, rest) ← whole? cs
  let (hasFraction, rest) ← fraction? rest
  let (hasExponent, rest) ← exponent? rest
  let n ← Text.digits? ds
  let value :=
    if hasFraction || hasExponent || (negative && n == 0) then .decimal
    else .integer (if negative then -(n : Int) else n)
  return (value, rest)

mutual

def value? : Nat → List Char → Option (Json × List Char)
  | 0, _ => none
  | fuel + 1, cs =>
    match skipSpace cs with
    | 'n' :: 'u' :: 'l' :: 'l' :: rest => some (.null, rest)
    | 't' :: 'r' :: 'u' :: 'e' :: rest => some (.boolean true, rest)
    | 'f' :: 'a' :: 'l' :: 's' :: 'e' :: rest => some (.boolean false, rest)
    | '"' :: rest =>
      (string? rest).map fun
        | (some s, rest) => (.string s, rest)
        | (none, rest) => (.brokenString, rest)
    | '[' :: rest =>
      match skipSpace rest with
      | ']' :: rest => some (.array [], rest)
      | rest => items? fuel [] rest
    | '\x7b' :: rest =>
      match skipSpace rest with
      | '\x7d' :: rest => some (.object [], rest)
      | rest => members? fuel [] rest
    | '-' :: rest => unsigned? true rest
    | rest => unsigned? false rest

/-- Reads the remaining items of an array, given the reversed ones before. -/
def items? : Nat → List Json → List Char → Option (Json × List Char)
  | 0, _, _ => none
  | fuel + 1, before, cs =>
    match value? fuel cs with
    | none => none
    | some (item, rest) =>
      match skipSpace rest with
      | ',' :: rest => items? fuel (item :: before) rest
      | ']' :: rest => some (.array (item :: before).reverse, rest)
      | _ => none

def members? : Nat → List (Option String × Json) → List Char → Option (Json × List Char)
  | 0, _, _ => none
  | fuel + 1, before, cs =>
    match skipSpace cs with
    | '"' :: rest =>
      match string? rest with
      | none => none
      | some (name, rest) =>
        match skipSpace rest with
        | ':' :: rest =>
          match value? fuel rest with
          | none => none
          | some (item, rest) =>
            match skipSpace rest with
            | ',' :: rest => members? fuel ((name, item) :: before) rest
            | '\x7d' :: rest => some (.object ((name, item) :: before).reverse, rest)
            | _ => none
        | _ => none
    | _ => none

end

/-- Reads a text that is one value. Each step of the reader uses up a character, so that the
length of the text is fuel enough. -/
def parse? (text : List Char) : Option Json :=
  match value? (text.length + 1) text with
  | some (v, rest) => if (skipSpace rest).isEmpty then some v else none
  | none => none

end Json

end TernaryMachine
