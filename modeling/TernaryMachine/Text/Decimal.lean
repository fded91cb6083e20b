import TernaryMachine.Signed32

/-!
Decimal numbers: how integers are written, how signed 32-bit and unsigned 64-bit numbers are read,
and how text is padded to a column.
-/

set_option autoImplicit false
set_option relaxedAutoImplicit false

namespace TernaryMachine.Text

def natDigits (n : Nat) : List Char :=
  if n < 10 then [Nat.digitChar n] else natDigits (n / 10) ++ [Nat.digitChar (n % 10)]

def decimal (n : Int) : List Char :=
  if n < 0 then '-' :: natDigits n.natAbs else natDigits n.natAbs

def isDigit (c : Char) : Bool := decide ('0' ≤ c) && decide (c ≤ '9')

def digitValue (c : Char) : Nat := c.toNat - '0'.toNat

/-- The number written by a non-empty run of digits. -/
def digits? (cs : List Char) : Option Nat :=
  if cs.isEmpty || !cs.all isDigit then none
  else some (cs.foldl (fun n c => n * 10 + digitValue c) 0)

/-- Reads a decimal with at most one sign, without limit. -/
def integer? : List Char → Option Int
  | '-' :: cs => (digits? cs).map fun n => -(n : Int)
  | '+' :: cs => (digits? cs).map Int.ofNat
  | cs => (digits? cs).map Int.ofNat

def signed32? (cs : List Char) : Option Int := (integer? cs).bind Signed32.check?

/-- Reads a decimal with at most a plus sign that fits 64 bits unsigned. -/
def unsigned64? (cs : List Char) : Option Nat :=
  let n? := match cs with
    | '+' :: rest => digits? rest
    | _ => digits? cs
  n?.bind fun n => if n < UInt64.size then some n else none

def padLeft (width : Nat) (cs : List Char) : List Char :=
  List.replicate (width - cs.length) ' ' ++ cs

def padRight (width : Nat) (cs : List Char) : List Char :=
  cs ++ List.replicate (width - cs.length) ' '

end TernaryMachine.Text
