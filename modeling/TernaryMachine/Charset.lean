import TernaryMachine.Tryte

/-!
The character set of the machine: each tryte from -30 to 67 stands for one character. Zero is NUL,
the positive trytes hold digits, letters and the punctuation of prose, the negative ones control
characters and the remaining ASCII punctuation.
-/

set_option autoImplicit false
set_option relaxedAutoImplicit false

namespace TernaryMachine.Charset

/-- The characters of the trytes 1, 2, 3 and so on. -/
def positive : List Char :=
  "1234567890ABCDEFGHIJKLMNOPQRSTUVWXYZ .,!?abcdefghijklmnopqrstuvwxyz".toList

/-- The characters of the trytes -1, -2, -3 and so on. -/
def negative : List Char := "\n\t'\"#$%&()*+-/:;<=>@[\\]^_\x60\x7b|\x7d~".toList

def encode? (c : Char) : Option Tryte :=
  if c = '\x00' then some Tryte.zero
  else
    match positive.idxOf? c with
    | some i => Tryte.ofInt? (i + 1)
    | none => (negative.idxOf? c).bind fun i => Tryte.ofInt? (-(i + 1))

def decode? (t : Tryte) : Option Char :=
  if t.val = 0 then some '\x00'
  else if 0 < t.val then positive[t.val.toNat - 1]?
  else negative[(-t.val).toNat - 1]?

end TernaryMachine.Charset
