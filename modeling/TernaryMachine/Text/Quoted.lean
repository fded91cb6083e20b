import TernaryMachine.Text.Printable

/-!
Quoted text for diagnostics. Control characters with a short form, the backslash and the quote in
use get a backslash; characters that are not printable or only extend the one before them are
written by their code point in hexadecimal.
-/

set_option autoImplicit false
set_option relaxedAutoImplicit false

namespace TernaryMachine.Text

def hexDigits (n : Nat) : List Char :=
  if n < 16 then [Nat.digitChar n] else hexDigits (n / 16) ++ [Nat.digitChar (n % 16)]

def escape (quote : Char) (c : Char) : List Char :=
  if c = '\x00' then ['\\', '0']
  else if c = '\t' then ['\\', 't']
  else if c = '\r' then ['\\', 'r']
  else if c = '\n' then ['\\', 'n']
  else if c = '\\' then ['\\', '\\']
  else if c = quote then ['\\', quote]
  else if isExtending c || !isPrintable c then
    ['\\', 'u', '\x7b'] ++ hexDigits c.toNat ++ ['\x7d']
  else [c]

def quotedChar (c : Char) : String := String.ofList (['\x27'] ++ escape '\x27' c ++ ['\x27'])

def quoted (s : String) : String :=
  String.ofList (['"'] ++ s.toList.flatMap (escape '"') ++ ['"'])

example : quotedChar '\x27' = "\x27\\\x27\x27" := by decide +kernel

example : quoted "a\"\u0301" = "\"a\\\"\\u\x7b301\x7d\"" := by decide +kernel

example : quoted "\u115f\uff9e" = "\"\\u\x7b115f\x7d\uff9e\"" := by decide +kernel

end TernaryMachine.Text
