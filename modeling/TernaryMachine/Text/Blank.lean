/-!
Blank characters and the operations on text that turn on them: trimming, splitting into words and
cutting at the first blank.
-/

set_option autoImplicit false
set_option relaxedAutoImplicit false

namespace TernaryMachine.Text

/-- The characters with the Unicode property White_Space. -/
def isBlank (c : Char) : Bool :=
  let n := c.toNat
  decide (9 ≤ n ∧ n ≤ 13) || n == 0x20 || n == 0x85 || n == 0xA0 || n == 0x1680
    || decide (0x2000 ≤ n ∧ n ≤ 0x200A) || n == 0x2028 || n == 0x2029 || n == 0x202F
    || n == 0x205F || n == 0x3000

def isInk (c : Char) : Bool := !isBlank c

def trimStart (cs : List Char) : List Char := cs.dropWhile isBlank

def trimEnd (cs : List Char) : List Char := (trimStart cs.reverse).reverse

def trim (cs : List Char) : List Char := trimEnd (trimStart cs)

/-- The blank-free pieces of `cs`, `word` being the reversed beginning of the first one. -/
def wordsFrom (word : List Char) : List Char → List (List Char)
  | [] => if word.isEmpty then [] else [word.reverse]
  | c :: cs =>
    if isBlank c then
      if word.isEmpty then wordsFrom [] cs else word.reverse :: wordsFrom [] cs
    else wordsFrom (c :: word) cs

def words (cs : List Char) : List (List Char) := wordsFrom [] cs

def headWord (cs : List Char) : List Char := cs.takeWhile isInk

def afterWord (cs : List Char) : List Char := cs.dropWhile isInk

/-- The text before the first blank and the text after that one blank; without a blank the second
is empty. -/
def cutAtBlank (cs : List Char) : List Char × List Char := (headWord cs, (afterWord cs).drop 1)

example : words " a\tbc\u00a0d ".toList = [['a'], ['b', 'c'], ['d']] := by decide

end TernaryMachine.Text
