/-!
Lines of a text. A line ends at a line feed, which takes one carriage return before it away too;
the text after the last line feed is a line only if it is not empty.
-/

set_option autoImplicit false
set_option relaxedAutoImplicit false

namespace TernaryMachine.Text

/-- Takes one carriage return off the end. -/
def dropReturn (line : List Char) : List Char :=
  match line.reverse with
  | '\r' :: r => r.reverse
  | _ => line

/-- The lines of the text `cs`, `line` being the reversed beginning of the first one. -/
def linesFrom (line : List Char) : List Char → List (List Char)
  | [] => if line.isEmpty then [] else [line.reverse]
  | c :: cs =>
    if c = '\n' then dropReturn line.reverse :: linesFrom [] cs else linesFrom (c :: line) cs

def lines (cs : List Char) : List (List Char) := linesFrom [] cs

example : lines "a\r\nb\n\r\n\nc\r".toList
    = ["a".toList, "b".toList, [], [], "c\r".toList] := by decide

end TernaryMachine.Text
