/-
Lines of a text. A line ends at a line feed, or at a carriage return with a line feed after it;
a text that ends with a line end has no empty line behind it.
-/
import LetLint.Text.CharClass

namespace LetLint.Text

/-- The lines of the characters, without their line ends. -/
def lines : List Char → List (List Char)
  | [] => []
  | c :: cs =>
    if c = '\n' then [] :: lines cs
    else if c = '\r' ∧ cs.head? = some '\n' then lines cs
    else
      match lines cs with
      | [] => [[c]]
      | line :: rest => (c :: line) :: rest

/-- Drops the longest run of matching characters at the end. -/
def dropTrailing (drops : Char → Bool) (cs : List Char) : List Char :=
  (cs.reverse.dropWhile drops).reverse

/-- Drops the blanks at the end. -/
def trimEnd (cs : List Char) : List Char := dropTrailing isBlank cs

end LetLint.Text
