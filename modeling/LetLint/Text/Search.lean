/-
Searching in texts: whether a piece occurs, and replacing every occurrence of a piece, taken from
the left without overlaps.
-/

namespace LetLint.Text

/-- The piece starts at some place of the characters. -/
def occursIn (piece : List Char) : List Char → Bool
  | [] => piece.isEmpty
  | c :: cs => piece.isPrefixOf (c :: cs) || occursIn piece cs

/-- The text contains the piece. -/
def contains (text piece : String) : Bool := occursIn piece.toList text.toList

/-- Replaces the occurrences of a piece that start after the next `skip` characters; those
characters belong to an occurrence already replaced. -/
def replaceFrom (piece value : List Char) : Nat → List Char → List Char
  | _, [] => []
  | skip + 1, _ :: cs => replaceFrom piece value skip cs
  | 0, c :: cs =>
    if piece.isPrefixOf (c :: cs) then
      value ++ replaceFrom piece value (piece.length - 1) cs
    else
      c :: replaceFrom piece value 0 cs

/-- Replaces every occurrence of a non-empty piece, from the left. -/
def replaceAll (text piece value : String) : String :=
  String.ofList (replaceFrom piece.toList value.toList 0 text.toList)

end LetLint.Text
