/-
Sets of code points, given as closed ranges in ascending order.
-/

namespace LetLint.Text

/-- Closed ranges of code points, each above the one before it. -/
abbrev CodeRanges := List (Nat × Nat)

/-- Membership; the scan stops at the first range above the code point. -/
def CodeRanges.contains : CodeRanges → Nat → Bool
  | [], _ => false
  | (low, high) :: rest, code =>
    if code < low then false else code ≤ high || CodeRanges.contains rest code

end LetLint.Text
