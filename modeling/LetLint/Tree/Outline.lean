/-
The outline of a tree: one row for each node, in the order of the text, with the index of the
row of its parent.
-/
import LetLint.Tree.Basic

namespace LetLint

/-- A row of an outline. -/
structure OutlineRow where
  kind : Kind
  span : Span
  /-- The index of the parent's row; the root has none. -/
  parent : Option Nat
  childCount : Nat
  deriving Repr, DecidableEq

namespace Tree

mutual

/-- The rows of a tree whose first row has the index `start`. -/
def outlineFrom (start : Nat) (parent : Option Nat) : Tree → List OutlineRow
  | .leaf atom span => [⟨atom.kind, span, parent, 0⟩]
  | .node kind span children =>
    ⟨kind, span, parent, children.length⟩ :: outlineAll (start + 1) start children

/-- The rows of the parts of one node, of which the first row has the index `start`. -/
def outlineAll (start parent : Nat) : List Tree → List OutlineRow
  | [] => []
  | t :: ts => outlineFrom start (some parent) t ++ outlineAll (start + t.size) parent ts

end

/-- The outline of a tree. -/
def outline (t : Tree) : List OutlineRow := outlineFrom 0 none t

end Tree

end LetLint
