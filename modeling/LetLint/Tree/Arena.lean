/-
An arena keeps the nodes of a tree in one array, where each names its parent and its parts by their
indices. Nodes are only ever put behind the ones that are there, and a node becomes the parent of
its parts when it is put there.
-/
import LetLint.Source.Basic
import LetLint.Tree.Kind

namespace LetLint

/-- A node of an arena. -/
structure Cell where
  kind : Kind
  span : Span
  parent : Option Nat
  children : List Nat
  deriving Repr, DecidableEq, Inhabited

/-- Nodes by their indices. -/
structure Arena where
  cells : Array Cell
  deriving Repr, DecidableEq

namespace Arena

/-- No nodes. -/
def empty : Arena := ⟨#[]⟩

/-- The number of nodes. -/
def size (arena : Arena) : Nat := arena.cells.size

/-- The node at an index. -/
def cell? (arena : Arena) (index : Nat) : Option Cell := arena.cells[index]?

/-- Makes a node the parent of another. -/
def adopt (parent : Nat) (arena : Arena) (child : Nat) : Arena :=
  ⟨arena.cells.modify child fun cell => { cell with parent := some parent }⟩

/-- Puts a node behind all others and makes it the parent of its parts. -/
def put (kind : Kind) (span : Span) (children : List Nat) (arena : Arena) : Nat × Arena :=
  let index := arena.size
  (index, ⟨(children.foldl (adopt index) arena).cells.push ⟨kind, span, none, children⟩⟩)

/-- The index of the parent of a node. -/
def parent? (arena : Arena) (index : Nat) : Option Nat := (arena.cell? index).bind (·.parent)

/-- The indices of the parts of a node. -/
def children (arena : Arena) (index : Nat) : List Nat :=
  ((arena.cell? index).map (·.children)).getD []

/-- The offset at which a node starts. -/
def startOf (arena : Arena) (index : Nat) : Nat := ((arena.cell? index).map (·.span.start)).getD 0

/-- Takes an index off the end of a stack, puts the parts of its node there with the first of them
last, and goes on, for at most `bound` nodes. -/
def walk (arena : Arena) : Nat → List Nat → List Nat
  | 0, _ => []
  | bound + 1, stack =>
    match stack.getLast? with
    | none => []
    | some index => index :: walk arena bound (stack.dropLast ++ (arena.children index).reverse)

/-- The nodes below a node, in the order of the text. -/
def descendants (arena : Arena) (index : Nat) : List Nat :=
  arena.walk arena.size (arena.children index).reverse

/-- Goes from parent to parent, for at most `bound` nodes. -/
def climb (arena : Arena) : Nat → Option Nat → List Nat
  | 0, _ => []
  | _, none => []
  | bound + 1, some index => index :: climb arena bound (arena.parent? index)

/-- The nodes above a node, from its parent on. -/
def ancestors (arena : Arena) (index : Nat) : List Nat := arena.climb arena.size (arena.parent? index)

end Arena

/-- A source text under its file name, with its nodes in an arena. -/
structure ArenaDocument where
  fileName : String
  source : Source
  arena : Arena
  root : Nat

end LetLint
