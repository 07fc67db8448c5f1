/-
A node is a tree in its surroundings: the trees above it, and which part of each it lies in. Two
nodes of one tree are the same if the same steps lead to them.
-/
import LetLint.Tree.View

namespace LetLint

/-- A step down: the tree above, and the index of the part that was entered. -/
structure Crumb where
  parent : Tree
  index : Nat
  deriving Inhabited

/-- A tree with the steps that led to it, the last one first. -/
structure Node where
  tree : Tree
  above : List Crumb
  deriving Inhabited

namespace Node

/-- The root of a tree. -/
def ofRoot (t : Tree) : Node := ⟨t, []⟩

/-- The kind of a node. -/
def kind (n : Node) : Kind := n.tree.kind

/-- The bytes that a node covers. -/
def span (n : Node) : Span := n.tree.span

/-- The indices of the steps that lead to a node, the last one first. -/
def path (n : Node) : List Nat := n.above.map (·.index)

/-- The same steps lead to both nodes. -/
def same (n m : Node) : Bool := n.path == m.path

/-- The node one step above. -/
def parent? (n : Node) : Option Node :=
  match n.above with
  | [] => none
  | crumb :: above => some ⟨crumb.parent, above⟩

/-- The nodes that steps lead through, the nearest first. -/
def ancestorsOf : List Crumb → List Node
  | [] => []
  | crumb :: above => ⟨crumb.parent, above⟩ :: ancestorsOf above

/-- The nodes above a node, from its parent up to the root. -/
def ancestors (n : Node) : List Node := ancestorsOf n.above

/-- The nodes one step below. -/
def children (n : Node) : List Node :=
  n.tree.children.mapIdx fun index t => ⟨t, ⟨n.tree, index⟩ :: n.above⟩

theorem parent?_of_mem_children {n m : Node} (h : m ∈ n.children) : m.parent? = some n := by
  unfold children at h
  obtain ⟨index, _, rfl⟩ := List.mem_mapIdx.1 h
  rfl

/-- The first node one step below. -/
def firstChild? (n : Node) : Option Node := n.children.head?

/-- The last node one step below. -/
def lastChild? (n : Node) : Option Node := n.children.getLast?

/-- The node is the first part of its parent. -/
def isFirstChild (n : Node) : Bool :=
  match n.above with
  | [] => false
  | crumb :: _ => crumb.index == 0

/-- The node is the last part of its parent. -/
def isLastChild (n : Node) : Bool :=
  match n.above with
  | [] => false
  | crumb :: _ => crumb.index + 1 == crumb.parent.children.length

/-- Takes the front node off a list of pending ones, puts its parts in its place, and goes on,
for at most `bound` nodes. -/
def walk : Nat → List Node → List Node
  | 0, _ => []
  | _, [] => []
  | bound + 1, n :: pending => n :: walk bound (n.children ++ pending)

/-- The nodes below a node, in the order of the text. -/
def descendants (n : Node) : List Node := walk n.tree.size n.children

/-- A node and the nodes below it, in the order of the text. -/
def withDescendants (n : Node) : List Node := n :: n.descendants

/-- The nodes below a node that have the kind. -/
def descendantsOfKind (kind : Kind) (n : Node) : List Node :=
  n.descendants.filter (·.kind = kind)

end Node

end LetLint
