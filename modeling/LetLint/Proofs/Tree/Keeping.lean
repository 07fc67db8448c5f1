/-
Changes of trees that keep kinds and parts. The views of a tree, the walks through its nodes, their
indices and the arena ask for nothing else, so all of these follow such a change: what is found in the
changed tree is what is found in the tree, changed.
-/
import LetLint.Proofs.Tree.Listing

namespace LetLint

/-- The cell with its span moved. -/
def Cell.mapSpan (f : Span → Span) (c : Cell) : Cell := { c with span := f c.span }

/-! ## Trees -/

namespace Tree

/-- The function changes trees, but neither their kinds nor which parts they have. -/
structure Keeps (φ : Tree → Tree) : Prop where
  kind_eq : ∀ t, (φ t).kind = t.kind
  children_eq : ∀ t, (φ t).children = t.children.map φ

namespace Keeps

variable {φ : Tree → Tree}

mutual

theorem size_eq (h : Keeps φ) : ∀ t : Tree, (φ t).size = t.size
  | .leaf _ _ => by
    rw [Tree.size_eq, h.children_eq]
    rfl
  | .node _ _ ts => by
    rw [Tree.size_eq, h.children_eq]
    exact congrArg (· + 1) (h.sizeAll_map ts)

theorem sizeAll_map (h : Keeps φ) : ∀ ts : List Tree, sizeAll (ts.map φ) = sizeAll ts
  | [] => rfl
  | t :: ts => by rw [List.map_cons, sizeAll, sizeAll, h.size_eq t, h.sizeAll_map ts]

end

theorem roots_map (h : Keeps φ) (first : Nat) (ts : List Tree) : roots first (ts.map φ) = roots first ts := by
  unfold roots
  induction ts generalizing first with
  | nil => rfl
  | cons t ts ih => rw [List.map_cons, layOut, layOut, h.children_eq, h.sizeAll_map, h.size_eq, ih]

mutual

/-- A changed tree is listed as the tree is, with the spans of the cells changed. -/
theorem map_cells (h : Keeps φ) {f : Span → Span} (hspan : ∀ t, (φ t).span = f t.span) (first : Nat)
    (parent : Option Nat) : ∀ t : Tree, (φ t).cells first parent = (t.cells first parent).map (Cell.mapSpan f)
  | .leaf _ _ => by
    rw [cells_eq, h.children_eq, h.kind_eq, hspan]
    rfl
  | .node kind span ts => by
    have hparts : (Tree.node kind span ts).children = ts := rfl
    rw [cells_eq, cells_eq _ _ (.node kind span ts), h.children_eq, h.kind_eq, hspan, h.sizeAll_map, h.roots_map,
      hparts, h.map_cellsAll hspan first _ ts, List.map_append]
    rfl

theorem map_cellsAll (h : Keeps φ) {f : Span → Span} (hspan : ∀ t, (φ t).span = f t.span) (first : Nat)
    (parent : Option Nat) : ∀ ts : List Tree,
    cellsAll first parent (ts.map φ) = (cellsAll first parent ts).map (Cell.mapSpan f)
  | [] => by simp [cellsAll]
  | t :: ts => by
    rw [List.map_cons, cellsAll, cellsAll, h.map_cells hspan first parent t, h.size_eq,
      h.map_cellsAll hspan _ parent ts, List.map_append]

end

/-! ## Views -/

theorem firstChild?_eq (h : Keeps φ) (t : Tree) : (φ t).firstChild? = t.firstChild?.map φ := by
  rw [firstChild?, h.children_eq, List.head?_map, firstChild?]

theorem lastChild?_eq (h : Keeps φ) (t : Tree) : (φ t).lastChild? = t.lastChild?.map φ := by
  rw [lastChild?, h.children_eq, List.getLast?_map, lastChild?]

theorem bind_ofKind? (h : Keeps φ) (kind : Kind) (part? : Option Tree) :
    (part?.map φ).bind (ofKind? kind) = (part?.bind (ofKind? kind)).map φ := by
  cases part? with
  | none => rfl
  | some t =>
    rw [Option.map_some, Option.bind_some, Option.bind_some, ofKind?, h.kind_eq, ofKind?]
    split <;> rfl

theorem filter_kind (h : Keeps φ) (kind : Kind) (ts : List Tree) :
    (ts.map φ).filter (·.kind = kind) = (ts.filter (·.kind = kind)).map φ := by
  simp only [List.filter_map, Function.comp_def, h.kind_eq]

theorem find?_kind (h : Keeps φ) (kind : Kind) (ts : List Tree) :
    (ts.map φ).find? (·.kind = kind) = (ts.find? (·.kind = kind)).map φ := by
  simp only [List.find?_map, Function.comp_def, h.kind_eq]

theorem childrenOfKind_eq (h : Keeps φ) (kind : Kind) (t : Tree) :
    (φ t).childrenOfKind kind = (t.childrenOfKind kind).map φ := by
  rw [childrenOfKind, h.children_eq, h.filter_kind, childrenOfKind]

theorem parameterType?_eq (h : Keeps φ) (t : Tree) : (φ t).parameterType? = t.parameterType?.map φ := by
  rw [parameterType?, h.children_eq, h.find?_kind, parameterType?]

theorem lambdaParameters_eq (h : Keeps φ) (t : Tree) : (φ t).lambdaParameters = t.lambdaParameters.map φ := by
  unfold lambdaParameters
  rw [h.firstChild?_eq]
  cases t.firstChild? with
  | none => rfl
  | some first =>
    simp only [Option.map_some, h.kind_eq, h.childrenOfKind_eq]
    split
    · rfl
    · split <;> rfl

theorem methodParameters_eq (h : Keeps φ) (t : Tree) : (φ t).methodParameters = t.methodParameters.map φ := by
  simp only [methodParameters, h.childrenOfKind_eq, List.flatMap_map, List.map_flatMap]

end Keeps

end Tree

/-! ## Nodes -/

/-- The step with the tree above it changed. -/
def Crumb.map (φ : Tree → Tree) (c : Crumb) : Crumb := ⟨φ c.parent, c.index⟩

namespace Node

/-- The node with its tree and all trees above it changed. -/
def map (φ : Tree → Tree) (n : Node) : Node := ⟨φ n.tree, n.above.map (Crumb.map φ)⟩

/-- The function changes nodes, but neither their kinds nor which parts they have. -/
structure Keeps (φ : Node → Node) : Prop where
  kind_eq : ∀ n, (φ n).kind = n.kind
  children_eq : ∀ n, (φ n).children = n.children.map φ

namespace Keeps

variable {φ : Node → Node}

theorem map_descendants (h : Keeps φ) (n : Node) : (φ n).descendants = n.descendants.map φ := by
  induction n using induction with
  | step n ih =>
    rw [descendants_eq, descendants_eq, h.children_eq, List.flatMap_map, List.map_flatMap]
    refine List.flatMap_congr fun m hm => ?_
    rw [withDescendants, withDescendants, List.map_cons, ih m hm]

theorem map_withDescendants (h : Keeps φ) (n : Node) : (φ n).withDescendants = n.withDescendants.map φ := by
  rw [withDescendants, h.map_descendants, withDescendants, List.map_cons]

theorem map_descendantsOfKind (h : Keeps φ) (kind : Kind) (n : Node) :
    (φ n).descendantsOfKind kind = (n.descendantsOfKind kind).map φ := by
  simp [descendantsOfKind, h.map_descendants, List.filter_map, Function.comp_def, h.kind_eq]

theorem firstChild?_eq (h : Keeps φ) (n : Node) : (φ n).firstChild? = n.firstChild?.map φ := by
  rw [firstChild?, h.children_eq, List.head?_map, firstChild?]

theorem lastChild?_eq (h : Keeps φ) (n : Node) : (φ n).lastChild? = n.lastChild?.map φ := by
  rw [lastChild?, h.children_eq, List.getLast?_map, lastChild?]

end Keeps

end Node

namespace Tree.Keeps

variable {φ : Tree → Tree}

/-- Nodes keep what their trees keep. -/
theorem map_node (h : Keeps φ) : Node.Keeps (Node.map φ) where
  kind_eq n := h.kind_eq n.tree
  children_eq n := by
    apply List.ext_getElem?
    intro i
    simp only [Node.children, Node.map, h.children_eq, List.getElem?_mapIdx, List.getElem?_map, Option.map_map]
    rfl

theorem index_eq (h : Keeps φ) (n : Node) : (n.map φ).index = n.index := by
  have hfirst : (n.map φ).firstIndex = n.firstIndex := by
    simp only [Node.firstIndex, Node.map, Crumb.map, List.foldr_map, h.children_eq, ← List.map_take, h.sizeAll_map]
  rw [Node.index, hfirst, Node.map, h.children_eq, h.sizeAll_map, Node.index]

end Tree.Keeps

end LetLint
