/-
Trees whose identifiers are renamed. Each identifier gets the name that a function of its bytes and its
old name says, and all else stays: the kinds, the spans and the parts, and with them the nodes in their
order, their indices and the arena. A tree in which every identifier keeps its name is not changed.
-/
import LetLint.Proofs.Tree.Relocation

namespace LetLint

namespace Tree

mutual

/-- The tree with every identifier renamed. -/
def rename (g : Span → String → String) : Tree → Tree
  | .leaf (.identifier name) span => .leaf (.identifier (g span name)) span
  | .leaf atom span => .leaf atom span
  | .node kind span children => .node kind span (renameAll g children)

/-- The trees with every identifier renamed. -/
def renameAll (g : Span → String → String) : List Tree → List Tree
  | [] => []
  | t :: ts => t.rename g :: renameAll g ts

end

variable (g : Span → String → String) (t : Tree)

theorem renameAll_eq (ts : List Tree) : renameAll g ts = ts.map (rename g) := by
  induction ts with
  | nil => rfl
  | cons t ts ih => rw [renameAll, ih, List.map_cons]

@[simp] theorem kind_rename : (t.rename g).kind = t.kind := by
  rcases t with ⟨atom, _⟩ | _
  · cases atom <;> rfl
  · rfl

@[simp] theorem span_rename : (t.rename g).span = t.span := by
  rcases t with ⟨atom, _⟩ | _
  · cases atom <;> rfl
  · rfl

@[simp] theorem name?_rename : (t.rename g).name? = t.name?.map (g t.span) := by
  rcases t with ⟨atom, _⟩ | _
  · cases atom <;> rfl
  · rfl

@[simp] theorem children_rename : (t.rename g).children = t.children.map (rename g) := by
  rcases t with ⟨atom, _⟩ | ⟨_, _, ts⟩
  · cases atom <;> rfl
  · exact renameAll_eq g ts

/-- A renamed tree has the kind and the parts of the tree. -/
theorem keeps_rename : Keeps (rename g) := ⟨kind_rename g, children_rename g⟩

/-! ## Names that are kept, and spans that are moved -/

mutual

/-- If every identifier keeps its name, the tree stays as it is. -/
theorem rename_eq_self : ∀ t : Tree, (∀ u ∈ t.preorder, ∀ name, u.name? = some name → g u.span name = name) →
    t.rename g = t
  | .leaf atom span, h => by
    cases atom with
    | identifier name =>
      have hname : g span name = name := h (.leaf (.identifier name) span) (by simp [preorder]) name rfl
      rw [rename, hname]
    | _ => rfl
  | .node kind span ts, h => by
    rw [rename, renameAll_eq_self ts fun u hu => h u (by rw [preorder]; exact List.mem_cons_of_mem _ hu)]

theorem renameAll_eq_self : ∀ ts : List Tree,
    (∀ u ∈ preorderAll ts, ∀ name, u.name? = some name → g u.span name = name) → renameAll g ts = ts
  | [], _ => rfl
  | t :: ts, h => by
    rw [preorderAll] at h
    rw [renameAll, rename_eq_self t fun u hu => h u (List.mem_append_left _ hu),
      renameAll_eq_self ts fun u hu => h u (List.mem_append_right _ hu)]

end

mutual

/-- A moved tree is renamed by what its identifiers are moved to. -/
theorem rename_mapSpan (f : Span → Span) : ∀ t : Tree,
    (t.mapSpan f).rename g = (t.rename fun span => g (f span)).mapSpan f
  | .leaf atom _ => by cases atom <;> rfl
  | .node _ _ ts => by simp only [mapSpan, rename, renameAll_mapSpanAll f ts]

theorem renameAll_mapSpanAll (f : Span → Span) : ∀ ts : List Tree,
    renameAll g (mapSpanAll f ts) = mapSpanAll f (renameAll (fun span => g (f span)) ts)
  | [] => rfl
  | t :: ts => by simp only [mapSpanAll, renameAll, rename_mapSpan f t, renameAll_mapSpanAll f ts]

end

/-- A renamed tree is listed as the tree is. -/
theorem cells_rename (first : Nat) (parent : Option Nat) : (t.rename g).cells first parent = t.cells first parent := by
  rw [(keeps_rename g).map_cells (f := fun span => span) (span_rename g)]
  exact List.map_id' _

end Tree

/-! ## Nodes -/

/-- The step with the identifiers of the tree above renamed. -/
def Crumb.rename (g : Span → String → String) (c : Crumb) : Crumb := ⟨c.parent.rename g, c.index⟩

namespace Node

/-- The node with all identifiers renamed, those above it as well. -/
def rename (g : Span → String → String) (n : Node) : Node := ⟨n.tree.rename g, n.above.map (Crumb.rename g)⟩

variable (g : Span → String → String) (n : Node)

@[simp] theorem tree_rename : (n.rename g).tree = n.tree.rename g := rfl

@[simp] theorem kind_rename : (n.rename g).kind = n.kind := Tree.kind_rename g n.tree

@[simp] theorem span_rename : (n.rename g).span = n.span := Tree.span_rename g n.tree

theorem name_rename_of_ne {n : Node} (hk : n.kind ≠ .identifier) : (n.rename g).name = n.name := by
  rcases n with ⟨⟨atom, span⟩ | _, above⟩
  · cases atom with
    | identifier name => exact absurd rfl hk
    | _ => rfl
  · rfl

/-- A renamed node has the kind and the parts of the node. -/
theorem keeps_rename : Keeps (rename g) := (Tree.keeps_rename g).map_node

@[simp] theorem index_rename : (n.rename g).index = n.index := (Tree.keeps_rename g).index_eq n

theorem rename_mapSpan (f : Span → Span) :
    (n.mapSpan f).rename g = (n.rename fun span => g (f span)).mapSpan f := by
  unfold mapSpan rename
  rw [Tree.rename_mapSpan, List.map_map, List.map_map]
  congr 2
  funext c
  exact congrArg (Crumb.mk · c.index) (Tree.rename_mapSpan g f c.parent)

end Node

end LetLint
