/-
The walk below a node is the pre-order of its tree. `descendants` takes nodes off a list of pending
ones for a bounded number of rounds; the bound is the size of the tree, which is exactly enough, so
the walk of several nodes is the walk of the first one followed by the walk of the others. From
this: a node's descendants are, part by part, the part and the part's descendants, their trees are
the recursive pre-order, and what holds of a node whenever it holds of its parts holds of all nodes.
-/
import LetLint.Tree.Document
import Mathlib.Data.List.Basic

namespace LetLint

namespace Tree

@[simp] theorem kind_leaf (atom : Atom) (span : Span) : (Tree.leaf atom span).kind = atom.kind := rfl

@[simp] theorem kind_node (kind : Kind) (span : Span) (ts : List Tree) : (Tree.node kind span ts).kind = kind := rfl

theorem sizeAll_append (ts us : List Tree) : sizeAll (ts ++ us) = sizeAll ts + sizeAll us := by
  induction ts with
  | nil => simp [sizeAll]
  | cons t ts ih => simp [sizeAll, ih, Nat.add_assoc]

theorem size_eq (t : Tree) : t.size = sizeAll t.children + 1 := by
  cases t with
  | leaf _ _ => simp [size, children, sizeAll]
  | node _ _ _ => simp [size, children]

theorem size_lt_of_mem {t : Tree} : ∀ {ts : List Tree}, t ∈ ts → t.size < sizeAll ts + 1
  | u :: us, h => by
    simp only [sizeAll]
    rcases List.mem_cons.1 h with rfl | h
    · omega
    · have := size_lt_of_mem h; omega

theorem preorder_eq (t : Tree) : t.preorder = t :: preorderAll t.children := by
  cases t with
  | leaf _ _ => simp [preorder, children, preorderAll]
  | node _ _ _ => simp [preorder, children]

theorem preorderAll_eq_flatMap (ts : List Tree) : preorderAll ts = ts.flatMap preorder := by
  induction ts with
  | nil => simp [preorderAll]
  | cons t ts ih => simp [preorderAll, ih]

theorem mem_preorderAll {t : Tree} {ts : List Tree} (h : t ∈ ts) : t ∈ preorderAll ts := by
  rw [preorderAll_eq_flatMap]
  exact List.mem_flatMap.2 ⟨t, h, by simp [preorder_eq]⟩

@[simp] theorem preorderAll_append (ts us : List Tree) :
    preorderAll (ts ++ us) = preorderAll ts ++ preorderAll us := by
  simp [preorderAll_eq_flatMap]

end Tree

namespace Node

variable {n m : Node}

@[simp] theorem map_tree_children (n : Node) : n.children.map tree = n.tree.children := by
  apply List.ext_getElem?
  intro i
  simp [children, Function.comp_def]

theorem map_tree_firstChild? (n : Node) : n.firstChild?.map tree = n.tree.firstChild? := by
  rw [firstChild?, ← List.head?_map, map_tree_children, Tree.firstChild?]

theorem map_tree_lastChild? (n : Node) : n.lastChild?.map tree = n.tree.lastChild? := by
  rw [lastChild?, ← List.getLast?_map, map_tree_children, Tree.lastChild?]

/-- The number of nodes that a walk through some pending ones goes through. -/
def pendingSize (ns : List Node) : Nat := Tree.sizeAll (ns.map tree)

theorem pendingSize_cons (n : Node) (ns : List Node) :
    pendingSize (n :: ns) = pendingSize (n.children ++ ns) + 1 := by
  simp only [pendingSize, List.map_cons, List.map_append, map_tree_children, Tree.sizeAll,
    Tree.sizeAll_append, Tree.size_eq]
  omega

/-- Rounds beyond the number of pending nodes change nothing. -/
theorem walk_of_le : ∀ (bound more : Nat) (ns : List Node), pendingSize ns ≤ bound → bound ≤ more →
    walk more ns = walk bound ns
  | 0, more, [], _, _ => by cases more <;> rfl
  | 0, _, n :: ns, h, _ => by rw [pendingSize_cons] at h; omega
  | bound + 1, 0, _, _, h => by omega
  | bound + 1, more + 1, [], _, _ => rfl
  | bound + 1, more + 1, n :: ns, h, hm => by
    rw [pendingSize_cons] at h
    simp only [walk]
    rw [walk_of_le bound more _ (by omega) (by omega)]

/-- The walk of some nodes and others is the walk of the ones and then the walk of the others. -/
theorem walk_append : ∀ {bound : Nat} {ns ms : List Node}, pendingSize (ns ++ ms) ≤ bound →
    walk bound (ns ++ ms) = walk bound ns ++ walk bound ms
  | bound, [], ms, _ => by cases bound <;> simp [walk]
  | 0, n :: ns, ms, h => by rw [List.cons_append, pendingSize_cons] at h; omega
  | bound + 1, n :: ns, ms, h => by
    rw [List.cons_append, pendingSize_cons, ← List.append_assoc] at h
    have hms : pendingSize ms ≤ bound := by
      simp only [pendingSize, List.map_append, Tree.sizeAll_append] at h ⊢
      omega
    rw [walk_of_le bound (bound + 1) ms hms (Nat.le_succ bound)]
    simp only [List.cons_append, walk]
    rw [← List.append_assoc, walk_append (by omega)]

theorem walk_eq_flatMap : ∀ (bound : Nat) (ns : List Node), pendingSize ns ≤ bound →
    walk bound ns = ns.flatMap withDescendants
  | bound, [], _ => by cases bound <;> rfl
  | 0, n :: ns, h => by rw [pendingSize_cons] at h; omega
  | bound + 1, n :: ns, h => by
    rw [pendingSize_cons] at h
    have hn : pendingSize n.children + 1 = n.tree.size := by
      rw [pendingSize, map_tree_children, Tree.size_eq]
    have hns : pendingSize n.children + pendingSize ns ≤ bound := by
      simp only [pendingSize, List.map_append, Tree.sizeAll_append] at h ⊢
      omega
    simp only [walk, List.flatMap_cons, withDescendants, List.cons_append]
    -- both walks below `n` come down to the one with exactly as many rounds as there are nodes
    rw [walk_append (by omega), walk_eq_flatMap bound ns (by omega), descendants,
      walk_of_le (pendingSize n.children) n.tree.size _ (Nat.le_refl _) (by omega),
      walk_of_le (pendingSize n.children) bound _ (Nat.le_refl _) (by omega)]

/-- The descendants of a node: for each part, the part and its descendants. -/
theorem descendants_eq (n : Node) : n.descendants = n.children.flatMap withDescendants := by
  refine walk_eq_flatMap _ _ ?_
  rw [pendingSize, map_tree_children, Tree.size_eq]
  omega

/-- What a node has whenever all its parts have it, every node has. -/
theorem induction {P : Node → Prop} (step : ∀ n : Node, (∀ m ∈ n.children, P m) → P n) (n : Node) : P n := by
  induction hs : n.tree.size using Nat.strongRecOn generalizing n with
  | ind size ih =>
    refine step n fun m hm => ih m.tree.size ?_ m rfl
    have hmem : m.tree ∈ n.tree.children := map_tree_children n ▸ List.mem_map_of_mem hm
    rw [← hs, Tree.size_eq n.tree]
    exact Tree.size_lt_of_mem hmem

/-- The trees of a node and its descendants are the pre-order of its tree. -/
theorem map_tree_withDescendants (n : Node) : n.withDescendants.map tree = n.tree.preorder := by
  induction n using induction with
  | step n ih =>
    rw [withDescendants, List.map_cons, descendants_eq, Tree.preorder_eq, Tree.preorderAll_eq_flatMap,
      ← map_tree_children, List.map_flatMap, List.flatMap_map]
    congr 1
    exact List.flatMap_congr ih

theorem map_tree_descendants (n : Node) : n.descendants.map tree = Tree.preorderAll n.tree.children := by
  have hall := map_tree_withDescendants n
  rw [Tree.preorder_eq, withDescendants, List.map_cons] at hall
  exact (List.cons.inj hall).2

end Node

theorem Document.map_tree_nodes (doc : Document) : doc.nodes.map Node.tree = doc.tree.preorder :=
  Node.map_tree_withDescendants _

end LetLint
