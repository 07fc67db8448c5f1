/-
Trees listed in an arena. A tree is listed with its parts first, one after the other, and its top
last, so that a node's index follows from the sizes of what stands before it. In such an arena the
links between cells are the steps between nodes: the parts of a node's cell are the cells of its
parts, its parent's cell is the cell of its parent, and the walks up and down go through the cells
of the nodes above and below. Every index belongs to exactly one node, and so the arena is in
order: nothing in it is left over, and no walk runs in circles.
-/
import LetLint.Proofs.Tree.Order
import LetLint.Tree.Arena
import Mathlib.Data.List.Nodup
import Mathlib.Data.List.Perm.Basic

namespace LetLint

/-! ## Listings -/

namespace Tree

/-- What a function makes of trees, and of the index from which on each of them is listed, if they
are listed one after the other from an index on. -/
def layOut {α : Type} (f : Nat → Tree → α) (first : Nat) : List Tree → List α
  | [] => []
  | t :: ts => f first t :: layOut f (first + t.size) ts

/-- The indices of the tops of trees that are listed one after the other from an index on. -/
def roots (first : Nat) (ts : List Tree) : List Nat := layOut (fun first t => first + sizeAll t.children) first ts

mutual

/-- The cells of a tree that is listed from an index on, under a parent. -/
def cells (first : Nat) (parent : Option Nat) : Tree → List Cell
  | .leaf atom span => [⟨atom.kind, span, parent, []⟩]
  | .node kind span children =>
    cellsAll first (some (first + sizeAll children)) children ++ [⟨kind, span, parent, roots first children⟩]

/-- The cells of trees that are listed one after the other. -/
def cellsAll (first : Nat) (parent : Option Nat) : List Tree → List Cell
  | [] => []
  | t :: ts => t.cells first parent ++ cellsAll (first + t.size) parent ts

end

/-- A tree is listed as its parts and then its top. -/
theorem cells_eq (first : Nat) (parent : Option Nat) (t : Tree) :
    t.cells first parent = cellsAll first (some (first + sizeAll t.children)) t.children ++
      [⟨t.kind, t.span, parent, roots first t.children⟩] := by
  cases t with
  | leaf _ _ => simp [cells, cellsAll, children, roots, layOut, kind, span]
  | node _ _ _ => simp [cells, children, kind, span]

mutual

theorem length_cells (first : Nat) (parent : Option Nat) : ∀ t : Tree, (t.cells first parent).length = t.size
  | .leaf _ _ => by simp [cells, size]
  | .node _ _ children => by simp [cells, size, length_cellsAll _ _ children]

theorem length_cellsAll (first : Nat) (parent : Option Nat) :
    ∀ ts : List Tree, (cellsAll first parent ts).length = sizeAll ts
  | [] => by simp [cellsAll, sizeAll]
  | t :: ts => by simp [cellsAll, sizeAll, length_cells _ _ t, length_cellsAll _ _ ts]

end

/-- The top of a tree that is listed behind other cells is found at its index. -/
theorem getElem?_top (before after : List Cell) (parent : Option Nat) (t : Tree) :
    (before ++ (t.cells before.length parent ++ after))[before.length + sizeAll t.children]? =
      some ⟨t.kind, t.span, parent, roots before.length t.children⟩ := by
  rw [cells_eq, List.append_assoc, List.getElem?_append_right (Nat.le_add_right _ _), Nat.add_sub_cancel_left,
    List.getElem?_append_right (Nat.le_of_eq (length_cellsAll _ _ _)), length_cellsAll, Nat.sub_self]
  rfl

theorem cellsAll_append (first : Nat) (parent : Option Nat) (ts us : List Tree) :
    cellsAll first parent (ts ++ us) = cellsAll first parent ts ++ cellsAll (first + sizeAll ts) parent us := by
  induction ts generalizing first with
  | nil => simp [cellsAll, sizeAll]
  | cons t ts ih => simp [cellsAll, sizeAll, ih, Nat.add_assoc]

@[simp] theorem length_layOut {α : Type} (f : Nat → Tree → α) (first : Nat) (ts : List Tree) :
    (layOut f first ts).length = ts.length := by
  induction ts generalizing first with
  | nil => rfl
  | cons t ts ih => simp [layOut, ih]

theorem layOut_append {α : Type} (f : Nat → Tree → α) (first : Nat) (ts us : List Tree) :
    layOut f first (ts ++ us) = layOut f first ts ++ layOut f (first + sizeAll ts) us := by
  induction ts generalizing first with
  | nil => simp [layOut, sizeAll]
  | cons t ts ih => simp [layOut, sizeAll, ih, Nat.add_assoc]

theorem roots_append (first : Nat) (ts us : List Tree) :
    roots first (ts ++ us) = roots first ts ++ roots (first + sizeAll ts) us := layOut_append _ first ts us

theorem getElem?_layOut {α : Type} (f : Nat → Tree → α) (first i : Nat) (ts : List Tree) :
    (layOut f first ts)[i]? = ts[i]?.map (f (first + sizeAll (ts.take i))) := by
  induction ts generalizing first i with
  | nil => simp [layOut]
  | cons t ts ih =>
    cases i with
    | zero => simp [layOut, sizeAll]
    | succ i => simp [layOut, ih, sizeAll, Nat.add_assoc]

theorem roots_increase (first : Nat) (ts : List Tree) :
    (∀ i ∈ roots first ts, first ≤ i) ∧ (roots first ts).Pairwise (· < ·) := by
  induction ts generalizing first with
  | nil => exact ⟨by simp [roots, layOut], .nil⟩
  | cons t ts ih =>
    obtain ⟨hle, hlt⟩ := ih (first + t.size)
    have hsize := size_eq t
    refine ⟨fun i hi => ?_, .cons (fun i hi => ?_) hlt⟩
    · rcases List.mem_cons.1 hi with rfl | hi
      · exact Nat.le_add_right _ _
      · have := hle i hi
        omega
    · have := hle i hi
      show first + sizeAll t.children < i
      omega

/-- Trees listed one after the other take up one range of indices. -/
theorem flatten_layOut_range' (first : Nat) (ts : List Tree) :
    (layOut (fun first t => List.range' first t.size) first ts).flatten = List.range' first (sizeAll ts) := by
  induction ts generalizing first with
  | nil => rfl
  | cons t ts ih => rw [layOut, List.flatten_cons, ih, sizeAll, List.range'_append_1]

end Tree

/-- The document with its tree listed in an arena. -/
def Document.toArena (doc : Document) : ArenaDocument :=
  ⟨doc.fileName, doc.source, ⟨(doc.tree.cells 0 none).toArray⟩, Tree.sizeAll doc.tree.children⟩

/-! ## Indices of nodes -/

namespace Node

/-- The index from which on a node's tree is listed: all parts before those that steps lead through
are listed before it. -/
def firstIndex (n : Node) : Nat :=
  n.above.foldr (fun crumb first => first + Tree.sizeAll (crumb.parent.children.take crumb.index)) 0

/-- The index of a node. -/
def index (n : Node) : Nat := n.firstIndex + Tree.sizeAll n.tree.children

/-- The parts of a node are listed one after the other from where the node's tree is listed. -/
theorem map_children {α : Type} {g : Node → α} {f : Nat → Tree → α} (h : ∀ c, g c = f c.firstIndex c.tree) (n : Node) :
    n.children.map g = Tree.layOut f n.firstIndex n.tree.children := by
  apply List.ext_getElem?
  intro i
  rw [Tree.getElem?_layOut, List.getElem?_map, children, List.getElem?_mapIdx, Option.map_map]
  congr 1
  funext t
  show g ⟨t, _⟩ = _
  rw [h]
  rfl

theorem map_index_children (n : Node) : n.children.map index = Tree.roots n.firstIndex n.tree.children := by
  rw [Tree.roots, ← map_children (fun _ => rfl) n]
  rfl

theorem nodup_map_index_children (n : Node) : (n.children.map index).Nodup := by
  rw [map_index_children]
  exact (Tree.roots_increase n.firstIndex n.tree.children).2.imp Nat.ne_of_lt

theorem flatMap_range'_children (n : Node) :
    n.children.flatMap (fun c => List.range' c.firstIndex c.tree.size) =
      List.range' n.firstIndex (Tree.sizeAll n.tree.children) := by
  rw [← Tree.flatten_layOut_range', ← map_children (fun _ => rfl) n, List.flatMap]

/-- The indices of a node and of all below it are those from where its tree is listed, each once. -/
theorem map_index_withDescendants (n : Node) :
    (n.withDescendants.map index).Perm (List.range' n.firstIndex n.tree.size) := by
  induction n using induction with
  | step n ih =>
    rw [withDescendants, List.map_cons, descendants_eq, List.map_flatMap, Tree.size_eq, List.range'_1_concat]
    have hbelow : (n.children.flatMap fun c => c.withDescendants.map index).Perm
        (List.range' n.firstIndex (Tree.sizeAll n.tree.children)) := by
      rw [← flatMap_range'_children]
      exact List.Perm.flatMap_left _ ih
    exact (hbelow.cons _).trans (List.perm_append_singleton _ _).symm

theorem ancestors_of_mem_children {n m : Node} (h : m ∈ n.children) : m.ancestors = n :: n.ancestors := by
  obtain ⟨i, -, habove⟩ := mem_children_iff.1 h
  unfold ancestors
  rw [habove]
  rfl

theorem index_of_child {n m : Node} (h : m ∈ n.children) : m.index < n.index := by
  have hmem : m.index ∈ List.range' n.firstIndex (Tree.sizeAll n.tree.children) := by
    rw [← flatMap_range'_children, List.mem_flatMap]
    refine ⟨m, h, ?_⟩
    rw [Tree.size_eq, List.range'_1_concat]
    exact List.mem_append_right _ (List.mem_singleton.2 rfl)
  exact (List.mem_range'_1.1 hmem).2

end Node

/-! ## Links between cells -/

namespace Document

variable {doc : Document} {n m : Node}

@[simp] theorem size_toArena (doc : Document) : doc.toArena.arena.size = doc.tree.size := by
  show (doc.tree.cells 0 none).toArray.size = _
  rw [List.size_toArray, Tree.length_cells]

@[simp] theorem root_toArena (doc : Document) : doc.toArena.root = doc.root.index :=
  (Nat.zero_add _).symm

/-- The tree of every node is listed in the arena where its indices say. -/
theorem cells_of_mem (hn : n ∈ doc.nodes) : ∃ before after, before.length = n.firstIndex ∧
    doc.tree.cells 0 none = before ++ (n.tree.cells n.firstIndex (n.parent?.map Node.index) ++ after) := by
  refine nodes_induction (P := fun n => ∃ before after, before.length = n.firstIndex ∧
    doc.tree.cells 0 none = before ++ (n.tree.cells n.firstIndex (n.parent?.map Node.index) ++ after))
    ⟨[], [], rfl, (List.append_nil _).symm⟩ ?_ hn
  rintro n - ⟨before, after, hlength, hcells⟩ m hm
  obtain ⟨i, htree, habove⟩ := Node.mem_children_iff.1 hm
  obtain ⟨hi, hget⟩ := List.getElem?_eq_some_iff.1 htree
  have hparts : n.tree.children = n.tree.children.take i ++ m.tree :: n.tree.children.drop (i + 1) := by
    rw [← hget, ← List.drop_eq_getElem_cons hi, List.take_append_drop]
  have hfirst : m.firstIndex = n.firstIndex + Tree.sizeAll (n.tree.children.take i) := by
    rw [Node.firstIndex, habove, List.foldr_cons]
    rfl
  have hlisted : Tree.cellsAll n.firstIndex (some n.index) n.tree.children =
      Tree.cellsAll n.firstIndex (some n.index) (n.tree.children.take i) ++ (m.tree.cells m.firstIndex (some n.index) ++
        Tree.cellsAll (m.firstIndex + m.tree.size) (some n.index) (n.tree.children.drop (i + 1))) := by
    conv_lhs => rw [hparts, Tree.cellsAll_append, Tree.cellsAll, ← hfirst]
  rw [Tree.cells_eq n.firstIndex] at hcells
  change _ = before ++ (Tree.cellsAll n.firstIndex (some n.index) n.tree.children ++ _ ++ after) at hcells
  rw [hlisted] at hcells
  simp only [List.append_assoc] at hcells
  rw [← List.append_assoc] at hcells
  rw [Node.parent?_of_mem_children hm, Option.map_some]
  refine ⟨_, _, ?_, hcells⟩
  rw [List.length_append, hlength, Tree.length_cellsAll, hfirst]

/-- The cell of a node names its kind, its bytes, its parent and its parts. -/
theorem cell?_index (hn : n ∈ doc.nodes) : doc.toArena.arena.cell? n.index =
    some ⟨n.kind, n.span, n.parent?.map Node.index, n.children.map Node.index⟩ := by
  obtain ⟨before, after, hlength, hcells⟩ := cells_of_mem hn
  show (doc.tree.cells 0 none).toArray[n.index]? = _
  rw [List.getElem?_toArray, hcells, Node.map_index_children, Node.index, ← hlength, Tree.getElem?_top]
  rfl

theorem children_index (hn : n ∈ doc.nodes) : doc.toArena.arena.children n.index = n.children.map Node.index := by
  rw [Arena.children, cell?_index hn]
  rfl

theorem parent?_index (hn : n ∈ doc.nodes) : doc.toArena.arena.parent? n.index = n.parent?.map Node.index := by
  rw [Arena.parent?, cell?_index hn]
  rfl

/-- The indices of the arena are those of the nodes, each once. -/
theorem map_index_nodes (doc : Document) : (doc.nodes.map Node.index).Perm (List.range doc.toArena.arena.size) := by
  rw [size_toArena, List.range_eq_range']
  exact doc.root.map_index_withDescendants

theorem index_lt (hn : n ∈ doc.nodes) : n.index < doc.toArena.arena.size :=
  List.mem_range.1 ((map_index_nodes doc).subset (List.mem_map_of_mem hn))

theorem exists_index_eq {i : Nat} (hi : i < doc.toArena.arena.size) : ∃ n ∈ doc.nodes, n.index = i :=
  List.mem_map.1 ((map_index_nodes doc).symm.subset (List.mem_range.2 hi))

theorem index_injOn (hn : n ∈ doc.nodes) (hm : m ∈ doc.nodes) (h : n.index = m.index) : n = m :=
  List.inj_on_of_nodup_map ((map_index_nodes doc).nodup_iff.2 List.nodup_range) hn hm h

theorem mem_map_index_iff {ns : List Node} (hns : ns ⊆ doc.nodes) (hn : n ∈ doc.nodes) :
    n.index ∈ ns.map Node.index ↔ n ∈ ns := by
  constructor
  · intro h
    obtain ⟨m, hm, heq⟩ := List.mem_map.1 h
    exact index_injOn (hns hm) hn heq ▸ hm
  · exact List.mem_map_of_mem

theorem eq_root_or_exists_parent (hn : n ∈ doc.nodes) : n = doc.root ∨ ∃ p ∈ doc.nodes, n ∈ p.children := by
  rcases mem_nodes_iff.1 hn with hroot | hbelow
  · exact .inl hroot
  · obtain ⟨p, hp, hmem⟩ := Node.exists_parent hbelow
    exact .inr ⟨p, mem_nodes_iff.2 hp, hmem⟩

/-! ## Walks -/

/-- The walk down goes through the cells of the nodes that the walk through the tree goes through. -/
theorem walk_index (bound : Nat) {ns : List Node} (hns : ns ⊆ doc.nodes) :
    doc.toArena.arena.walk bound (ns.map Node.index).reverse = (Node.walk bound ns).map Node.index := by
  induction bound generalizing ns with
  | zero => rfl
  | succ bound ih =>
    cases ns with
    | nil => rfl
    | cons n ns =>
      have hn : n ∈ doc.nodes := hns List.mem_cons_self
      have hnext : n.children ++ ns ⊆ doc.nodes := by
        intro m hm
        rcases List.mem_append.1 hm with hm | hm
        · exact mem_nodes_of_children hn hm
        · exact hns (List.mem_cons_of_mem n hm)
      rw [List.map_cons, List.reverse_cons, Arena.walk, List.getLast?_concat, List.dropLast_concat]
      dsimp only
      rw [children_index hn, ← List.reverse_append, ← List.map_append, ih hnext, Node.walk, List.map_cons]

theorem size_add_length_above_le (hn : n ∈ doc.nodes) : n.tree.size + n.above.length ≤ doc.tree.size := by
  refine nodes_induction (P := fun n => n.tree.size + n.above.length ≤ doc.tree.size) (Nat.le_refl _) ?_ hn
  intro n _ ih m hm
  obtain ⟨i, htree, habove⟩ := Node.mem_children_iff.1 hm
  have hlt := Tree.size_lt_of_mem (List.mem_of_getElem? htree)
  rw [← Tree.size_eq] at hlt
  rw [habove, List.length_cons]
  omega

theorem descendants_index (hn : n ∈ doc.nodes) :
    doc.toArena.arena.descendants n.index = n.descendants.map Node.index := by
  have hsub : n.children ⊆ doc.nodes := fun m hm => mem_nodes_of_children hn hm
  have hsize := size_add_length_above_le hn
  have hpending : Node.pendingSize n.children ≤ n.tree.size := by
    rw [Node.pendingSize, Node.map_tree_children, Tree.size_eq]
    exact Nat.le_succ _
  rw [Arena.descendants, children_index hn, walk_index _ hsub, size_toArena,
    Node.walk_of_le n.tree.size _ _ hpending (by omega), Node.descendants]

theorem climb_index (bound : Nat) (hn : n ∈ doc.nodes) (hb : n.above.length ≤ bound) :
    doc.toArena.arena.climb bound (n.parent?.map Node.index) = n.ancestors.map Node.index := by
  induction bound generalizing n with
  | zero =>
    have habove : n.above = [] := List.length_eq_zero_iff.1 (by omega)
    simp [Node.ancestors, habove, Node.ancestorsOf, Arena.climb]
  | succ bound ih =>
    rcases eq_root_or_exists_parent hn with rfl | ⟨p, hp, hmem⟩
    · rfl
    · obtain ⟨i, -, habove⟩ := Node.mem_children_iff.1 hmem
      rw [habove, List.length_cons] at hb
      rw [Node.parent?_of_mem_children hmem, Option.map_some, Arena.climb, parent?_index hp, ih hp (by omega),
        Node.ancestors_of_mem_children hmem, List.map_cons]

theorem ancestors_index (hn : n ∈ doc.nodes) :
    doc.toArena.arena.ancestors n.index = n.ancestors.map Node.index := by
  have hsize := size_add_length_above_le hn
  rw [Arena.ancestors, parent?_index hn, climb_index _ hn (by rw [size_toArena]; omega)]

theorem ancestors_subset (hn : n ∈ doc.nodes) : n.ancestors ⊆ doc.nodes := by
  refine nodes_induction (P := fun n => n.ancestors ⊆ doc.nodes) (List.nil_subset _) ?_ hn
  intro n hn ih m hm
  rw [Node.ancestors_of_mem_children hm]
  exact List.cons_subset.2 ⟨hn, ih⟩

/-- A node is below another if and only if the other is above it. -/
theorem mem_descendants_iff_mem_ancestors (hm : m ∈ doc.nodes) : m ∈ n.descendants ↔ n ∈ m.ancestors := by
  refine nodes_induction (P := fun m => m ∈ n.descendants ↔ n ∈ m.ancestors) ?_ ?_ hm
  · constructor
    · intro h
      exact absurd rfl (Node.above_ne_nil h)
    · intro h
      cases h
  · intro p _ ih m hm
    rw [Node.ancestors_of_mem_children hm, List.mem_cons, ← ih]
    constructor
    · intro h
      obtain ⟨q, hq, hmem⟩ := Node.exists_parent h
      have heq : q = p :=
        Option.some.inj ((Node.parent?_of_mem_children hmem).symm.trans (Node.parent?_of_mem_children hm))
      rw [heq] at hq
      exact hq.imp Eq.symm id
    · rintro (rfl | h)
      · exact Node.mem_descendants_of_mem_children hm
      · exact Node.descendants_trans h (Node.mem_descendants_of_mem_children hm)

theorem getLast?_ancestors (hn : n ∈ doc.nodes) : n = doc.root ∨ n.ancestors.getLast? = some doc.root := by
  refine nodes_induction (P := fun n => n = doc.root ∨ n.ancestors.getLast? = some doc.root) (.inl rfl) ?_ hn
  intro n _ ih m hm
  rw [Node.ancestors_of_mem_children hm]
  rcases ih with rfl | hlast
  · exact .inr rfl
  · refine .inr ?_
    rw [List.getLast?_cons, hlast]
    rfl

end Document

/-! ## Arenas in order -/

/-- The node at an index behind all nodes below it, part by part, for at most `depth` levels. -/
def Arena.postorderWithin (arena : Arena) : Nat → Nat → List Nat
  | 0, _ => []
  | depth + 1, index => (arena.children index).flatMap (arena.postorderWithin depth) ++ [index]

/-- The post-order below an index, with the index last. -/
def Arena.postorder (arena : Arena) (index : Nat) : List Nat := arena.postorderWithin arena.size index

/-- The arena holds one tree and nothing else: its indices are the post-order of the tree, every node
but the root is a part of its parent, once, and of no other node, and the walks up and down agree. -/
structure ArenaDocument.WellFormed (d : ArenaDocument) : Prop where
  root_last : d.root + 1 = d.arena.size
  postorder_root : d.arena.postorder d.root = List.range d.arena.size
  parent?_root : d.arena.parent? d.root = none
  root_not_mem : ∀ i, d.root ∉ d.arena.children i
  lt_of_mem : ∀ i, ∀ j ∈ d.arena.children i, j < i
  parent_unique : ∀ j < d.root, ∃ i, d.arena.parent? j = some i ∧ (d.arena.children i).count j = 1 ∧
    ∀ k, j ∈ d.arena.children k → k = i
  ancestors_end : ∀ j < d.root, (d.arena.ancestors j).getLast? = some d.root
  below_iff_above : ∀ a < d.arena.size, ∀ b < d.arena.size,
    b ∈ d.arena.descendants a ↔ a ∈ d.arena.ancestors b

namespace Document

variable {doc : Document} {n m : Node}

theorem postorderWithin_index {depth : Nat} (hn : n ∈ doc.nodes) (hd : n.tree.size ≤ depth) :
    doc.toArena.arena.postorderWithin depth n.index = List.range' n.firstIndex n.tree.size := by
  induction depth generalizing n with
  | zero =>
    have hpos := n.tree.size_pos
    omega
  | succ depth ih =>
    have hparts : (n.children.map Node.index).flatMap (doc.toArena.arena.postorderWithin depth) =
        n.children.flatMap fun c => List.range' c.firstIndex c.tree.size := by
      rw [List.flatMap_map]
      refine List.flatMap_congr fun c hc => ih (mem_nodes_of_children hn hc) ?_
      have hmem : c.tree ∈ n.tree.children := Node.map_tree_children n ▸ List.mem_map_of_mem hc
      have hlt := Tree.size_lt_of_mem hmem
      rw [← Tree.size_eq] at hlt
      omega
    rw [Arena.postorderWithin, children_index hn, hparts, Node.flatMap_range'_children, Tree.size_eq,
      List.range'_1_concat]
    rfl

/-- The node that an index with parts belongs to. -/
theorem exists_of_mem_children {i j : Nat} (h : j ∈ doc.toArena.arena.children i) :
    ∃ n ∈ doc.nodes, ∃ m ∈ n.children, n.index = i ∧ m.index = j := by
  have hi : i < doc.toArena.arena.size := by
    by_contra hge
    have hnone : doc.toArena.arena.cell? i = none := Array.getElem?_eq_none (Nat.le_of_not_lt hge)
    rw [Arena.children, hnone] at h
    cases h
  obtain ⟨n, hn, rfl⟩ := exists_index_eq hi
  rw [children_index hn] at h
  obtain ⟨m, hm, rfl⟩ := List.mem_map.1 h
  exact ⟨n, hn, m, hm, rfl, rfl⟩

theorem wellFormed_toArena (doc : Document) : doc.toArena.WellFormed := by
  have hroot : doc.root ∈ doc.nodes := mem_nodes_iff.2 (.inl rfl)
  have hbelow : ∀ {j}, j < doc.toArena.root → ∃ m ∈ doc.nodes, m ≠ doc.root ∧ m.index = j := by
    intro j hj
    rw [root_toArena] at hj
    obtain ⟨m, hm, rfl⟩ := exists_index_eq (Nat.lt_trans hj (index_lt hroot))
    exact ⟨m, hm, fun heq => Nat.lt_irrefl _ (heq ▸ hj), rfl⟩
  refine ⟨?_, ?_, ?_, ?_, ?_, ?_, ?_, ?_⟩
  · rw [size_toArena, Tree.size_eq]
    rfl
  · rw [root_toArena, Arena.postorder, postorderWithin_index hroot (Nat.le_of_eq (size_toArena doc).symm),
      size_toArena, List.range_eq_range']
    rfl
  · rw [root_toArena, parent?_index hroot]
    rfl
  · intro i h
    obtain ⟨n, hn, m, hm, -, hindex⟩ := exists_of_mem_children h
    rw [root_toArena] at hindex
    cases index_injOn (mem_nodes_of_children hn hm) hroot hindex
    cases Node.parent?_of_mem_children hm
  · intro i j h
    obtain ⟨n, -, m, hm, rfl, rfl⟩ := exists_of_mem_children h
    exact Node.index_of_child hm
  · intro j hj
    obtain ⟨m, hm, hne, rfl⟩ := hbelow hj
    obtain ⟨p, hp, hmem⟩ := (eq_root_or_exists_parent hm).resolve_left hne
    refine ⟨p.index, ?_, ?_, fun k hk => ?_⟩
    · rw [parent?_index hm, Node.parent?_of_mem_children hmem]
      rfl
    · rw [children_index hp]
      exact List.count_eq_one_of_mem (Node.nodup_map_index_children p) (List.mem_map_of_mem hmem)
    · obtain ⟨n, hn, c, hc, rfl, hindex⟩ := exists_of_mem_children hk
      cases index_injOn (mem_nodes_of_children hn hc) hm hindex
      have heq := (Node.parent?_of_mem_children hc).symm.trans (Node.parent?_of_mem_children hmem)
      rw [Option.some.inj heq]
  · intro j hj
    obtain ⟨m, hm, hne, rfl⟩ := hbelow hj
    rw [ancestors_index hm, List.getLast?_map, (getLast?_ancestors hm).resolve_left hne, root_toArena]
    rfl
  · intro a ha b hb
    obtain ⟨n, hn, rfl⟩ := exists_index_eq ha
    obtain ⟨m, hm, rfl⟩ := exists_index_eq hb
    rw [descendants_index hn, ancestors_index hm, mem_map_index_iff (fun c hc => mem_nodes_of_descendants hn hc) hm,
      mem_map_index_iff (ancestors_subset hm) hn]
    exact mem_descendants_iff_mem_ancestors hm

end Document

end LetLint
