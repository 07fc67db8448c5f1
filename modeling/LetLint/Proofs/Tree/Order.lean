/-
The order of the nodes below a node. What the walk goes through is what steps down lead to, and
where the parts of every node nest, everything below one part stands before everything below the
next one.
-/
import LetLint.Proofs.Grammar.Layout
import Mathlib.Logic.Relation

namespace LetLint

namespace Node

variable {n m c : Node} {lo hi : Nat}

/-- One or more steps down lead from the one node to the other. -/
def Below (n m : Node) : Prop := Relation.TransGen (fun a b => b ∈ a.children) n m

theorem mem_descendants_iff_part : m ∈ n.descendants ↔ ∃ c ∈ n.children, m = c ∨ m ∈ c.descendants := by
  rw [descendants_eq, List.mem_flatMap]
  simp only [withDescendants, List.mem_cons]

/-- The walk goes through the nodes that steps down lead to. -/
theorem mem_descendants_iff : m ∈ n.descendants ↔ n.Below m := by
  induction n using induction with
  | step n ih =>
    rw [mem_descendants_iff_part]
    constructor
    · rintro ⟨c, hc, rfl | hm⟩
      · exact .single hc
      · exact .head hc ((ih c hc).1 hm)
    · intro h
      rcases Relation.TransGen.head'_iff.1 h with ⟨c, hc, hrest⟩
      rcases Relation.reflTransGen_iff_eq_or_transGen.1 hrest with rfl | hm
      · exact ⟨m, hc, .inl rfl⟩
      · exact ⟨c, hc, .inr ((ih c hc).2 hm)⟩

theorem descendants_trans (hc : c ∈ n.descendants) (hm : m ∈ c.descendants) : m ∈ n.descendants := by
  rw [mem_descendants_iff] at hc hm ⊢
  exact hc.trans hm

theorem mem_descendants_of_mem_children (hc : c ∈ n.children) : c ∈ n.descendants :=
  mem_descendants_iff.2 (.single hc)

theorem withDescendants_subset (hc : c ∈ n.descendants) : c.withDescendants ⊆ n.descendants := by
  intro m hm
  rcases List.mem_cons.1 hm with rfl | hm
  · exact hc
  · exact descendants_trans hc hm

theorem exists_parent (hm : m ∈ n.descendants) : ∃ p, (p = n ∨ p ∈ n.descendants) ∧ m ∈ p.children := by
  obtain ⟨p, hp, hmem⟩ := Relation.TransGen.tail'_iff.1 (mem_descendants_iff.1 hm)
  refine ⟨p, ?_, hmem⟩
  rcases Relation.reflTransGen_iff_eq_or_transGen.1 hp with rfl | hp
  · exact .inl rfl
  · exact .inr (mem_descendants_iff.2 hp)

theorem mem_children_iff : m ∈ n.children ↔
    ∃ i, n.tree.children[i]? = some m.tree ∧ m.above = ⟨n.tree, i⟩ :: n.above := by
  constructor
  · intro h
    obtain ⟨i, hi, rfl⟩ := List.mem_mapIdx.1 h
    exact ⟨i, List.getElem?_eq_getElem hi, rfl⟩
  · rintro ⟨i, ht, hab⟩
    obtain ⟨hi, hval⟩ := List.getElem?_eq_some_iff.1 ht
    refine List.mem_mapIdx.2 ⟨i, hi, ?_⟩
    rw [hval, ← hab]

theorem firstChild?_of_isFirstChild (hm : m ∈ n.children) (h : m.isFirstChild = true) : n.firstChild? = some m := by
  obtain ⟨i, hi, rfl⟩ := List.mem_mapIdx.1 hm
  have hi0 : i = 0 := by simpa [isFirstChild] using h
  subst hi0
  rw [firstChild?, List.head?_eq_getElem?, children, List.getElem?_mapIdx, List.getElem?_eq_getElem hi]
  rfl

theorem lastChild?_of_isLastChild (hm : m ∈ n.children) (h : m.isLastChild = true) : n.lastChild? = some m := by
  obtain ⟨i, hi, rfl⟩ := List.mem_mapIdx.1 hm
  have hlast : i + 1 = n.tree.children.length := by simpa [isLastChild] using h
  rw [lastChild?, List.getLast?_eq_getElem?, children, List.length_mapIdx, ← hlast, Nat.add_sub_cancel,
    List.getElem?_mapIdx, List.getElem?_eq_getElem hi]
  rfl

theorem above_ne_nil (hm : m ∈ n.descendants) : m.above ≠ [] := by
  obtain ⟨p, -, hmem⟩ := exists_parent hm
  obtain ⟨i, -, hab⟩ := mem_children_iff.1 hmem
  rw [hab]
  exact List.cons_ne_nil _ _

/-- Nodes that trees in order stand for, and all below them, lie between the same offsets. -/
theorem bounds_of_mem {ns : List Node} (h : Nests lo hi (ns.map tree)) (hc : c ∈ ns) (hm : m ∈ c.withDescendants) :
    lo ≤ m.span.start ∧ m.span.start < m.span.stop ∧ m.span.stop ≤ hi := by
  have hmem : m.tree ∈ Tree.preorderAll (ns.map tree) := by
    rw [Tree.preorderAll_eq_flatMap, List.mem_flatMap]
    refine ⟨c.tree, List.mem_map_of_mem hc, ?_⟩
    rw [← map_tree_withDescendants]
    exact List.mem_map_of_mem hm
  obtain ⟨h1, h2, h3, -⟩ := h.of_mem hmem
  exact ⟨h1, h2, h3⟩

end Node

namespace Document

variable {doc : Document} {n m : Node}

theorem mem_nodes_iff : n ∈ doc.nodes ↔ n = doc.root ∨ n ∈ doc.root.descendants := List.mem_cons

theorem mem_nodes_of_descendants (hn : n ∈ doc.nodes) (hm : m ∈ n.descendants) : m ∈ doc.nodes := by
  rw [mem_nodes_iff] at hn ⊢
  rcases hn with rfl | hn
  · exact .inr hm
  · exact .inr (Node.descendants_trans hn hm)

theorem mem_nodes_of_children (hn : n ∈ doc.nodes) (hm : m ∈ n.children) : m ∈ doc.nodes :=
  mem_nodes_of_descendants hn (Node.mem_descendants_of_mem_children hm)

/-- What the root has, and every part of a node that has it, all nodes have. -/
theorem nodes_induction {P : Node → Prop} (root : P doc.root)
    (step : ∀ n ∈ doc.nodes, P n → ∀ m ∈ n.children, P m) (hn : n ∈ doc.nodes) : P n := by
  rcases mem_nodes_iff.1 hn with rfl | hn
  · exact root
  · have hbelow := Node.mem_descendants_iff.1 hn
    clear hn
    induction hbelow with
    | single hm => exact step doc.root (mem_nodes_iff.2 (.inl rfl)) root _ hm
    | tail hb hm ih =>
      have hmem := mem_nodes_iff.2 (.inr (Node.mem_descendants_iff.2 hb))
      exact step _ hmem (ih hmem) _ hm

end Document

end LetLint
