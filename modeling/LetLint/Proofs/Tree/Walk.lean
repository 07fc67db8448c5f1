/-
The walk below a node of an arena. It keeps a stack of pending indices, of which the last one is next, and has no
bound of its own. The pending indices of a walk are those of nodes whose trees do not overlap, the first of them
on top, and what the walk still yields are their pre-orders one after the other. So the walk ends, and what it
yields below a node is the pre-order below that node.
-/
import LetLint.Proofs.Parse.Arena
import LetLint.Proofs.Tree.Spans

namespace LetLint

namespace Arena

/-! ## Walks without a bound -/

/-- From a stack of pending indices, the walk ends and has yielded these indices. -/
inductive Yields (arena : Arena) : List Nat → List Nat → Prop
  | done : Yields arena [] []
  | pop {stack out : List Nat} {index : Nat} (h : Yields arena (stack ++ (arena.children index).reverse) out) :
      Yields arena (stack ++ [index]) (index :: out)

/-- From one stack, the walk yields one list. -/
theorem Yields.unique {arena : Arena} {stack out out' : List Nat} (h : arena.Yields stack out)
    (h' : arena.Yields stack out') : out = out' := by
  induction h generalizing out' with
  | done =>
    generalize hstack : ([] : List Nat) = stack at h'
    cases h' with
    | done => rfl
    | pop _ => simp at hstack
  | @pop stack out index _ ih =>
    generalize hstack : stack ++ [index] = whole at h'
    cases h' with
    | done => simp at hstack
    | pop h' =>
      obtain ⟨rfl, hindex⟩ := List.append_inj' hstack rfl
      cases hindex
      rw [ih h']

/-- The node at an index and then, part by part, all nodes below it, for at most `depth` levels. -/
def preorderWithin (arena : Arena) : Nat → Nat → List Nat
  | 0, _ => []
  | depth + 1, index => index :: (arena.children index).flatMap (arena.preorderWithin depth)

/-- The pre-order from an index on, with the index first. -/
def preorder (arena : Arena) (index : Nat) : List Nat := arena.preorderWithin arena.size index

/-- The walk below a node ends; it yields all nodes below it, each once, in pre-order; identifiers are yielded
from left to right, and none of them reaches into the next. -/
structure WalksInOrder (arena : Arena) (index : Nat) : Prop where
  yields_iff : ∀ out, arena.Yields (arena.children index).reverse out ↔ out = arena.descendants index
  preorder_eq : arena.preorder index = index :: arena.descendants index
  preorder_below : ∀ i ∈ index :: arena.descendants index,
    arena.preorder i = i :: (arena.children i).flatMap arena.preorder
  nodup : (arena.descendants index).Nodup
  mem_iff : ∀ i, i ∈ arena.descendants index ↔ Relation.TransGen (fun p c => c ∈ arena.children p) index i
  parent_first : ∀ i ∈ arena.descendants index, ∀ c ∈ arena.children i, [i, c].Sublist (arena.descendants index)
  subtree_first : ∀ i ∈ index :: arena.descendants index, ∀ before a b behind,
    arena.children i = before ++ a :: b :: behind → arena.preorder a ++ [b] <:+: arena.descendants index
  names : (((arena.descendants index).filterMap arena.cell?).filter (·.kind = .identifier)).Pairwise fun a b =>
    a.span.start < b.span.start ∧ a.span.stop ≤ b.span.start

end Arena

namespace Document

variable {doc : Document} {n m : Node}

/-! ## Pre-orders -/

theorem withDescendants_subset_nodes (hn : n ∈ doc.nodes) : n.withDescendants ⊆ doc.nodes := by
  intro m hm
  rcases List.mem_cons.1 hm with rfl | hm
  · exact hn
  · exact mem_nodes_of_descendants hn hm

theorem preorderWithin_index {depth : Nat} (hn : n ∈ doc.nodes) (hd : n.tree.size ≤ depth) :
    doc.toArena.arena.preorderWithin depth n.index = n.withDescendants.map Node.index := by
  induction depth generalizing n with
  | zero =>
    have hpos := n.tree.size_pos
    omega
  | succ depth ih =>
    have hparts : n.children.flatMap (fun c => doc.toArena.arena.preorderWithin depth c.index) =
        n.children.flatMap fun c => c.withDescendants.map Node.index := by
      refine List.flatMap_congr fun c hc => ih (mem_nodes_of_children hn hc) ?_
      have hmem : c.tree ∈ n.tree.children := Node.map_tree_children n ▸ List.mem_map_of_mem hc
      have hlt := Tree.size_lt_of_mem hmem
      rw [← Tree.size_eq] at hlt
      omega
    rw [Arena.preorderWithin, children_index hn, List.flatMap_map, hparts, Node.withDescendants, List.map_cons,
      Node.descendants_eq, List.map_flatMap]

theorem preorder_index (hn : n ∈ doc.nodes) :
    doc.toArena.arena.preorder n.index = n.withDescendants.map Node.index := by
  have hsize := size_add_length_above_le hn
  exact preorderWithin_index hn (by rw [size_toArena]; omega)

theorem preorder_children (hn : n ∈ doc.nodes) :
    (doc.toArena.arena.children n.index).flatMap doc.toArena.arena.preorder = n.descendants.map Node.index := by
  rw [children_index hn, List.flatMap_map, Node.descendants_eq, List.map_flatMap]
  exact List.flatMap_congr fun c hc => preorder_index (mem_nodes_of_children hn hc)

/-- From the indices of some nodes, the first of them on top, the walk yields the nodes and those below them. -/
theorem yields_flatMap {ns : List Node} (hns : ns ⊆ doc.nodes) : doc.toArena.arena.Yields (ns.map Node.index).reverse
    ((ns.flatMap Node.withDescendants).map Node.index) := by
  induction hsize : Node.pendingSize ns using Nat.strongRecOn generalizing ns with
  | ind size ih =>
    cases ns with
    | nil => exact .done
    | cons n ns =>
      have hn : n ∈ doc.nodes := hns List.mem_cons_self
      have hnext : n.children ++ ns ⊆ doc.nodes := by
        intro m hm
        rcases List.mem_append.1 hm with hm | hm
        · exact mem_nodes_of_children hn hm
        · exact hns (List.mem_cons_of_mem n hm)
      rw [Node.pendingSize_cons] at hsize
      have hrest := ih _ (by omega) hnext rfl
      rw [List.map_append, List.reverse_append, ← children_index hn, List.flatMap_append,
        ← Node.descendants_eq] at hrest
      rw [List.map_cons, List.reverse_cons, List.flatMap_cons, Node.withDescendants, List.cons_append, List.map_cons]
      exact .pop hrest

/-! ## What is yielded -/

theorem nodup_map_index_descendants (n : Node) : (n.descendants.map Node.index).Nodup := by
  have hall := n.map_index_withDescendants.nodup_iff.2 List.nodup_range'
  rw [Node.withDescendants, List.map_cons] at hall
  exact (List.nodup_cons.1 hall).2

/-- Steps down between cells are steps down between nodes. -/
theorem mem_map_index_descendants_iff (hn : n ∈ doc.nodes) (i : Nat) : i ∈ n.descendants.map Node.index ↔
    Relation.TransGen (fun p c => c ∈ doc.toArena.arena.children p) n.index i := by
  constructor
  · intro h
    obtain ⟨m, hm, rfl⟩ := List.mem_map.1 h
    have hbelow := Node.mem_descendants_iff.1 hm
    clear hm h
    have step {p c : Node} (hp : p ∈ doc.nodes) (hc : c ∈ p.children) :
        c.index ∈ doc.toArena.arena.children p.index := children_index hp ▸ List.mem_map_of_mem hc
    induction hbelow with
    | single hc => exact .single (step hn hc)
    | tail hb hc ih => exact .tail ih (step (mem_nodes_of_descendants hn (Node.mem_descendants_iff.2 hb)) hc)
  · intro h
    -- every cell on the way is the cell of a node below
    induction h with
    | single hc =>
      rw [children_index hn] at hc
      obtain ⟨c, hpart, rfl⟩ := List.mem_map.1 hc
      exact List.mem_map_of_mem (Node.mem_descendants_of_mem_children hpart)
    | tail _ hc ih =>
      obtain ⟨p, hp, rfl⟩ := List.mem_map.1 ih
      rw [children_index (mem_nodes_of_descendants hn hp)] at hc
      obtain ⟨c, hpart, rfl⟩ := List.mem_map.1 hc
      exact List.mem_map_of_mem (Node.descendants_trans hp (Node.mem_descendants_of_mem_children hpart))

/-- The nodes below a node are yielded in one piece. -/
theorem descendants_infix_of_below (hm : m ∈ n.descendants) : m.withDescendants <:+: n.descendants := by
  induction n using Node.induction with
  | step n ih =>
    obtain ⟨c, hc, hmc⟩ := Node.mem_descendants_iff_part.1 hm
    have hpart : c.withDescendants <:+: n.descendants := by
      obtain ⟨before, behind, hsplit⟩ := List.append_of_mem hc
      rw [Node.descendants_eq, hsplit, List.flatMap_append, List.flatMap_cons]
      exact ⟨_, _, List.append_assoc _ _ _⟩
    rcases hmc with rfl | hmc
    · exact hpart
    · exact ((ih c hc hmc).trans (List.suffix_cons c _).isInfix).trans hpart

theorem exists_of_mem_yielded {i : Nat} (hi : i ∈ n.index :: n.descendants.map Node.index) :
    ∃ m ∈ n.withDescendants, m.index = i := by
  exact List.mem_map.1 hi

theorem descendants_infix_of_mem (hm : m ∈ n.withDescendants) : m.descendants <:+: n.descendants := by
  rcases List.mem_cons.1 hm with rfl | hm
  · exact List.infix_rfl
  · exact (List.suffix_cons m _).isInfix.trans (descendants_infix_of_below hm)

/-- A node is yielded before its parts. -/
theorem sublist_of_mem_children (hm : m ∈ n.descendants) {c : Node} (hc : c ∈ m.children) :
    [m, c].Sublist n.descendants := by
  refine List.Sublist.trans ?_ (descendants_infix_of_below hm).sublist
  exact .cons_cons m (List.singleton_sublist.2 (Node.mem_descendants_of_mem_children hc))

/-- Of two parts side by side, the first with all below it is yielded directly before the second. -/
theorem subtree_infix_of_before (hm : m ∈ n.withDescendants) {before behind : List Node} {a b : Node}
    (hc : m.children = before ++ a :: b :: behind) : a.withDescendants ++ [b] <:+: n.descendants := by
  refine List.IsInfix.trans ?_ (descendants_infix_of_mem hm)
  rw [Node.descendants_eq, hc, List.flatMap_append, List.flatMap_cons, List.flatMap_cons]
  exact ⟨before.flatMap Node.withDescendants, b.descendants ++ behind.flatMap Node.withDescendants, by
    simp [Node.withDescendants]⟩

end Document

/-! ## Leaves -/

/-- Trees below trees that nest, if they have no parts, lie one behind the other in pre-order. -/
theorem Nests.pairwise_leaves {lo hi : Nat} {ts : List Tree} (h : Nests lo hi ts) :
    ((Tree.preorderAll ts).filter (·.children.isEmpty)).Pairwise fun t u =>
      t.span.start < u.span.start ∧ t.span.stop ≤ u.span.start := by
  induction h with
  | nil => exact .nil
  | @cons lo hi t ts _ ht hc h ihc ih =>
    have hbehind : ∀ u ∈ (Tree.preorderAll ts).filter (·.children.isEmpty), t.span.stop ≤ u.span.start :=
      fun u hu => (h.of_mem (List.mem_filter.1 hu).1).1
    rw [Tree.preorderAll, Tree.preorder_eq, List.cons_append, List.filter_cons, List.filter_append]
    split
    · rename_i hempty
      rw [List.isEmpty_iff.1 hempty]
      exact .cons (fun u hu => ⟨Nat.lt_of_lt_of_le ht (hbehind u hu), hbehind u hu⟩) ih
    · refine List.pairwise_append.2 ⟨ihc, ih, fun u hu v hv => ?_⟩
      obtain ⟨-, hne, hinside, -⟩ := hc.of_mem (List.mem_filter.1 hu).1
      have hle := hbehind v hv
      exact ⟨by omega, by omega⟩

/-! ## Documents that are read -/

section

variable {fileName text : String} {doc : Document} {d : ArenaDocument} {n : Node}

/-- Identifiers below a node lie one behind the other. -/
theorem pairwise_identifiers_of_parse (h : parse fileName text = .ok doc) (hn : n ∈ doc.nodes) :
    (n.descendantsOfKind .identifier).Pairwise fun a b =>
      a.span.start < b.span.start ∧ a.span.stop ≤ b.span.start := by
  have hleaf {m : Node} (hm : m ∈ n.descendants) (hk : decide (m.kind = .identifier) = true) :
      m.tree.children.isEmpty = true := by
    rw [(identifier_of_parse h (Document.mem_nodes_of_descendants hn hm) (of_decide_eq_true hk)).1]
    rfl
  have hleaves := (nests_of_parse h hn).pairwise_leaves
  rw [← Node.map_tree_descendants, List.filter_map, List.pairwise_map, List.pairwise_filter] at hleaves
  exact List.pairwise_filter.2
    (hleaves.imp_of_mem fun ha hb hab hka hkb => hab (hleaf ha hka) (hleaf hb hkb))

/-- The cells of the identifiers below a node are those that the walk yields. -/
theorem Document.filter_cells_descendants (hn : n ∈ doc.nodes) :
    ((doc.toArena.arena.descendants n.index).filterMap doc.toArena.arena.cell?).filter (·.kind = .identifier) =
      (n.descendantsOfKind .identifier).map fun m =>
        ⟨m.kind, m.span, m.parent?.map Node.index, m.children.map Node.index⟩ := by
  have hcells : ∀ m ∈ n.descendants, (doc.toArena.arena.cell? ∘ Node.index) m =
      some ⟨m.kind, m.span, m.parent?.map Node.index, m.children.map Node.index⟩ :=
    fun m hm => cell?_index (mem_nodes_of_descendants hn hm)
  rw [descendants_index hn, List.filterMap_map, List.filterMap_congr hcells, List.filterMap_eq_map', List.filter_map]
  rfl

/-- Below every node of a document that is read, the walk goes in order. -/
theorem walksInOrder_of_parse (h : parse fileName text = .ok doc) (hn : n ∈ doc.nodes) :
    doc.toArena.arena.WalksInOrder n.index := by
  have hnodes := Document.withDescendants_subset_nodes hn
  have hdescendants := Document.descendants_index hn
  have hends : doc.toArena.arena.Yields (doc.toArena.arena.children n.index).reverse
      (doc.toArena.arena.descendants n.index) := by
    have hwalk : doc.toArena.arena.Yields (n.children.map Node.index).reverse _ :=
      Document.yields_flatMap fun m hm => Document.mem_nodes_of_children hn hm
    rwa [← Node.descendants_eq, ← hdescendants, ← Document.children_index hn] at hwalk
  refine ⟨fun out => ⟨fun hout => hout.unique hends, fun hout => hout ▸ hends⟩, ?_, ?_, ?_, ?_, ?_, ?_, ?_⟩
  · rw [Document.preorder_index hn, hdescendants]
    rfl
  · rw [hdescendants]
    intro i hi
    obtain ⟨m, hm, rfl⟩ := Document.exists_of_mem_yielded hi
    rw [Document.preorder_index (hnodes hm), Document.preorder_children (hnodes hm)]
    rfl
  · rw [hdescendants]
    exact Document.nodup_map_index_descendants n
  · rw [hdescendants]
    exact Document.mem_map_index_descendants_iff hn
  · rw [hdescendants]
    intro i hi c hc
    obtain ⟨m, hm, rfl⟩ := List.mem_map.1 hi
    rw [Document.children_index (hnodes (List.mem_cons_of_mem n hm))] at hc
    obtain ⟨c, hpart, rfl⟩ := List.mem_map.1 hc
    exact (Document.sublist_of_mem_children hm hpart).map Node.index
  · rw [hdescendants]
    intro i hi before a b behind hparts
    obtain ⟨m, hm, rfl⟩ := Document.exists_of_mem_yielded hi
    rw [Document.children_index (hnodes hm), List.map_eq_append_iff] at hparts
    obtain ⟨before, rest, hchildren, -, hrest⟩ := hparts
    obtain ⟨a, rest, rfl, rfl, hmore⟩ := List.map_eq_cons_iff.1 hrest
    obtain ⟨b, behind, rfl, rfl, -⟩ := List.map_eq_cons_iff.1 hmore
    have ha : a ∈ m.children := by simp [hchildren]
    rw [Document.preorder_index (Document.mem_nodes_of_children (hnodes hm) ha)]
    simpa using (Document.subtree_infix_of_before hm hchildren).map Node.index
  · rw [Document.filter_cells_descendants hn, List.pairwise_map]
    exact pairwise_identifiers_of_parse h hn

/-- A document that is read into an arena is the listed one that is read as a tree. -/
theorem exists_parse_of_parseArena (h : parseArena fileName text = .ok d) :
    ∃ doc, parse fileName text = .ok doc ∧ d = doc.toArena := by
  have hread : parseArena fileName text =
      ((ArenaSession.ofSession (.ofText text)).readWithin nestingCap fileName).1 := rfl
  rcases hparse : ((Session.ofText text).readWithin nestingCap fileName).1 with faults | doc
  · obtain ⟨-, -, _, herror⟩ := ArenaSession.readWithin_of_error hparse
    rw [hread, herror] at h
    cases h
  · rw [hread, ArenaSession.readWithin_of_ok hparse] at h
    cases h
    exact ⟨doc, hparse, rfl⟩

/-- Below every node of a document that is read into an arena, the walk that keeps a stack ends, and it yields
the pre-order below the node. -/
theorem walksInOrder_of_parseArena (h : parseArena fileName text = .ok d) {index : Nat} (hi : index < d.arena.size) :
    d.arena.WalksInOrder index := by
  obtain ⟨doc, hparse, rfl⟩ := exists_parse_of_parseArena h
  obtain ⟨n, hn, rfl⟩ := Document.exists_index_eq hi
  exact walksInOrder_of_parse hparse hn

end

theorem walksInOrder_of_parseArena_calls : ∃ d, parseArena "m.cs" "a.Let(Combine(Fetch(x), y), -z);" = .ok d ∧
    19 < d.arena.size ∧ d.arena.WalksInOrder 19 := by
  have hread : (parseArena "m.cs" "a.Let(Combine(Fetch(x), y), -z);").toOption.map (·.arena.size) = some 22 := by
    decide +kernel
  obtain ⟨d, hd, hsize⟩ := Option.map_eq_some_iff.1 hread
  have hlt : 19 < d.arena.size := by omega
  exact ⟨d, eq_ok_of_toOption hd, hlt, walksInOrder_of_parseArena (eq_ok_of_toOption hd) hlt⟩

end LetLint
