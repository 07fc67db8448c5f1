/-
Documents that are read without a fault. The tree of such a document is a unit over items that
share out all the lexemes of the text; its nodes have the shapes of the grammar, its leaves are the
names and literals among the lexemes, its parts nest in the text, and its names are spelled by the
bytes that they cover.
-/
import LetLint.Model.Basic
import LetLint.Proofs.Parse.Soundness
import LetLint.Proofs.Token.Placement

namespace LetLint

variable {fileName text : String} {doc : Document}

/-! ## Reading a text -/

theorem Session.ofText_eq {tokens : Tokens} (h : tokenize text = .ok tokens) :
    Session.ofText text = ⟨.ofText text, .ofTokens tokens, []⟩ := by
  unfold Session.ofText Session.ofCursor
  unfold tokenize at h
  rw [h]

/-- A document is read if no lexeme and no item is faulty. -/
theorem parse_eq_ok_iff : parse fileName text = .ok doc ↔ ∃ tokens, tokenize text = .ok tokens ∧
    (Parse.items nestingCap (.ofTokens tokens)).faults = [] ∧
    doc = ⟨fileName, .ofText text, .node .unit ⟨0, (Source.ofText text).size⟩
      (Parse.items nestingCap (.ofTokens tokens)).nodes⟩ := by
  unfold parse Session.read Session.readWithin
  dsimp only
  constructor
  · intro h
    rcases ht : tokenize text with fault | tokens
    · -- a lexical fault is never forgotten
      have hs : (Session.ofText text).faults = [.lexical fault] := by
        unfold Session.ofText Session.ofCursor
        unfold tokenize at ht
        rw [ht]
      rw [hs] at h
      cases h
    · rw [Session.ofText_eq ht] at h
      simp only [List.nil_append, List.isEmpty_map, List.isEmpty_iff] at h
      split at h
      · rename_i hf
        cases h
        exact ⟨tokens, rfl, hf, rfl⟩
      · cases h
  · rintro ⟨tokens, ht, hf, rfl⟩
    rw [Session.ofText_eq ht]
    simp [hf]

theorem eq_ok_of_toOption {ε α : Type} {outcome : Except ε α} {a : α} (h : outcome.toOption = some a) :
    outcome = .ok a := by
  cases outcome with
  | error => cases h
  | ok =>
    cases h
    rfl

theorem parse_of_toOption (h : (parse fileName text).toOption = some doc) : parse fileName text = .ok doc :=
  eq_ok_of_toOption h

/-- The tree of a document that is read is a unit over items derived from all lexemes. -/
theorem derived_of_parse (h : parse fileName text = .ok doc) :
    ∃ (tokens : Tokens) (items : List DerivedItem), tokenize text = .ok tokens ∧
      tokens.lexemes = items.flatMap (·.lexemes) ∧
      doc = ⟨fileName, .ofText text, .node .unit ⟨0, (Source.ofText text).size⟩ (items.map (·.tree))⟩ := by
  obtain ⟨tokens, ht, hf, rfl⟩ := parse_eq_ok_iff.1 h
  obtain ⟨items, hl, htrees, -⟩ := Parse.itemsFor_derived _ _ (Nat.le_refl _) hf
  refine ⟨tokens, items, ht, hl, ?_⟩
  rw [← htrees]
  rfl

/-! ## All items -/

/-- What derived trees have whenever the trees of each item have it, the trees of all items have. -/
theorem DerivedItem.preorderAll_map (items : List DerivedItem) :
    Tree.preorderAll (items.map (·.tree)) = items.flatMap fun i => Tree.preorderAll [i.tree] := by
  rw [Tree.preorderAll_eq_flatMap, List.flatMap_map]
  simp [Tree.preorderAll]

theorem DerivedItem.shaped (items : List DerivedItem) : Shaped (items.map (·.tree)) := by
  intro t ht
  rw [preorderAll_map, List.mem_flatMap] at ht
  obtain ⟨i, -, ht⟩ := ht
  exact i.derives.shaped t ht

/-- A unit over items is shaped as well. -/
theorem DerivedItem.shaped_unit (items : List DerivedItem) (span : Span) :
    Shaped [.node .unit span (items.map (·.tree))] := by
  refine .node ?_ (shaped items)
  simp only [Kind.admits, List.map_map, List.all_map, List.all_eq_true]
  exact fun i _ => i.derives.yields_one

theorem DerivedItem.leaves (items : List DerivedItem) :
    (Tree.preorderAll (items.map (·.tree))).filter (·.kind.isAtomic) =
      (items.flatMap (·.lexemes)).filterMap Lexeme.leaf? := by
  rw [preorderAll_map, List.filter_flatMap, List.filterMap_flatMap]
  exact List.flatMap_congr fun i _ => i.derives.leaves

theorem DerivedItem.nests : ∀ (items : List DerivedItem) {lo hi : Nat}, Laid lo hi (items.flatMap (·.lexemes)) →
    Nests lo hi (items.map (·.tree))
  | [], _, _, h => .nil h.le
  | i :: items, lo, hi, h => by
    rw [List.flatMap_cons] at h
    obtain ⟨mid, h1, h2⟩ := Laid.append_iff.1 h
    exact (i.derives.nests h1).append (nests items h2)

/-! ## Nodes of a document -/

/-- Every node of a document whose tree is shaped has parts of the kinds that its kind admits. -/
theorem Shaped.admits_of_mem (h : Shaped [doc.tree]) {n : Node} (hn : n ∈ doc.nodes) :
    n.kind.admits (n.tree.children.map Tree.kind) = true := by
  have hmem := List.mem_map_of_mem (f := Node.tree) hn
  rw [Document.map_tree_nodes] at hmem
  exact h n.tree (by simpa [Tree.preorderAll] using hmem)

/-- Every node has parts of the kinds that its kind admits. -/
theorem admits_of_parse (h : parse fileName text = .ok doc) {n : Node} (hn : n ∈ doc.nodes) :
    n.kind.admits (n.tree.children.map Tree.kind) = true := by
  obtain ⟨tokens, items, -, -, rfl⟩ := derived_of_parse h
  exact (DerivedItem.shaped_unit items _).admits_of_mem hn

/-- The leaves are, in order, the names and literals among the lexemes. -/
theorem leaves_of_parse (h : parse fileName text = .ok doc) : ∃ tokens, tokenize text = .ok tokens ∧
    (doc.nodes.filter (·.kind.isAtomic)).map Node.tree = tokens.lexemes.filterMap Lexeme.leaf? := by
  obtain ⟨tokens, items, ht, hl, rfl⟩ := derived_of_parse h
  refine ⟨tokens, ht, ?_⟩
  have hmap : ∀ ns : List Node, (ns.filter (·.kind.isAtomic)).map Node.tree =
      (ns.map Node.tree).filter (·.kind.isAtomic) := fun ns => by rw [List.filter_map]; rfl
  rw [hmap, Document.map_tree_nodes, Tree.preorder_eq, hl, ← DerivedItem.leaves]
  rfl

/-- The parts of every node nest between its ends. -/
theorem nests_of_parse (h : parse fileName text = .ok doc) {n : Node} (hn : n ∈ doc.nodes) :
    Nests n.span.start n.span.stop n.tree.children := by
  obtain ⟨tokens, items, ht, hl, rfl⟩ := derived_of_parse h
  have hall := laid_of_tokenize ht
  rw [hl] at hall
  have hitems := DerivedItem.nests items hall
  have hmem := List.mem_map_of_mem (f := Node.tree) hn
  rw [Document.map_tree_nodes, Tree.preorder_eq, List.mem_cons] at hmem
  rcases hmem with ht | ht
  · unfold Node.span
    rw [ht]
    exact hitems
  · exact (hitems.of_mem ht).2.2.2

/-- An identifier is the leaf of a lexeme of the text. -/
theorem exists_lexeme_of_parse (h : parse fileName text = .ok doc) {n : Node} (hn : n ∈ doc.nodes)
    (hk : n.kind = .identifier) : ∃ tokens, tokenize text = .ok tokens ∧
      ∃ l ∈ tokens.lexemes, l.token = .identifier n.name ∧ n.tree = .leaf (.identifier n.name) (cover [l]) := by
  obtain ⟨tokens, ht, hleaves⟩ := leaves_of_parse h
  have hmem : n.tree ∈ tokens.lexemes.filterMap Lexeme.leaf? := by
    rw [← hleaves]
    exact List.mem_map_of_mem (List.mem_filter.2 ⟨hn, by rw [hk]; rfl⟩)
  obtain ⟨l, hl, hleaf⟩ := List.mem_filterMap.1 hmem
  obtain ⟨name, htoken, htree⟩ := Lexeme.identifier_of_leaf? hleaf hk
  have hname : n.name = name := by
    unfold Node.name
    rw [htree]
    rfl
  exact ⟨tokens, ht, l, hl, hname ▸ htoken, hname ▸ htree⟩

/-- The bytes of an identifier spell its name. -/
theorem identifier_of_parse (h : parse fileName text = .ok doc) {n : Node} (hn : n ∈ doc.nodes)
    (hk : n.kind = .identifier) : n.tree = .leaf (.identifier n.name) n.span ∧ doc.textOf n.tree = n.name := by
  obtain ⟨tokens, ht, l, hl, htoken, htree⟩ := exists_lexeme_of_parse h hn hk
  have hsource : doc.source = .ofText text := by
    obtain ⟨_, _, _, _, rfl⟩ := derived_of_parse h
    rfl
  have hspan : n.span = cover [l] := congrArg Tree.span htree
  refine ⟨hspan ▸ htree, ?_⟩
  rw [Document.textOf, htree, hsource]
  exact slice_of_tokenize ht hl htoken

/-! ## Soundness -/

/-- What is read is what the grammar derives: the lexemes of the text, none left out and none used
twice, are those of the items under the root, every node has a shape of the grammar, and the leaves
are one to one with the names and literals of the text. -/
theorem parse_sound (h : parse fileName text = .ok doc) :
    ∃ (tokens : Tokens) (items : List DerivedItem), tokenize text = .ok tokens ∧
      tokens.lexemes = items.flatMap (·.lexemes) ∧
      doc = ⟨fileName, .ofText text, .node .unit ⟨0, (Source.ofText text).size⟩ (items.map (·.tree))⟩ ∧
      (∀ n ∈ doc.nodes, n.kind.admits (n.tree.children.map Tree.kind) = true) ∧
      (doc.nodes.filter (·.kind.isAtomic)).map Node.tree = tokens.lexemes.filterMap Lexeme.leaf? := by
  obtain ⟨tokens, items, ht, hl, hdoc⟩ := derived_of_parse h
  obtain ⟨tokens', ht', hleaves⟩ := leaves_of_parse h
  cases ht.symm.trans ht'
  exact ⟨tokens, items, ht, hl, hdoc, fun n hn => admits_of_parse h hn, hleaves⟩

theorem parse_sound_letCall : ∃ doc, parse "m.cs" "A.B<C> F(T x); var y = x.Let((T a, b) => -F(a) + 1);" = .ok doc ∧
    ∃ (tokens : Tokens) (items : List DerivedItem),
      tokenize "A.B<C> F(T x); var y = x.Let((T a, b) => -F(a) + 1);" = .ok tokens ∧
      tokens.lexemes = items.flatMap (·.lexemes) ∧ doc.tree.children = items.map (·.tree) ∧
      (∀ n ∈ doc.nodes, n.kind.admits (n.tree.children.map Tree.kind) = true) := by
  have hsome : (parse "m.cs" "A.B<C> F(T x); var y = x.Let((T a, b) => -F(a) + 1);").toOption.isSome = true := by
    decide +kernel
  obtain ⟨doc, hdoc⟩ := Option.isSome_iff_exists.1 hsome
  have hread := parse_of_toOption hdoc
  obtain ⟨tokens, items, ht, hl, htree, hshape, -⟩ := parse_sound hread
  exact ⟨doc, hread, tokens, items, ht, hl, by rw [htree]; rfl, hshape⟩

end LetLint
