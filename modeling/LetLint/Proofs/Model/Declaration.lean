/-
The nodes that declare symbols. A symbol remembers the bytes of its declaration, and the kind of node
that these belong to follows from what it is: a whole method, a whole parameter, or the name of a
local. What an identifier stands for by the steps that lead to it is declared by a node of the same
document, and where the parts of every node nest and have the shapes of the grammar, no other node of
that kind covers the same bytes.
-/
import LetLint.Proofs.Model.Scoping
import LetLint.Proofs.Tree.Listing
import LetLint.Proofs.Tree.Spans
import Mathlib.Data.List.Pairwise

namespace LetLint

namespace Symbol

/-- The bytes of the declaration. -/
def span : Symbol → Span
  | .method m => m.span
  | .localVar v => v.span
  | .parameter p => p.span

/-- The kind of node that declares such a symbol. -/
def declaringKind : Symbol → Kind
  | .method _ => .method
  | .localVar _ => .identifier
  | .parameter _ => .parameter

end Symbol

/-- The node declares the symbol. -/
def Node.Declares (n : Node) (symbol : Symbol) : Prop := n.kind = symbol.declaringKind ∧ n.span = symbol.span

/-- The node at the index declares the symbol. -/
def Arena.Declares (arena : Arena) (index : Nat) (symbol : Symbol) : Prop :=
  ∃ cell, arena.cell? index = some cell ∧ cell.kind = symbol.declaringKind ∧ cell.span = symbol.span

/-! ## What is found is declared -/

theorem Method.ofTree?_eq_some_iff {t : Tree} {m : Method} : Method.ofTree? t = some m ↔ t.kind = .method ∧
    ∃ name type, t.methodIdentifier?.bind Tree.name? = some name ∧ t.returnType? = some type ∧
      m = ⟨name, t.methodParameters.map .ofTree, .ofTree type, t.span⟩ := by
  unfold Method.ofTree?
  split
  · rename_i hk
    simp only [Option.bind_eq_bind, Option.bind_eq_some_iff, Option.pure_def, Option.some.injEq, hk, true_and]
    constructor
    · rintro ⟨name, hname, type, htype, rfl⟩
      exact ⟨name, type, hname, htype, rfl⟩
    · rintro ⟨name, type, hname, htype, rfl⟩
      exact ⟨name, hname, type, htype, rfl⟩
  · rename_i hk
    simp [hk]

namespace Document

variable {doc : Document} {n : Node}

theorem withDescendants_subset (hn : n ∈ doc.nodes) : n.withDescendants ⊆ doc.nodes := by
  intro m hm
  rcases List.mem_cons.1 hm with rfl | hm
  · exact hn
  · exact mem_nodes_of_descendants hn hm

theorem exists_of_part (hn : n ∈ doc.nodes) {t : Tree} (ht : t ∈ n.tree.children) : ∃ m ∈ doc.nodes, m.tree = t := by
  rw [← Node.map_tree_children, List.mem_map] at ht
  obtain ⟨m, hm, rfl⟩ := ht
  exact ⟨m, mem_nodes_of_children hn hm, rfl⟩

/-- A parameter of a lambda is a part of it, or of a list that is a part of it. -/
theorem exists_of_lambdaParameter (hn : n ∈ doc.nodes) {p : Tree} (hp : p ∈ n.tree.lambdaParameters) :
    ∃ m ∈ doc.nodes, m.tree = p ∧ m.kind = .parameter ∧
      (m ∈ n.children ∨ ∃ list ∈ n.children, list.kind = .parameterList ∧ m ∈ list.children) := by
  unfold Tree.lambdaParameters at hp
  rcases hfirst : n.tree.firstChild? with _ | first
  · rw [hfirst] at hp
    cases hp
  have hmem := List.mem_of_head? hfirst
  rw [← Node.map_tree_children, List.mem_map] at hmem
  obtain ⟨c, hc, rfl⟩ := hmem
  have hdoc := mem_nodes_of_children hn hc
  rw [hfirst] at hp
  dsimp only at hp
  split at hp
  · rename_i hlist
    obtain ⟨hp, hk⟩ := List.mem_filter.1 hp
    rw [← Node.map_tree_children, List.mem_map] at hp
    obtain ⟨m, hm, rfl⟩ := hp
    exact ⟨m, mem_nodes_of_children hdoc hm, rfl, of_decide_eq_true hk, .inr ⟨c, hc, hlist, hm⟩⟩
  · split at hp
    · rename_i hk
      cases List.mem_singleton.1 hp
      exact ⟨c, hdoc, rfl, hk, .inl hc⟩
    · cases hp

end Document

namespace Lexical

variable {doc : Document} {n : Node}

/-- A node of the document declares the symbol. -/
def DeclaredIn (doc : Document) (symbol : Symbol) : Prop := ∃ m ∈ doc.nodes, m.Declares symbol

theorem declaredIn_of_parameters (hn : n ∈ doc.nodes) {name : String} {symbol : Symbol}
    (h : (name, symbol) ∈ parameters n.tree) : DeclaredIn doc symbol := by
  unfold parameters at h
  split at h
  · obtain ⟨p, hp, heq⟩ := List.mem_map.1 h
    cases heq
    obtain ⟨m, hm, rfl, hk, -⟩ := Document.exists_of_lambdaParameter hn hp
    exact ⟨m, hm, hk, rfl⟩
  · cases h

theorem declaredIn_of_declared (hn : n ∈ doc.nodes) {t : Tree} (ht : t ∈ n.tree.children) {parent : Kind}
    {name : String} {symbol : Symbol} (h : (name, symbol) ∈ declared parent t) : DeclaredIn doc symbol := by
  unfold declared at h
  split at h
  · rename_i hparts
    cases List.mem_singleton.1 h
    obtain ⟨m, hm, rfl⟩ := Document.exists_of_part hn ht
    obtain ⟨c, hc, hleaf⟩ := Document.exists_of_part hm (hparts ▸ List.mem_cons_self)
    refine ⟨c, hc, ?_, ?_⟩
    · rw [Node.kind, hleaf]
      rfl
    · rw [Node.span, hleaf]
      rfl
  · cases h

theorem mem_behind {parent : Kind} {ts : List Tree} {env : Environment} {b : String × Symbol}
    (h : b ∈ behind parent ts env) : (∃ t ∈ ts, b ∈ declared parent t) ∨ b ∈ env := by
  induction ts generalizing env with
  | nil => exact .inr h
  | cons t ts ih =>
    rcases ih h with ⟨u, hu, hb⟩ | hb
    · exact .inl ⟨u, List.mem_cons_of_mem _ hu, hb⟩
    · rcases List.mem_append.1 hb with hb | hb
      · exact .inl ⟨t, List.mem_cons_self, hb⟩
      · exact .inr hb

/-- What is in scope at a node is declared in the document. -/
theorem declaredIn_of_envAt (hn : n ∈ doc.nodes) : ∀ b ∈ envAt n.above, DeclaredIn doc b.2 := by
  refine Document.nodes_induction (P := fun n => ∀ b ∈ envAt n.above, DeclaredIn doc b.2) (by simp [Document.root,
    Node.ofRoot, envAt]) ?_ hn
  intro n hn ih m hm b hb
  obtain ⟨i, -, hab⟩ := Node.mem_children_iff.1 hm
  rw [hab, envAt] at hb
  rcases mem_behind hb with ⟨t, ht, hb⟩ | hb
  · exact declaredIn_of_declared hn (List.mem_of_mem_take ht) hb
  · rcases List.mem_append.1 hb with hb | hb
    · exact declaredIn_of_parameters hn hb
    · exact ih b hb

theorem declaredIn_of_methodsOf {m : Method} (h : m ∈ methodsOf doc.tree) : DeclaredIn doc (.method m) := by
  obtain ⟨t, ht, hm⟩ := List.mem_filterMap.1 h
  obtain ⟨c, hc, rfl⟩ := Document.exists_of_part (n := doc.root) (Document.mem_nodes_iff.2 (.inl rfl)) ht
  obtain ⟨hk, name, type, -, -, rfl⟩ := Method.ofTree?_eq_some_iff.1 hm
  exact ⟨c, hc, hk, rfl⟩

theorem mem_of_choose {methods : List Method} {name : String} {arguments : Option Nat} {m : Method}
    (h : choose methods name arguments = some m) : m ∈ methods := by
  rcases Option.or_eq_some_iff.1 h with h | ⟨-, h⟩
  · exact List.mem_of_find?_eq_some h
  · exact List.mem_of_find?_eq_some h

theorem name_of_choose {methods : List Method} {name : String} {arguments : Option Nat} {m : Method}
    (h : choose methods name arguments = some m) : m.name = name := by
  rcases Option.or_eq_some_iff.1 h with h | ⟨-, h⟩
  · have hboth := List.find?_some h
    exact beq_iff_eq.1 (Bool.and_eq_true_iff.1 hboth).1
  · simpa using List.find?_some h

/-- What is in scope are parameters and locals, but no methods. -/
theorem method?_of_envAt {above : List Crumb} : ∀ b ∈ envAt above, b.2.method? = none := by
  induction above with
  | nil => simp [envAt]
  | cons crumb above ih =>
    intro b hb
    rcases mem_behind hb with ⟨t, -, hb⟩ | hb
    · unfold declared at hb
      split at hb
      · rw [List.mem_singleton.1 hb]
        rfl
      · cases hb
    · rcases List.mem_append.1 hb with hb | hb
      · unfold parameters at hb
        split at hb
        · obtain ⟨p, -, rfl⟩ := List.mem_map.1 hb
          rfl
        · cases hb
      · exact ih b hb

/-- A method that a node stands for is one of the methods, and has the name of the node. -/
theorem method_of_symbolAt {methods : List Method} {m : Method} (h : symbolAt methods n = some (.method m)) :
    m ∈ methods ∧ m.name = n.name := by
  have hchosen : ∀ {arguments}, (choose methods n.name arguments).map Symbol.method = some (.method m) →
      m ∈ methods ∧ m.name = n.name := by
    intro arguments h
    obtain ⟨m, hm, heq⟩ := Option.map_eq_some_iff.1 h
    cases heq
    exact ⟨mem_of_choose hm, name_of_choose hm⟩
  unfold symbolAt Role.symbol? at h
  split at h
  · rcases Option.or_eq_some_iff.1 h with h | ⟨-, h⟩
    · obtain ⟨before, after, hsplit, -⟩ := List.lookup_eq_some_iff.1 h
      cases method?_of_envAt (n.name, .method m) (by rw [hsplit]; simp)
    · exact hchosen h
  · exact hchosen h
  · cases h

/-- What a node stands for is declared in the document. -/
theorem declaredIn_of_symbolAt (hn : n ∈ doc.nodes) {symbol : Symbol}
    (h : symbolAt (methodsOf doc.tree) n = some symbol) : DeclaredIn doc symbol := by
  have hmethod : ∀ {arguments}, (choose (methodsOf doc.tree) n.name arguments).map Symbol.method = some symbol →
      DeclaredIn doc symbol := by
    intro arguments h
    obtain ⟨m, hm, rfl⟩ := Option.map_eq_some_iff.1 h
    exact declaredIn_of_methodsOf (mem_of_choose hm)
  unfold symbolAt Role.symbol? at h
  split at h
  · rcases Option.or_eq_some_iff.1 h with h | ⟨-, h⟩
    · obtain ⟨before, after, hsplit, -⟩ := List.lookup_eq_some_iff.1 h
      exact declaredIn_of_envAt hn (n.name, symbol) (by rw [hsplit]; simp)
    · exact hmethod h
  · exact hmethod h
  · cases h

/-- What the model of a document finds for its identifiers is what the steps to them say. -/
theorem resolve_of_parse {fileName text : String} (h : parse fileName text = .ok doc) (hn : n ∈ doc.nodes)
    (hk : n.kind = .identifier) : (Model.ofTree doc.tree).resolve n = symbolAt (methodsOf doc.tree) n := by
  obtain ⟨henc, hspan⟩ := encloses_of_parse h hn
  have hne : n.above ≠ [] := by
    rcases Document.mem_nodes_iff.1 hn with rfl | hbelow
    · cases (root_kind h).symm.trans hk
    · exact Node.above_ne_nil hbelow
  show ((MethodTable.ofTree doc.tree).resolution n).symbol? = _
  rw [methodTable_of_parse h, resolution_eq _ hne henc (hspan hne)]

end Lexical

/-! ## What declares a symbol is one node -/

namespace Node

variable {r n m c : Node}

theorem kind_mem_of_mem_children (h : m ∈ n.children) : m.kind ∈ n.tree.children.map Tree.kind := by
  rw [← map_tree_children, List.map_map]
  exact List.mem_map_of_mem (f := Tree.kind ∘ tree) h

/-- Where parts nest, what is below a node lies between its ends. -/
theorem span_of_withDescendants (hc : Nests c.span.start c.span.stop c.tree.children) (hm : m ∈ c.withDescendants) :
    c.span.start ≤ m.span.start ∧ m.span.stop ≤ c.span.stop := by
  rcases List.mem_cons.1 hm with rfl | hm
  · exact ⟨Nat.le_refl _, Nat.le_refl _⟩
  · obtain ⟨d, hd, hm⟩ := mem_descendants_iff_part.1 hm
    rw [← map_tree_children] at hc
    obtain ⟨h1, -, h3⟩ := bounds_of_mem hc hd (List.mem_cons.2 hm)
    exact ⟨h1, h3⟩

/-- The nodes share no offset. -/
def Apart (n m : Node) : Prop := n.span.stop ≤ m.span.start ∨ m.span.stop ≤ n.span.start

instance : Std.Symm Apart := ⟨fun _ _ => Or.symm⟩

/-- Where parts nest, of two nodes that share an offset one is below the other. -/
theorem nested_of_shared {offset : Nat} (hr : ∀ q ∈ r.withDescendants, Nests q.span.start q.span.stop q.tree.children)
    (hn : n ∈ r.withDescendants) (hm : m ∈ r.withDescendants) (hno : n.span.start ≤ offset ∧ offset < n.span.stop)
    (hmo : m.span.start ≤ offset ∧ offset < m.span.stop) : n = m ∨ m ∈ n.descendants ∨ n ∈ m.descendants := by
  induction r using induction with
  | step r ih =>
    rcases List.mem_cons.1 hn with rfl | hn
    · rcases List.mem_cons.1 hm with rfl | hm
      · exact .inl rfl
      · exact .inr (.inl hm)
    rcases List.mem_cons.1 hm with rfl | hm
    · exact .inr (.inr hn)
    obtain ⟨c, hc, hnc⟩ := mem_descendants_iff_part.1 hn
    obtain ⟨d, hd, hmd⟩ := mem_descendants_iff_part.1 hm
    have hbelow : ∀ e ∈ r.children, e.withDescendants ⊆ r.withDescendants := fun e he q hq =>
      List.mem_cons_of_mem _ (withDescendants_subset (mem_descendants_of_mem_children he) hq)
    by_cases hcd : c = d
    · subst hcd
      exact ih c hc (fun q hq => hr q (hbelow c hc hq)) (List.mem_cons.2 hnc) (List.mem_cons.2 hmd)
    · -- different parts share nothing
      have hparts := (hr r List.mem_cons_self).pairwise_siblings
      rw [← map_tree_children, List.pairwise_map] at hparts
      have hapart : c.Apart d := (hparts.imp (S := Apart) Or.inl).forall hc hd hcd
      have hcn := span_of_withDescendants (hr c (hbelow c hc List.mem_cons_self)) (List.mem_cons.2 hnc)
      have hdm := span_of_withDescendants (hr d (hbelow d hd List.mem_cons_self)) (List.mem_cons.2 hmd)
      unfold Apart at hapart
      omega

end Node

namespace Kind

/-- A type, or part of one. -/
def isTyping : Kind → Bool
  | .qualifiedType | .typeArgumentList | .identifier => true
  | _ => false

/-- The parts of a parameter or of a type are types or parts of types. -/
theorem isTyping_of_admits {kind part : Kind} {parts : List Kind} (hk : kind = .parameter ∨ kind.isTyping = true)
    (h : kind.admits parts = true) (hp : part ∈ parts) : part.isTyping = true := by
  have hcases : kind = .parameter ∨ kind = .qualifiedType ∨ kind = .typeArgumentList ∨ kind = .identifier := by
    cases kind <;> simp_all [isTyping]
  rcases hcases with rfl | rfl | rfl | rfl
  · simp only [admits, Bool.or_eq_true, decide_eq_true_eq] at h
    rcases h with rfl | rfl <;> simp only [List.mem_cons, List.not_mem_nil, or_false] at hp
    · rw [hp]
      rfl
    · rcases hp with rfl | rfl <;> rfl
  · rcases mem_of_admits_type h hp with rfl | rfl <;> rfl
  · simp only [admits, Bool.and_eq_true, List.all_eq_true, decide_eq_true_eq] at h
    rw [h.2 part hp]
    rfl
  · simp only [admits, decide_eq_true_eq] at h
    rw [h] at hp
    cases hp

end Kind

section

variable {fileName text : String} {doc : Document} {n m : Node}

theorem isTyping_below (h : parse fileName text = .ok doc) (hn : n ∈ doc.nodes)
    (hk : n.kind = .parameter ∨ n.kind.isTyping = true) : ∀ m ∈ n.descendants, m.kind.isTyping = true := by
  induction n using Node.induction with
  | step n ih =>
    intro m hm
    obtain ⟨c, hc, hm⟩ := Node.mem_descendants_iff_part.1 hm
    have hck := Kind.isTyping_of_admits hk (admits_of_parse h hn) (Node.kind_mem_of_mem_children hc)
    rcases hm with rfl | hm
    · exact hck
    · exact ih c hc (Document.mem_nodes_of_children hn hc) (.inr hck) m hm

/-- A method is under the root, so that none is below another. -/
theorem kind_ne_method_below (h : parse fileName text = .ok doc) (hn : n ∈ doc.nodes) (hk : n.kind = .method) :
    ∀ m ∈ n.descendants, m.kind ≠ .method := by
  intro m hm hmethod
  obtain ⟨p, hp, hmp⟩ := Node.exists_parent hm
  have hpn := Document.withDescendants_subset hn (List.mem_cons.2 hp)
  have hunit := (Kind.of_admits_top (admits_of_parse h hpn) (Node.kind_mem_of_mem_children hmp) (.inr hmethod)).1
  rcases hp with rfl | hp
  · cases hunit.symm.trans hk
  · -- the unit would be below the method, as a part of something
    obtain ⟨q, hq, hpq⟩ := Node.exists_parent hp
    have hqn := Document.withDescendants_subset hn (List.mem_cons.2 hq)
    have hnot := (Kind.of_admits_top (admits_of_parse h hqn) (Node.kind_mem_of_mem_children hpq) (.inl hunit)).2
    cases hunit.symm.trans hnot

/-- Below a node that declares a symbol, no other node of its kind is found. -/
theorem kind_ne_below (h : parse fileName text = .ok doc) (hn : n ∈ doc.nodes) {symbol : Symbol}
    (hk : n.kind = symbol.declaringKind) : ∀ m ∈ n.descendants, m.kind ≠ symbol.declaringKind := by
  cases symbol with
  | method _ => exact kind_ne_method_below h hn hk
  | localVar _ =>
    -- an identifier has no parts
    intro m hm
    have hparts := admits_of_parse h hn
    rw [hk] at hparts
    have hnil : n.children = [] := by
      rw [← List.map_eq_nil_iff (f := Node.tree), Node.map_tree_children, ← List.map_eq_nil_iff (f := Tree.kind)]
      exact of_decide_eq_true hparts
    rw [Node.descendants_eq, hnil] at hm
    cases hm
  | parameter _ =>
    intro m hm hmk
    have htyping := isTyping_below h hn (.inl hk) m hm
    rw [hmk] at htyping
    cases htyping

/-- Two nodes of a document that declare the same symbol are the same. -/
theorem eq_of_declares (h : parse fileName text = .ok doc) (hn : n ∈ doc.nodes) (hm : m ∈ doc.nodes) {symbol : Symbol}
    (hns : n.Declares symbol) (hms : m.Declares symbol) : n = m := by
  have hne : n.kind ≠ .unit := by
    rw [hns.1]
    cases symbol <;> simp [Symbol.declaringKind]
  have hlt : n.span.start < n.span.stop := by
    rcases Document.mem_nodes_iff.1 hn with rfl | hbelow
    · exact absurd (Lexical.root_kind h) hne
    · exact (lt_of_parse h hbelow).1
  have hspan := hns.2.trans hms.2.symm
  -- the spans are equal and not empty, so the nodes share their first offset
  have hnested := Node.nested_of_shared (r := doc.root)
    (fun q hq => nests_of_parse h hq) hn hm ⟨Nat.le_refl _, hlt⟩ (by rw [← hspan]; exact ⟨Nat.le_refl _, hlt⟩)
  rcases hnested with heq | hbelow | hbelow
  · exact heq
  · exact absurd hms.1 (kind_ne_below h hn hns.1 m hbelow)
  · exact absurd hns.1 (kind_ne_below h hm hms.1 n hbelow)

/-- In the arena, the node that declares a symbol is the only one. -/
theorem declares_iff (h : parse fileName text = .ok doc) (hn : n ∈ doc.nodes) {symbol : Symbol}
    (hs : n.Declares symbol) (i : Nat) : doc.toArena.arena.Declares i symbol ↔ i = n.index := by
  constructor
  · rintro ⟨cell, hcell, hk, hspan⟩
    have hi : i < doc.toArena.arena.size := (Array.getElem?_eq_some_iff.1 hcell).1
    obtain ⟨m, hm, rfl⟩ := Document.exists_index_eq hi
    rw [Document.cell?_index hm] at hcell
    cases hcell
    rw [eq_of_declares h hn hm hs ⟨hk, hspan⟩]
  · rintro rfl
    exact ⟨_, Document.cell?_index hn, hs⟩

end

end LetLint
