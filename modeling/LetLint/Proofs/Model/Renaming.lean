/-
Renaming a local or a parameter of a lambda. The identifiers that mention it are the one that introduces
it and those that stand for it. If these and no others are given a new name that no identifier has, then
the environments are the ones from before, with the one binding renamed: nothing else is introduced by an
identifier that mentions it, and types and methods never change. So every identifier stands for what it
stood for, renamed likewise.
-/
import LetLint.Proofs.Model.Declaration
import LetLint.Proofs.Model.Relocation
import LetLint.Proofs.Tree.Renaming

namespace LetLint

/-! ## What an identifier introduces -/

namespace Node

/-- The node is a parameter of a lambda: its bare one, or one of its list. -/
def isLambdaParameter (p : Node) : Bool :=
  p.kind = .parameter && p.parent?.any fun parent =>
    parent.kind.isLambda || (parent.kind = .parameterList && parent.parent?.any (·.kind.isLambda))

/-- The local or the parameter of a lambda that a node introduces as its name. -/
def introduces? (n : Node) : Option Symbol := do
  let parent ← n.parent?
  if parent.kind = .localDeclaration && n.isFirstChild then
    some (.localVar ⟨n.name, n.span⟩)
  else if parent.isLambdaParameter && n.isLastChild then
    some (.parameter (.ofTree parent.tree))
  else
    none

end Node

/-- The identifier introduces the symbol or stands for it. -/
def Model.mentions (model : Model) (symbol : Symbol) (n : Node) : Bool :=
  n.kind = .identifier && (n.introduces? == some symbol || model.resolve n == some symbol)

namespace Symbol

/-- The symbol with another name. -/
def withName (name : String) : Symbol → Symbol
  | .method m => .method { m with name }
  | .localVar v => .localVar { v with name }
  | .parameter p => .parameter { p with name }

/-- The symbol, with another name if it is the given one. -/
def rename (symbol old : Symbol) (name : String) : Symbol := if symbol = old then symbol.withName name else symbol

section

variable (symbol old : Symbol) (name : String)

theorem span_rename : (symbol.rename old name).span = symbol.span := by
  unfold rename
  split
  · cases symbol <;> rfl
  · rfl

theorem declaringKind_rename : (symbol.rename old name).declaringKind = symbol.declaringKind := by
  unfold rename
  split
  · cases symbol <;> rfl
  · rfl

end

end Symbol

namespace Node

variable {n p : Node} {symbol : Symbol}

theorem introduces?_eq_some (h : n.introduces? = some symbol) : ∃ crumb above, n.above = crumb :: above ∧
    (crumb.parent.kind = .localDeclaration ∧ crumb.index = 0 ∧ symbol = .localVar ⟨n.name, n.span⟩ ∨
      Node.isLambdaParameter ⟨crumb.parent, above⟩ = true ∧ symbol = .parameter (.ofTree crumb.parent)) := by
  unfold introduces? parent? isFirstChild at h
  rcases hab : n.above with _ | ⟨crumb, above⟩
  · rw [hab] at h
    cases h
  · rw [hab] at h
    simp only [Option.bind_eq_bind, Option.bind_some, Bool.and_eq_true, decide_eq_true_eq, beq_iff_eq] at h
    refine ⟨crumb, above, rfl, ?_⟩
    split_ifs at h with hlocal hparameter
    · cases h
      exact .inl ⟨hlocal.1, hlocal.2, rfl⟩
    · cases h
      exact .inr ⟨hparameter.1, rfl⟩

theorem kind_of_isLambdaParameter (hp : p.isLambdaParameter = true) : p.kind = .parameter :=
  of_decide_eq_true (Bool.and_eq_true_iff.1 hp).1

/-- A part is the name of a local, of a parameter of a lambda, or neither. -/
theorem introduces?_iff (hn : n ∈ p.children) : n.introduces? = some symbol ↔
    p.kind = .localDeclaration ∧ n.isFirstChild = true ∧ symbol = .localVar ⟨n.name, n.span⟩ ∨
      p.isLambdaParameter = true ∧ n.isLastChild = true ∧ symbol = .parameter (.ofTree p.tree) := by
  unfold introduces?
  rw [parent?_of_mem_children hn]
  simp only [Option.bind_eq_bind, Option.bind_some, Bool.and_eq_true, decide_eq_true_eq]
  constructor
  · intro h
    split_ifs at h with hlocal hparameter
    · exact .inl ⟨hlocal.1, hlocal.2, (Option.some.inj h).symm⟩
    · exact .inr ⟨hparameter.1, hparameter.2, (Option.some.inj h).symm⟩
  · rintro (⟨hk, hfirst, rfl⟩ | ⟨hp, hlast, rfl⟩)
    · rw [if_pos ⟨hk, hfirst⟩]
    · have hk : p.kind ≠ .localDeclaration := by
        rw [kind_of_isLambdaParameter hp]
        decide
      rw [if_neg fun h => hk h.1, if_pos ⟨hp, hlast⟩]

end Node

/-- A method, or what can be below one. -/
def Kind.isSignature : Kind → Bool
  | .method | .parameterList | .parameter | .qualifiedType | .typeArgumentList | .identifier => true
  | _ => false

/-- The parts of a method and those of its parts; a name is a part of the method, of a parameter or of a type. -/
theorem Kind.isSignature_of_admits {kind part : Kind} {parts : List Kind} (hk : kind.isSignature = true)
    (h : kind.admits parts = true) (hp : part ∈ parts) : part.isSignature = true ∧
      (part = .identifier → kind = .method ∨ kind = .parameter ∨ kind = .qualifiedType) := by
  cases kind with
  | method =>
    simp only [admits, decide_eq_true_eq] at h
    rw [h] at hp
    simp only [List.mem_cons, List.not_mem_nil, or_false] at hp
    rcases hp with rfl | rfl | rfl <;> simp [isSignature]
  | parameterList =>
    simp only [admits, List.all_eq_true, decide_eq_true_eq] at h
    rw [h part hp]
    simp [isSignature]
  | parameter =>
    simp only [admits, Bool.or_eq_true, decide_eq_true_eq] at h
    rcases h with rfl | rfl <;> simp only [List.mem_cons, List.not_mem_nil, or_false] at hp
    · simp [hp, isSignature]
    · rcases hp with rfl | rfl <;> simp [isSignature]
  | qualifiedType => rcases mem_of_admits_type h hp with rfl | rfl <;> simp [isSignature]
  | typeArgumentList =>
    simp only [admits, Bool.and_eq_true, List.all_eq_true, decide_eq_true_eq] at h
    rw [h.2 part hp]
    simp [isSignature]
  | identifier =>
    simp only [admits, decide_eq_true_eq] at h
    rw [h] at hp
    cases hp
  | _ => cases hk

namespace Lexical

variable {fileName text : String} {doc : Document} {n m : Node} {symbol : Symbol}

/-- What introduces a symbol is no reference. -/
theorem roleAt_of_introduces? (h : n.introduces? = some symbol) : roleAt n.above = .declaring := by
  obtain ⟨crumb, above, hab, hcase⟩ := Node.introduces?_eq_some h
  rw [hab, roleAt]
  unfold Role.part
  rcases hcase with ⟨hk, hi, -⟩ | ⟨hp, -⟩
  · rw [hk, hi]
    rfl
  · have hk : crumb.parent.kind = .parameter := Node.kind_of_isLambdaParameter hp
    rw [hk]

theorem symbolAt_of_declaring (methods : List Method) (h : roleAt n.above = .declaring) :
    symbolAt methods n = none := by
  unfold symbolAt
  rw [h]
  rfl

theorem eq_leaf_of_kind (h : parse fileName text = .ok doc) (hn : n ∈ doc.nodes) (hk : n.kind = .identifier) :
    n.tree = .leaf (.identifier n.name) n.span := (identifier_of_parse h hn hk).1

/-- No two identifiers have the same bytes. -/
theorem eq_of_span (h : parse fileName text = .ok doc) (hn : n ∈ doc.nodes) (hm : m ∈ doc.nodes)
    (hnk : n.kind = .identifier) (hmk : m.kind = .identifier) (hspan : n.span = m.span) : n = m := by
  have hns : n.Declares (.localVar ⟨n.name, n.span⟩) := ⟨hnk, rfl⟩
  exact eq_of_declares h hn hm hns ⟨hmk, hspan.symm⟩

/-- A declaration of a local starts with the name that introduces it. -/
theorem exists_name_of_localDeclaration (h : parse fileName text = .ok doc) (hn : n ∈ doc.nodes)
    (hk : n.kind = .localDeclaration) : ∃ d ∈ doc.nodes, ∃ rest, d.kind = .identifier ∧
      d.introduces? = some (.localVar ⟨d.name, d.span⟩) ∧
      n.tree.children = .leaf (.identifier d.name) d.span :: rest := by
  have hadmits := admits_of_parse h hn
  rw [hk] at hadmits
  match hparts : n.tree.children, hadmits with
  | [name, value], hadmits =>
    simp only [List.map_cons, List.map_nil, Kind.admits, Bool.and_eq_true, decide_eq_true_eq] at hadmits
    let d : Node := ⟨name, ⟨n.tree, 0⟩ :: n.above⟩
    have hd : d ∈ n.children := Node.mem_children_iff.2 ⟨0, by rw [hparts]; rfl, rfl⟩
    have hdoc := Document.mem_nodes_of_children hn hd
    refine ⟨d, hdoc, [value], hadmits.1, (Node.introduces?_iff hd).2 (.inl ⟨hk, rfl, rfl⟩), ?_⟩
    rw [← eq_leaf_of_kind h hdoc hadmits.1]

/-- A parameter of a lambda ends with the name that introduces it. -/
theorem exists_name_of_isLambdaParameter (h : parse fileName text = .ok doc) (hn : n ∈ doc.nodes)
    (hp : n.isLambdaParameter = true) : ∃ d ∈ doc.nodes, ∃ before, d.kind = .identifier ∧
      d.introduces? = some (.parameter (.ofTree n.tree)) ∧
      n.tree.children = before ++ [.leaf (.identifier d.name) d.span] := by
  have hk : n.kind = .parameter := Node.kind_of_isLambdaParameter hp
  have hadmits := admits_of_parse h hn
  rw [hk] at hadmits
  simp only [Kind.admits, Bool.or_eq_true, decide_eq_true_eq] at hadmits
  have hlast : ∃ before name, n.tree.children = before ++ [name] ∧ name.kind = .identifier := by
    rcases hadmits with hkinds | hkinds
    · obtain ⟨name, hparts, hname⟩ := List.map_eq_singleton_iff.1 hkinds
      exact ⟨[], name, hparts, hname⟩
    · obtain ⟨type, more, hparts, -, hmore⟩ := List.map_eq_cons_iff.1 hkinds
      obtain ⟨name, rfl, hname⟩ := List.map_eq_singleton_iff.1 hmore
      exact ⟨[type], name, hparts, hname⟩
  obtain ⟨before, name, hparts, hname⟩ := hlast
  let d : Node := ⟨name, ⟨n.tree, before.length⟩ :: n.above⟩
  have hget : n.tree.children[before.length]? = some name := by
    rw [hparts]
    simp
  have hd : d ∈ n.children := Node.mem_children_iff.2 ⟨before.length, hget, rfl⟩
  have hdoc := Document.mem_nodes_of_children hn hd
  have hend : d.isLastChild = true := by
    show (before.length + 1 == n.tree.children.length) = true
    rw [hparts]
    simp
  refine ⟨d, hdoc, before, hname, (Node.introduces?_iff hd).2 (.inr ⟨hp, hend, rfl⟩), ?_⟩
  rw [← eq_leaf_of_kind h hdoc hname, hparts]

/-- Only one identifier introduces a local or a parameter. -/
theorem eq_of_introduces? (h : parse fileName text = .ok doc) (hn : n ∈ doc.nodes) (hm : m ∈ doc.nodes)
    (hns : n.introduces? = some symbol) (hms : m.introduces? = some symbol) : n = m := by
  have hparent : ∀ {n : Node}, n ∈ doc.nodes → n.introduces? = some symbol → ∃ p ∈ doc.nodes, n ∈ p.children := by
    intro n hn hns
    rcases Document.eq_root_or_exists_parent hn with rfl | hp
    · cases hns
    · exact hp
  have hname : ∀ {n p : Node}, p ∈ doc.nodes → n ∈ p.children → p.kind = .localDeclaration → n.isFirstChild = true →
      n.kind = .identifier := by
    intro n p hp hnp hk hfirst
    obtain ⟨d, -, rest, -, -, hparts⟩ := exists_name_of_localDeclaration h hp hk
    have hhead : p.children.head? = some n := Node.firstChild?_of_isFirstChild hnp hfirst
    have htree : p.tree.children.head? = some n.tree := by
      rw [← Node.map_tree_children, List.head?_map, hhead]
      rfl
    rw [hparts, List.head?_cons] at htree
    rw [Node.kind, ← Option.some.inj htree]
    rfl
  obtain ⟨p, hp, hnp⟩ := hparent hn hns
  obtain ⟨q, hq, hmq⟩ := hparent hm hms
  rcases (Node.introduces?_iff hnp).1 hns with ⟨hpk, hfirst, rfl⟩ | ⟨hpl, hlast, rfl⟩ <;>
    rcases (Node.introduces?_iff hmq).1 hms with ⟨hqk, hfirst', heq⟩ | ⟨hql, hlast', heq⟩
  · have hspan : n.span = m.span := congrArg Symbol.span heq
    exact eq_of_span h hn hm (hname hp hnp hpk hfirst) (hname hq hmq hqk hfirst') hspan
  · cases heq
  · cases heq
  · have hspan : p.span = q.span := congrArg Symbol.span heq
    have hdeclares : p.Declares (.parameter (.ofTree p.tree)) := ⟨Node.kind_of_isLambdaParameter hpl, rfl⟩
    cases eq_of_declares h hp hq hdeclares ⟨Node.kind_of_isLambdaParameter hql, hspan.symm⟩
    exact Option.some.inj ((Node.lastChild?_of_isLastChild hnp hlast).symm.trans
      (Node.lastChild?_of_isLastChild hmq hlast'))

theorem exists_of_lambdaParameters (hn : n ∈ doc.nodes) (hlambda : n.kind.isLambda = true) {q : Tree}
    (hq : q ∈ n.tree.lambdaParameters) : ∃ m ∈ doc.nodes, m.tree = q ∧ m.isLambdaParameter = true := by
  obtain ⟨m, hm, htree, hk, hpart⟩ := Document.exists_of_lambdaParameter hn hq
  refine ⟨m, hm, htree, ?_⟩
  rcases hpart with hpart | ⟨list, hlist, hlistKind, hpart⟩
  · simp [Node.isLambdaParameter, hk, Node.parent?_of_mem_children hpart, hlambda]
  · simp [Node.isLambdaParameter, hk, Node.parent?_of_mem_children hpart, hlistKind,
      Node.parent?_of_mem_children hlist, hlambda]

theorem parameterName_of_parts {q : Tree} {before : List Tree} {name : String} {span : Span}
    (h : q.children = before ++ [.leaf (.identifier name) span]) : q.parameterName = name := by
  have hlast : q.lastChild? = some (.leaf (.identifier name) span) := by
    rw [Tree.lastChild?, h, List.getLast?_concat]
  rw [Tree.parameterName, Tree.parameterIdentifier?, hlast]
  rfl

/-- The name of a parameter of a lambda is the one of the identifier that introduces it, also when renamed. -/
theorem exists_name_of_lambdaParameters (h : parse fileName text = .ok doc) (hn : n ∈ doc.nodes)
    (hlambda : n.kind.isLambda = true) {q : Tree} (hq : q ∈ n.tree.lambdaParameters) :
    ∃ d ∈ doc.nodes, d.kind = .identifier ∧ d.introduces? = some (.parameter (.ofTree q)) ∧ q.parameterName = d.name ∧
      ∀ g, (q.rename g).parameterName = g d.span d.name := by
  obtain ⟨m, hm, rfl, hparameter⟩ := exists_of_lambdaParameters hn hlambda hq
  obtain ⟨d, hd, before, hk, hintroduces, hparts⟩ := exists_name_of_isLambdaParameter h hm hparameter
  refine ⟨d, hd, hk, hintroduces, parameterName_of_parts hparts, fun g => ?_⟩
  have hrenamed : (m.tree.rename g).children =
      before.map (Tree.rename g) ++ [.leaf (.identifier (g d.span d.name)) d.span] := by
    rw [Tree.children_rename, hparts, List.map_append]
    rfl
  exact parameterName_of_parts hrenamed

/-- A part declares nothing or what its identifier introduces, also when renamed. -/
theorem declared_cases (h : parse fileName text = .ok doc) (hn : n ∈ doc.nodes) (parent : Kind) :
    (∀ g, declared parent (n.tree.rename g) = []) ∧ declared parent n.tree = [] ∨
      ∃ d ∈ doc.nodes, d.kind = .identifier ∧ d.introduces? = some (.localVar ⟨d.name, d.span⟩) ∧
        declared parent n.tree = [(d.name, .localVar ⟨d.name, d.span⟩)] ∧
        ∀ g, declared parent (n.tree.rename g) = [(g d.span d.name, .localVar ⟨g d.span d.name, d.span⟩)] := by
  unfold declared
  by_cases hk : n.kind = .localDeclaration
  · obtain ⟨d, hd, rest, hdk, hintroduces, hparts⟩ := exists_name_of_localDeclaration h hn hk
    have hkind : n.tree.kind = .localDeclaration := hk
    simp only [Tree.kind_rename, Tree.children_rename, hkind, hparts, List.map_cons, Tree.rename]
    cases parent.isScope with
    | true => exact .inr ⟨d, hd, hdk, hintroduces, rfl, fun _ => rfl⟩
    | false => exact .inl ⟨fun _ => rfl, rfl⟩
  · have hkind : n.tree.kind ≠ .localDeclaration := hk
    simp [Tree.kind_rename, hkind]

/-- What is in scope at a node is introduced by an identifier of its name. -/
theorem introduced_of_envAt (h : parse fileName text = .ok doc) (hn : n ∈ doc.nodes) : ∀ b ∈ envAt n.above,
    ∃ d ∈ doc.nodes, d.kind = .identifier ∧ d.name = b.1 ∧ d.introduces? = some b.2 := by
  refine Document.nodes_induction (P := fun n => ∀ b ∈ envAt n.above, ∃ d ∈ doc.nodes, d.kind = .identifier ∧
    d.name = b.1 ∧ d.introduces? = some b.2) (by simp [Document.root, Node.ofRoot, envAt]) ?_ hn
  intro n hn ih m hm b hb
  obtain ⟨i, -, hab⟩ := Node.mem_children_iff.1 hm
  rw [hab, envAt] at hb
  -- declared by a part that stands before, a parameter of the node above, or from further up
  rcases mem_behind hb with ⟨t, ht, hb⟩ | hb
  · obtain ⟨c, hc, rfl⟩ := Document.exists_of_part hn (List.mem_of_mem_take ht)
    rcases declared_cases h hc n.kind with ⟨-, hnone⟩ | ⟨d, hd, hk, hintroduces, hone, -⟩
    · rw [show declared n.tree.kind c.tree = [] from hnone] at hb
      cases hb
    · rw [show declared n.tree.kind c.tree = _ from hone] at hb
      cases List.mem_singleton.1 hb
      exact ⟨d, hd, hk, rfl, hintroduces⟩
  · rcases List.mem_append.1 hb with hb | hb
    · unfold parameters at hb
      split at hb
      · rename_i hlambda
        obtain ⟨q, hq, rfl⟩ := List.mem_map.1 hb
        obtain ⟨d, hd, hk, hintroduces, hname, -⟩ := exists_name_of_lambdaParameters h hn hlambda hq
        exact ⟨d, hd, hk, hname.symm, hintroduces⟩
      · cases hb
    · exact ih b hb

/-! ## Types and methods -/

theorem isSignature_below (h : parse fileName text = .ok doc) (hn : n ∈ doc.nodes) (hk : n.kind.isSignature = true) :
    ∀ m ∈ n.withDescendants, m.kind.isSignature = true := by
  induction n using Node.induction with
  | step n ih =>
    intro m hm
    rcases List.mem_cons.1 hm with rfl | hm
    · exact hk
    · obtain ⟨c, hc, hm⟩ := Node.mem_descendants_iff_part.1 hm
      have hck := (Kind.isSignature_of_admits hk (admits_of_parse h hn) (Node.kind_mem_of_mem_children hc)).1
      exact ih c hc (Document.mem_nodes_of_children hn hc) hck m (List.mem_cons.2 hm)

/-- The node itself or one below it is a parent of what is below it. -/
theorem exists_parent_below (hm : m ∈ n.descendants) : ∃ p ∈ n.withDescendants, m ∈ p.children := by
  obtain ⟨p, hp, hmp⟩ := Node.exists_parent hm
  exact ⟨p, List.mem_cons.2 hp, hmp⟩

theorem mem_descendants_of_kind (hm : m ∈ n.withDescendants) (hk : m.kind ≠ n.kind) : m ∈ n.descendants := by
  rcases List.mem_cons.1 hm with rfl | hm
  · exact absurd rfl hk
  · exact hm

/-- No parameter of a lambda is in a method or in a type. -/
theorem not_isLambdaParameter_below (h : parse fileName text = .ok doc) (hn : n ∈ doc.nodes)
    (hk : n.kind = .method ∨ n.kind = .qualifiedType) (hm : m ∈ n.withDescendants) :
    ¬ m.isLambdaParameter = true := by
  have hsignature := isSignature_below h hn (by rcases hk with hk | hk <;> rw [hk] <;> rfl)
  have hlambda : ∀ q ∈ n.withDescendants, q.kind.isLambda = false := by
    intro q hq
    have hkind := hsignature q hq
    revert hkind
    cases q.kind <;> simp [Kind.isSignature, Kind.isLambda]
  have hne : ∀ kind : Kind, kind = .parameter ∨ kind = .parameterList → kind ≠ n.kind := by
    rintro _ (rfl | rfl) heq <;> rw [← heq] at hk <;> rcases hk with hk | hk <;> cases hk
  -- one step or two steps above the parameter would be the lambda, inside the method or the type
  intro hp
  obtain ⟨hmk, hparent⟩ := Bool.and_eq_true_iff.1 hp
  have hmk : m.kind = .parameter := of_decide_eq_true hmk
  obtain ⟨p, hpn, hmp⟩ := exists_parent_below (mem_descendants_of_kind hm (hne _ (.inl hmk)))
  rw [Node.parent?_of_mem_children hmp, Option.any_some, hlambda p hpn, Bool.false_or, Bool.and_eq_true] at hparent
  have hpk : p.kind = .parameterList := of_decide_eq_true hparent.1
  obtain ⟨q, hqn, hpq⟩ := exists_parent_below (mem_descendants_of_kind hpn (hne _ (.inr hpk)))
  rw [Node.parent?_of_mem_children hpq, Option.any_some, hlambda q hqn] at hparent
  cases hparent.2

/-- The names in a method or in a type introduce nothing that is in scope, and are no references. -/
theorem declaring_below (h : parse fileName text = .ok doc) (hn : n ∈ doc.nodes)
    (hk : n.kind = .method ∨ n.kind = .qualifiedType) (hm : m ∈ n.withDescendants) (hmk : m.kind = .identifier) :
    m.introduces? = none ∧ roleAt m.above = .declaring := by
  have hbelow : m ∈ n.descendants := by
    refine mem_descendants_of_kind hm ?_
    rw [hmk]
    rcases hk with hk | hk <;> rw [hk] <;> decide
  obtain ⟨p, hpn, hmp⟩ := exists_parent_below hbelow
  have hdoc := Document.withDescendants_subset hn hpn
  have hsignature := isSignature_below h hn (by rcases hk with hk | hk <;> rw [hk] <;> rfl) p hpn
  have hpk := (Kind.isSignature_of_admits hsignature (admits_of_parse h hdoc)
    (Node.kind_mem_of_mem_children hmp)).2 hmk
  obtain ⟨i, -, hab⟩ := Node.mem_children_iff.1 hmp
  constructor
  · rw [Option.eq_none_iff_forall_ne_some]
    intro symbol hintroduces
    obtain ⟨crumb, above, hab', hcase⟩ := Node.introduces?_eq_some hintroduces
    cases hab.symm.trans hab'
    rcases hcase with ⟨hlocal, -⟩ | ⟨hparameter, -⟩
    · have hlocal : p.kind = .localDeclaration := hlocal
      rw [hlocal] at hpk
      simp at hpk
    · exact not_isLambdaParameter_below h hn hk hpn hparameter
  · rw [hab, roleAt]
    unfold Role.part
    have hkind : p.tree.kind = .method ∨ p.tree.kind = .parameter ∨ p.tree.kind = .qualifiedType := hpk
    rcases hkind with hkind | hkind | hkind <;> rw [hkind]

/-! ## Renaming what mentions a symbol -/

/-- The identifier introduces the symbol or, by the steps that lead to it, stands for it. -/
def Mentions (doc : Document) (symbol : Symbol) (n : Node) : Prop :=
  n.introduces? = some symbol ∨ symbolAt (methodsOf doc.tree) n = some symbol

/-- The identifiers that mention a local or a parameter get a name that no identifier has; all others keep
theirs. -/
structure Renames (doc : Document) (symbol : Symbol) (name : String) (g : Span → String → String) : Prop where
  not_method : ∀ m, symbol ≠ .method m
  fresh : ∀ n ∈ doc.nodes, n.kind = .identifier → n.name ≠ name
  mentioned : ∀ n ∈ doc.nodes, n.kind = .identifier → Mentions doc symbol n → g n.span n.name = name
  kept : ∀ n ∈ doc.nodes, n.kind = .identifier → ¬ Mentions doc symbol n → g n.span n.name = n.name

/-- The environment with a symbol renamed, and what is bound to it. -/
def Environment.rename (env : Environment) (old : Symbol) (name : String) : Environment :=
  env.map fun b => (if b.2 = old then name else b.1, b.2.rename old name)

theorem Environment.rename_append (env env' : Environment) (old : Symbol) (name : String) :
    rename (env ++ env') old name = rename env old name ++ rename env' old name := List.map_append

namespace Renames

variable {name : String} {g : Span → String → String}

theorem introducing (hg : Renames doc symbol name g) (hn : n ∈ doc.nodes) (hk : n.kind = .identifier) {other : Symbol}
    (h : n.introduces? = some other) : g n.span n.name = if other = symbol then name else n.name := by
  split_ifs with heq
  · exact hg.mentioned n hn hk (.inl (heq ▸ h))
  · refine hg.kept n hn hk ?_
    rintro (hintroduces | hsymbol)
    · cases h.symm.trans hintroduces
      exact heq rfl
    · cases (symbolAt_of_declaring _ (roleAt_of_introduces? h)).symm.trans hsymbol

/-- Methods and types are not changed. -/
theorem rename_eq_self (hg : Renames doc symbol name g) (h : parse fileName text = .ok doc) (hn : n ∈ doc.nodes)
    (hk : n.kind = .method ∨ n.kind = .qualifiedType) : n.tree.rename g = n.tree := by
  refine Tree.rename_eq_self g n.tree fun u hu spelled hspelled => ?_
  rw [← Node.map_tree_withDescendants, List.mem_map] at hu
  obtain ⟨m, hm, rfl⟩ := hu
  have hmk : m.kind = .identifier := by
    unfold Node.kind
    rcases ht : m.tree with ⟨atom, span⟩ | _
    · rw [ht] at hspelled
      cases atom <;> cases hspelled
      rfl
    · rw [ht] at hspelled
      cases hspelled
  have hname : m.name = spelled := by rw [Node.name, hspelled, Option.getD_some]
  obtain ⟨hintroduces, hrole⟩ := declaring_below h hn hk hm hmk
  rw [← hname]
  refine hg.kept m (Document.withDescendants_subset hn hm) hmk ?_
  rintro (hm | hm)
  · cases hintroduces.symm.trans hm
  · cases (symbolAt_of_declaring _ hrole).symm.trans hm

theorem methodsOf_rename (hg : Renames doc symbol name g) (h : parse fileName text = .ok doc) :
    methodsOf (doc.tree.rename g) = methodsOf doc.tree := by
  unfold methodsOf
  rw [Tree.children_rename, List.filterMap_map]
  refine List.filterMap_congr fun t ht => ?_
  obtain ⟨m, hm, rfl⟩ := Document.exists_of_part (Document.mem_nodes_iff.2 (.inl rfl) : doc.root ∈ doc.nodes) ht
  show Method.ofTree? (m.tree.rename g) = Method.ofTree? m.tree
  by_cases hk : m.kind = .method
  · rw [hg.rename_eq_self h hm (.inl hk)]
  · have hkind : m.tree.kind ≠ .method := hk
    rw [Method.ofTree?, Method.ofTree?, Tree.kind_rename, if_neg hkind, if_neg hkind]

theorem ofTree_rename (hg : Renames doc symbol name g) (h : parse fileName text = .ok doc) (hn : n ∈ doc.nodes)
    {q : Tree} (hq : q ∈ n.tree.lambdaParameters) (hlambda : n.kind.isLambda = true) :
    Parameter.ofTree (q.rename g) =
      ⟨if Symbol.parameter (.ofTree q) = symbol then name else q.parameterName, (Parameter.ofTree q).type,
        q.span⟩ := by
  obtain ⟨d, hd, hk, hintroduces, hname, hrenamed⟩ := exists_name_of_lambdaParameters h hn hlambda hq
  obtain ⟨m, hm, rfl, -, -⟩ := Document.exists_of_lambdaParameter hn hq
  have htype : (m.tree.rename g).parameterType?.map TypeRef.ofTree = m.tree.parameterType?.map TypeRef.ofTree := by
    rw [(Tree.keeps_rename g).parameterType?_eq]
    rcases hfind : m.tree.parameterType? with _ | t
    · rfl
    · obtain ⟨c, hc, rfl⟩ := Document.exists_of_part hm (List.mem_of_find?_eq_some hfind)
      have hck : c.kind = .qualifiedType :=
        of_decide_eq_true (List.find?_some (p := fun t : Tree => decide (t.kind = .qualifiedType)) hfind)
      rw [Option.map_some, hg.rename_eq_self h hc (.inr hck)]
  rw [Parameter.ofTree, hrenamed g, htype, Tree.span_rename, hg.introducing hd hk hintroduces, hname]
  rfl

theorem parameters_rename (hg : Renames doc symbol name g) (h : parse fileName text = .ok doc) (hn : n ∈ doc.nodes) :
    parameters (n.tree.rename g) = (parameters n.tree).rename symbol name := by
  unfold parameters
  rw [Tree.kind_rename, (Tree.keeps_rename g).lambdaParameters_eq]
  split
  · rename_i hlambda
    rw [Environment.rename, List.map_map, List.map_map]
    refine List.map_congr_left fun q hq => ?_
    have hparameter := hg.ofTree_rename h hn hq hlambda
    have hname : (q.rename g).parameterName = _ := congrArg Parameter.name hparameter
    simp only [Function.comp_apply, hparameter, hname, Symbol.rename]
    split_ifs <;> rfl
  · rfl

theorem declared_rename (hg : Renames doc symbol name g) (h : parse fileName text = .ok doc) (hn : n ∈ doc.nodes)
    (parent : Kind) : declared parent (n.tree.rename g) = (declared parent n.tree).rename symbol name := by
  rcases declared_cases h hn parent with ⟨hnone, hnone'⟩ | ⟨d, hd, hk, hintroduces, hone, hone'⟩
  · rw [hnone, hnone']
    rfl
  · rw [hone, hone', hg.introducing hd hk hintroduces, Environment.rename, List.map_singleton, Symbol.rename]
    split_ifs <;> rfl

theorem behind_rename (hg : Renames doc symbol name g) (h : parse fileName text = .ok doc) (hn : n ∈ doc.nodes)
    (parent : Kind) (ts : List Tree) (hts : ts ⊆ n.tree.children) (env : Environment) :
    behind parent (ts.map (Tree.rename g)) (env.rename symbol name) = (behind parent ts env).rename symbol name := by
  induction ts generalizing env with
  | nil => rfl
  | cons t ts ih =>
    obtain ⟨ht, hrest⟩ := List.cons_subset.1 hts
    obtain ⟨c, hc, rfl⟩ := Document.exists_of_part hn ht
    show behind parent (ts.map (Tree.rename g)) (declared parent (c.tree.rename g) ++ env.rename symbol name) =
      (behind parent ts (declared parent c.tree ++ env)).rename symbol name
    rw [hg.declared_rename h hc, ← Environment.rename_append, ih hrest]

/-- The environment of every node is the one from before, with the symbol renamed. -/
theorem envAt_rename (hg : Renames doc symbol name g) (h : parse fileName text = .ok doc) (hn : n ∈ doc.nodes) :
    envAt (n.rename g).above = (envAt n.above).rename symbol name := by
  refine Document.nodes_induction (P := fun n => envAt (n.rename g).above = (envAt n.above).rename symbol name) rfl
    ?_ hn
  -- one step down: the environment of the part from the one of the node
  intro n hn ih m hm
  obtain ⟨i, -, hab⟩ := Node.mem_children_iff.1 hm
  show envAt (m.above.map (Crumb.rename g)) = _
  rw [hab, List.map_cons, envAt, envAt]
  show behind (n.tree.rename g).kind ((n.tree.rename g).children.take i)
    (parameters (n.tree.rename g) ++ envAt (n.rename g).above) = _
  rw [Tree.kind_rename, Tree.children_rename, ← List.map_take, hg.parameters_rename h hn, ih,
    ← Environment.rename_append, hg.behind_rename h hn _ _ (List.take_subset _ _)]

end Renames

/-- A name is bound to what it was bound to, renamed, if it is renamed along with its symbol. -/
theorem lookup_rename (symbol : Symbol) {env : Environment} {name asked : String} (hfresh : ∀ b ∈ env, b.1 ≠ name)
    (ha : asked ≠ name) : (env.rename symbol name).lookup (if env.lookup asked = some symbol then name else asked) =
      (env.lookup asked).map (·.rename symbol name) := by
  induction env with
  | nil => rfl
  | cons b env ih =>
    obtain ⟨hb, hrest⟩ := List.forall_mem_cons.1 hfresh
    have hcons : Environment.rename (b :: env) symbol name =
        (if b.2 = symbol then name else b.1, b.2.rename symbol name) :: Environment.rename env symbol name := rfl
    rw [hcons]
    by_cases hasked : asked = b.1
    · -- the first binding is the one that is found, under its new name or its old one
      have hfound : List.lookup asked (b :: env) = some b.2 := by rw [hasked, List.lookup_cons_self]
      rw [hfound, hasked, Option.map_some]
      simp only [Option.some.injEq]
      exact List.lookup_cons_self
    · have hbehind : List.lookup asked (b :: env) = env.lookup asked := by
        rw [List.lookup_cons, beq_false_of_ne hasked]
      rw [hbehind]
      by_cases hboth : env.lookup asked = some symbol ∧ b.2 = symbol
      · rw [if_pos hboth.1, if_pos hboth.2, hboth.1, hboth.2]
        exact List.lookup_cons_self
      · -- the name that is looked for now is not the one of the first binding either
        have hne : (if env.lookup asked = some symbol then name else asked) ≠ (if b.2 = symbol then name else b.1) := by
          split_ifs with hfound hfirst
          · exact absurd ⟨hfound, hfirst⟩ hboth
          · exact hb.symm
          · exact ha
          · exact hasked
        rw [List.lookup_cons, beq_false_of_ne hne]
        exact ih hrest

theorem name_of_rename (h : parse fileName text = .ok doc) (hn : n ∈ doc.nodes) (hk : n.kind = .identifier)
    (g : Span → String → String) : (n.rename g).name = g n.span n.name := by
  show ((n.tree.rename g).name?).getD "" = _
  rw [Tree.name?_rename, eq_leaf_of_kind h hn hk]
  rfl

theorem rename_method (hnot : ∀ m, symbol ≠ .method m) (m : Method) (name : String) :
    (Symbol.method m).rename symbol name = .method m := if_neg fun heq => hnot m heq.symm

/-- The name behind a dot is the name of a member. -/
theorem roleAt_of_lastChild? (h : parse fileName text = .ok doc) (hn : n ∈ doc.nodes) (hk : n.kind = .memberAccess)
    (hm : n.lastChild? = some m) : ∃ arguments, roleAt m.above = .member arguments := by
  obtain ⟨receiver, name, hparts⟩ := Tree.memberAccess_parts (admits_of_parse h hn) hk
  have hlast : m = ⟨name, ⟨n.tree, 1⟩ :: n.above⟩ := by
    unfold Node.lastChild? Node.children at hm
    rw [hparts] at hm
    exact (Option.some.inj hm).symm
  have hkind : n.tree.kind = .memberAccess := hk
  rw [hlast, roleAt]
  exact ⟨(roleAt n.above).arguments?, by simp [Role.part, hkind]⟩

namespace Renames

variable {name : String} {g : Span → String → String} {arguments : Option Nat}

theorem choose_ne (hg : Renames doc symbol name g) (methods : List Method) (asked : String)
    (arguments : Option Nat) : (choose methods asked arguments).map Symbol.method ≠ some symbol := by
  intro heq
  obtain ⟨m, -, hm⟩ := Option.map_eq_some_iff.1 heq
  exact hg.not_method m hm.symm

theorem choose_rename (hg : Renames doc symbol name g) (methods : List Method) (asked : String)
    (arguments : Option Nat) : ((choose methods asked arguments).map Symbol.method).map (·.rename symbol name) =
      (choose methods asked arguments).map .method := by
  cases choose methods asked arguments with
  | none => rfl
  | some m => exact congrArg some (rename_method hg.not_method m name)

/-- A value is renamed if the environment binds it to the symbol. -/
theorem name_of_value (hg : Renames doc symbol name g) (hn : n ∈ doc.nodes) (hk : n.kind = .identifier)
    (hr : roleAt n.above = .value arguments) :
    g n.span n.name = if (envAt n.above).lookup n.name = some symbol then name else n.name := by
  have hintroduces : n.introduces? ≠ some symbol := fun h => by cases hr.symm.trans (roleAt_of_introduces? h)
  have hmentions : Mentions doc symbol n ↔ (envAt n.above).lookup n.name = some symbol := by
    rw [Mentions, symbolAt, hr, Role.symbol?, Option.or_eq_some_iff]
    simp [hintroduces, hg.choose_ne]
  split_ifs with hfound
  · exact hg.mentioned n hn hk (hmentions.2 hfound)
  · exact hg.kept n hn hk fun hm => hfound (hmentions.1 hm)

/-- The name of a member is kept. -/
theorem name_of_member (hg : Renames doc symbol name g) (hn : n ∈ doc.nodes) (hk : n.kind = .identifier)
    (hr : roleAt n.above = .member arguments) : g n.span n.name = n.name := by
  refine hg.kept n hn hk ?_
  rintro (hintroduces | hsymbol)
  · cases hr.symm.trans (roleAt_of_introduces? hintroduces)
  · unfold symbolAt at hsymbol
    rw [hr] at hsymbol
    exact hg.choose_ne _ _ _ hsymbol

end Renames

/-- Every identifier stands for what it stood for, with the symbol renamed. -/
theorem symbolAt_rename {name : String} {g : Span → String → String} (hg : Renames doc symbol name g)
    (h : parse fileName text = .ok doc) (hn : n ∈ doc.nodes) (hk : n.kind = .identifier) :
    symbolAt (methodsOf (doc.tree.rename g)) (n.rename g) =
      (symbolAt (methodsOf doc.tree) n).map (·.rename symbol name) := by
  have hrole : roleAt (n.rename g).above = roleAt n.above := roleAt_map (Tree.keeps_rename g) n.above
  unfold symbolAt
  rw [hg.methodsOf_rename h, hrole, hg.envAt_rename h hn, name_of_rename h hn hk]
  rcases hr : roleAt n.above with arguments | arguments | _
  · have hname := hg.name_of_value hn hk hr
    have hfresh : ∀ b ∈ envAt n.above, b.1 ≠ name := by
      intro b hb
      obtain ⟨d, hd, hdk, hdname, -⟩ := introduced_of_envAt h hn b hb
      rw [← hdname]
      exact hg.fresh d hd hdk
    have hlookup := lookup_rename symbol hfresh (hg.fresh n hn hk)
    rw [← hname] at hlookup
    simp only [Role.symbol?, Option.map_or, hlookup, hg.choose_rename]
    -- what is not bound is asked for among the methods, by its old name
    rcases hfound : (envAt n.above).lookup n.name with _ | found
    · have hkept : g n.span n.name = n.name := by rw [hname, hfound, if_neg (by simp)]
      rw [hkept]
    · rfl
  · simp only [Role.symbol?, hg.name_of_member hn hk hr, hg.choose_rename]
  · rfl

end Lexical

end LetLint
