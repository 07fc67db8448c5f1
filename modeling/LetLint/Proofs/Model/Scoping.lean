/-
Resolution by scopes is lexical scoping. The model looks outwards from an identifier and asks each
node around it for a parameter or for a local that ends before the identifier; the environment is
threaded inwards from the root. Both find the same: the parts of a node nest in the text, so the
locals that end before an identifier are those in the parts before the one that it lies in.
-/
import LetLint.Proofs.Model.Lexical
import LetLint.Proofs.Parse.Accepted
import LetLint.Proofs.Tree.Order
import Mathlib.Data.List.Induction

namespace LetLint.Lexical

/-! ## Bindings of one node -/

section

variable {name : String} {parent : Kind} {t : Tree}

theorem parameter?_eq (name : String) (t : Tree) : Scope.parameter? name t = (parameters t).lookup name := by
  unfold Scope.parameter? parameters
  split
  · induction t.lambdaParameters with
    | nil => rfl
    | cons p ps ih =>
      -- the model compares the name with the parameter's, the environment the other way round
      rw [List.map_cons, List.lookup_cons, List.find?_cons, BEq.comm]
      cases name == p.parameterName with
      | true => rfl
      | false => exact ih
  · rfl

/-- The local of the given name that the last of some parts declares. -/
def lastLocal? (name : String) (ts : List Tree) : Option Symbol :=
  (((ts.filter (·.kind = .localDeclaration)).filterMap Tree.localIdentifier?).filter
    (·.name? == some name)).getLast?.map fun declared => .localVar ⟨name, declared.span⟩

theorem lastLocal?_append (name : String) (ts us : List Tree) :
    lastLocal? name (ts ++ us) = (lastLocal? name us).or (lastLocal? name ts) := by
  simp only [lastLocal?, List.filter_append, List.filterMap_append, List.getLast?_append]
  exact Option.map_or

theorem local?_eq (name : String) (offset : Nat) (hscope : t.kind.isScope = true) :
    Scope.local? name offset t = lastLocal? name (t.children.filter fun c => c.span.stop ≤ offset) := by
  unfold Scope.local? lastLocal? Tree.childrenOfKind
  rw [if_pos hscope]
  simp only [List.filter_filter, Bool.and_comm]

theorem lookup_declared (name : String) (hscope : parent.isScope = true) (t : Tree) :
    (declared parent t).lookup name = lastLocal? name [t] := by
  unfold declared lastLocal?
  rw [hscope]
  rcases t with ⟨atom, span⟩ | ⟨kind, span, children⟩
  · cases atom <;> simp [Tree.kind, Atom.kind]
  · by_cases hk : kind = .localDeclaration
    · subst hk
      rcases children with _ | ⟨⟨atom, here⟩ | ⟨k, here, parts⟩, rest⟩
      · rfl
      · cases atom with
        | identifier declared =>
          by_cases hn : declared = name
          · simp [Tree.children, Tree.localIdentifier?, Tree.firstChild?, Tree.ofKind?, Atom.kind, Tree.name?, hn,
              Tree.span]
          · have hne : (name == declared) = false := by simpa using Ne.symm hn
            simp [Tree.children, Tree.localIdentifier?, Tree.firstChild?, Tree.ofKind?, Atom.kind, Tree.name?, hn,
              List.lookup_cons, hne]
        | _ => simp [Tree.children, Tree.localIdentifier?, Tree.firstChild?, Tree.ofKind?, Atom.kind]
      · by_cases hident : k = .identifier
        · simp [Tree.children, Tree.localIdentifier?, Tree.firstChild?, Tree.ofKind?, Tree.name?, hident]
        · simp [Tree.children, Tree.localIdentifier?, Tree.firstChild?, Tree.ofKind?, hident]
    · simp [hk]

/-- The environment behind some parts of a block: what the last of them declares comes first. -/
theorem lookup_behind (name : String) (hscope : parent.isScope = true) (ts : List Tree) (env : Environment) :
    (behind parent ts env).lookup name = (lastLocal? name ts).or (env.lookup name) := by
  induction ts using List.reverseRecOn with
  | nil => rfl
  | append_singleton ts t ih =>
    rw [behind_append_one, List.lookup_append, lookup_declared name hscope, ih, lastLocal?_append, Option.or_assoc]

theorem behind_of_not_scope (hscope : parent.isScope = false) (ts : List Tree) (env : Environment) :
    behind parent ts env = env := by
  induction ts using List.reverseRecOn with
  | nil => rfl
  | append_singleton ts t ih =>
    rw [behind_append_one, ih]
    simp [declared, hscope]

end

/-! ## Bindings around a node -/

/-- The step enters a part that a span lies in, of a tree whose parts nest and have its shape. -/
structure Encloses (crumb : Crumb) (span : Span) : Prop where
  nests : Nests crumb.parent.span.start crumb.parent.span.stop crumb.parent.children
  admits : crumb.parent.kind.admits (crumb.parent.children.map Tree.kind) = true
  part : ∃ c, crumb.parent.children[crumb.index]? = some c ∧ c.span.start ≤ span.start ∧ span.stop ≤ c.span.stop

theorem not_lambda_of_scope {kind : Kind} (h : kind.isScope = true) : kind.isLambda = false := by
  cases kind <;> simp_all [Kind.isScope, Kind.isLambda]

/-- What a node around an identifier binds is what the step into it adds to the environment. -/
theorem lookup_step {crumb : Crumb} {span : Span} (h : Encloses crumb span) (hspan : span.start < span.stop)
    (name : String) (env : Environment) :
    (behind crumb.parent.kind (crumb.parent.children.take crumb.index) (parameters crumb.parent ++ env)).lookup name =
      (Scope.binding? name span.start crumb.parent).or (env.lookup name) := by
  obtain ⟨c, hc, hlo, hhi⟩ := h.part
  unfold Scope.binding?
  rw [parameter?_eq]
  -- a node binds locals or parameters, never both
  by_cases hscope : crumb.parent.kind.isScope = true
  · have hnone : parameters crumb.parent = [] := by
      unfold parameters
      rw [not_lambda_of_scope hscope]
      rfl
    rw [lookup_behind name hscope, local?_eq name span.start hscope, hnone,
      h.nests.filter_stop_le hc hlo (Nat.lt_of_lt_of_le hspan hhi), List.nil_append, List.lookup_nil, Option.none_or]
  · have hlocal : Scope.local? name span.start crumb.parent = none := if_neg hscope
    rw [behind_of_not_scope (by simpa using hscope), List.lookup_append, hlocal, Option.or_none]

/-- Looking outwards finds what the environment holds. -/
theorem lookup_eq {n : Node} (henc : ∀ crumb ∈ n.above, Encloses crumb n.span) (hspan : n.span.start < n.span.stop) :
    Scope.lookup n = (envAt n.above).lookup n.name := by
  unfold Scope.lookup
  dsimp only
  generalize n.above = above at henc
  induction above with
  | nil => rfl
  | cons crumb above ih =>
    rw [List.findSome?_cons, envAt, lookup_step (henc crumb (by simp)) hspan, ← ih fun c hc => henc c (by simp [hc])]
    cases Scope.binding? n.name n.span.start crumb.parent <;> rfl

/-! ## Roles -/

/-- The role of a node says how many arguments it is called with. -/
theorem argumentCount?_eq {n : Node}
    (hshape : ∀ crumb ∈ n.above, crumb.parent.kind.admits (crumb.parent.children.map Tree.kind) = true) :
    n.argumentCount? = (roleAt n.above).arguments? := by
  unfold Node.argumentCount? Node.parent? Node.isFirstChild
  rcases hab : n.above with _ | ⟨crumb, above⟩
  · rfl
  · by_cases hk : crumb.parent.kind = .invocation
    · obtain ⟨callee, arguments, hparts, -, hargs⟩ := Tree.invocation_parts (hshape crumb (by rw [hab]; simp)) hk
      have hlist : crumb.parent.argumentList? = some arguments := by
        simp [Tree.argumentList?, Tree.lastChild?, hparts, Tree.ofKind?, hargs]
      by_cases hi : crumb.index = 0
      · simp [Node.kind, hk, hi, hlist, roleAt, Role.part, hparts, Role.arguments?]
      · simp only [Node.kind, hk, roleAt, Role.part, Role.arguments?]
        simp [hi]
    · have hnone : (roleAt (crumb :: above)).arguments? = none := by
        unfold roleAt Role.part
        split <;> simp_all [Role.arguments?]
      simp [Node.kind, hk, hnone]

section

variable {n : Node} {crumb : Crumb} {above : List Crumb}

theorem part_of_isDeclaring (hab : n.above = crumb :: above) (h : n.isDeclaring = true) (role : Role) :
    role.part crumb.parent crumb.index = .declaring := by
  unfold Node.isDeclaring Node.parent? Node.isFirstChild at h
  rw [hab] at h
  simp only [Node.kind] at h
  unfold Role.part
  cases hk : crumb.parent.kind <;> simp_all

theorem part_of_isMemberName (hab : n.above = crumb :: above) (h : Encloses crumb n.span) (hm : n.isMemberName = true)
    (role : Role) : role.part crumb.parent crumb.index = .member role.arguments? := by
  unfold Node.isMemberName Node.parent? Node.isLastChild at hm
  rw [hab] at hm
  simp only [Node.kind, Bool.and_eq_true, beq_iff_eq] at hm
  obtain ⟨receiver, name, hparts⟩ := Tree.memberAccess_parts h.admits hm.1
  have hindex : crumb.index = 1 := by
    have hlast := hm.2
    rw [hparts] at hlast
    simpa using hlast
  simp [Role.part, hm.1, hindex]

theorem part_of_reference (hab : n.above = crumb :: above) (h : Encloses crumb n.span) (hd : ¬ n.isDeclaring = true)
    (hm : ¬ n.isMemberName = true) (role : Role) :
    ∃ arguments, role.part crumb.parent crumb.index = .value arguments := by
  unfold Node.isDeclaring Node.parent? Node.isFirstChild at hd
  unfold Node.isMemberName Node.parent? Node.isLastChild at hm
  rw [hab] at hd hm
  simp only [Node.kind, Bool.and_eq_true, beq_iff_eq, not_and] at hd hm
  unfold Role.part
  split
  · exact ⟨_, rfl⟩
  · rename_i hk hindex
    -- the second part of a member access is its name
    obtain ⟨receiver, name, hparts⟩ := Tree.memberAccess_parts h.admits hk
    exact absurd (by rw [hindex, hparts]; rfl) (hm hk)
  all_goals simp_all

end

/-! ## Methods -/

theorem methodTable_lookup_eq (table : MethodTable) (name : String) (arguments : Option Nat) :
    table.lookup name arguments = choose table.methods name arguments := by
  unfold MethodTable.lookup choose MethodTable.overloads
  dsimp only
  rw [List.head?_filter]
  cases arguments with
  | none =>
    have hnone : table.methods.find? (fun m => m.name == name && some m.parameters.length == none) = none :=
      List.find?_eq_none.2 fun m _ => by simp
    rw [hnone]
    rfl
  | some count =>
    rw [Option.bind_some, List.find?_filter]
    congr 2
    funext m
    rw [Option.some_beq_some, Bool.decide_and, Bool.decide_eq_true, Bool.decide_eq_true]

/-! ## Resolution -/

/-- Resolution by scopes is what the steps to a node say. -/
theorem resolution_eq (table : MethodTable) {n : Node} (hne : n.above ≠ [])
    (henc : ∀ crumb ∈ n.above, Encloses crumb n.span) (hspan : n.span.start < n.span.stop) :
    (table.resolution n).symbol? = symbolAt table.methods n := by
  obtain ⟨crumb, above, hab⟩ := List.exists_cons_of_ne_nil hne
  have henter := henc crumb (by rw [hab]; simp)
  have hcount := argumentCount?_eq fun crumb hc => (henc crumb hc).admits
  have hrole : roleAt n.above = (roleAt above).part crumb.parent crumb.index := by rw [hab, roleAt]
  unfold MethodTable.resolution symbolAt
  by_cases hd : n.isDeclaring = true
  · rw [if_pos hd, hrole, part_of_isDeclaring hab hd]
    rfl
  rw [if_neg hd]
  by_cases hm : n.isMemberName = true
  · -- a member is called where the access around it is
    have hparent : n.calleeNode = ⟨crumb.parent, above⟩ := by
      unfold Node.calleeNode Node.parent?
      rw [if_pos hm, hab]
      rfl
    have hcallee : (⟨crumb.parent, above⟩ : Node).argumentCount? = (roleAt above).arguments? :=
      argumentCount?_eq fun c hc => (henc c (by rw [hab]; exact List.mem_cons_of_mem _ hc)).admits
    rw [if_pos hm, hrole, part_of_isMemberName hab henter hm, hparent, hcallee, methodTable_lookup_eq]
    rfl
  · have hself : n.calleeNode = n := if_neg hm
    obtain ⟨arguments, hvalue⟩ := part_of_reference hab henter hd hm (roleAt above)
    rw [if_neg hm, hself, lookup_eq henc hspan, hcount, hrole, hvalue, methodTable_lookup_eq]
    unfold Role.symbol?
    cases (envAt n.above).lookup n.name with
    | none => rfl
    | some symbol => rfl

/-! ## Documents that are read -/

section

variable {fileName text : String} {doc : Document} {n : Node}

/-- Every step to a node of a document enters the part that the node lies in. -/
theorem encloses_of_parse (h : parse fileName text = .ok doc) (hn : n ∈ doc.nodes) :
    (∀ crumb ∈ n.above, Encloses crumb n.span) ∧ (n.above ≠ [] → n.span.start < n.span.stop) := by
  refine Document.nodes_induction
    (P := fun n => (∀ crumb ∈ n.above, Encloses crumb n.span) ∧ (n.above ≠ [] → n.span.start < n.span.stop))
    ⟨by simp [Document.root, Node.ofRoot], fun hne => absurd rfl hne⟩ ?_ hn
  rintro n hn ⟨ih, -⟩ m hm
  obtain ⟨i, hpart, hab⟩ := Node.mem_children_iff.1 hm
  have hnests := nests_of_parse h hn
  obtain ⟨hlo, hlt, hhi, -⟩ := hnests.of_mem (Tree.mem_preorderAll (List.mem_of_getElem? hpart))
  refine ⟨fun crumb hc => ?_, fun _ => hlt⟩
  rw [hab] at hc
  rcases List.mem_cons.1 hc with rfl | hc
  · exact ⟨hnests, admits_of_parse h hn, m.tree, hpart, Nat.le_refl _, Nat.le_refl _⟩
  · obtain ⟨hnests', hadm, c, hget, h1, h2⟩ := ih crumb hc
    exact ⟨hnests', hadm, c, hget, Nat.le_trans h1 hlo, Nat.le_trans hhi h2⟩

theorem root_kind (h : parse fileName text = .ok doc) : doc.root.kind = .unit := by
  obtain ⟨tokens, items, -, -, rfl⟩ := derived_of_parse h
  rfl

/-- Methods are declared under the root only. -/
theorem methodTable_of_parse (h : parse fileName text = .ok doc) :
    MethodTable.ofTree doc.tree = ⟨methodsOf doc.tree⟩ := by
  have hbelow : ∀ c ∈ doc.root.children, c.descendants.filterMap (fun m => Method.ofTree? m.tree) = [] := by
    intro c hc
    have hcn := Document.mem_nodes_of_children (Document.mem_nodes_iff.2 (.inl rfl)) hc
    rw [List.filterMap_eq_nil_iff]
    intro m hm
    obtain ⟨p, hp, hmem⟩ := Node.exists_parent hm
    -- the node around it is a part of something itself, so it is no unit
    have hpart : ∃ q ∈ doc.nodes, p ∈ q.children := by
      rcases hp with rfl | hp
      · exact ⟨doc.root, Document.mem_nodes_iff.2 (.inl rfl), hc⟩
      · obtain ⟨q, hq, hpq⟩ := Node.exists_parent hp
        rcases hq with rfl | hq
        · exact ⟨q, hcn, hpq⟩
        · exact ⟨q, Document.mem_nodes_of_descendants hcn hq, hpq⟩
    obtain ⟨q, hq, hpq⟩ := hpart
    have hparts : ∀ {a b : Node}, b ∈ a.children → b.kind ∈ a.tree.children.map Tree.kind := by
      intro a b hb
      rw [← Node.map_tree_children, List.map_map]
      exact List.mem_map_of_mem (f := Tree.kind ∘ Node.tree) hb
    unfold Method.ofTree?
    refine if_neg fun hmethod => ?_
    have hunit := (Kind.of_admits_top (admits_of_parse h (Document.mem_nodes_of_children hq hpq)) (hparts hmem)
      (.inr hmethod)).1
    cases ((Kind.of_admits_top (admits_of_parse h hq) (hparts hpq) (.inl hunit)).2).symm.trans hunit
  unfold MethodTable.ofTree methodsOf
  show MethodTable.mk (doc.root.descendants.filterMap fun m => Method.ofTree? m.tree) = _
  have htop : doc.tree.children = doc.root.children.map Node.tree := (Node.map_tree_children doc.root).symm
  rw [Node.descendants_eq, List.filterMap_flatMap, htop, List.filterMap_map]
  congr 1
  rw [List.filterMap_eq_flatMap_toList]
  refine List.flatMap_congr fun c hc => ?_
  rw [Node.withDescendants, List.filterMap_cons, hbelow c hc]
  unfold Function.comp
  cases Method.ofTree? c.tree <;> rfl

/-- What the model finds for the identifiers of a document, looking outwards from each, is what an
environment threaded through the document from the root gives them. -/
theorem resolve_eq_lexical {declFile declText : String} {decls : Document} (h : parse fileName text = .ok doc)
    (hdecls : parse declFile declText = .ok decls) :
    (doc.nodes.filter (·.kind = .identifier)).map (fun n => (n.tree, (Model.ofTree decls.tree).resolve n)) =
      resolve (methodsOf decls.tree) [] (.value none) doc.tree := by
  have htop := resolve_eq (methodsOf decls.tree) (n := doc.root) fun m hm hk => (identifier_of_parse h hm hk).1
  refine Eq.trans (List.map_congr_left fun n hn => ?_) htop.symm
  obtain ⟨hmem, hk⟩ := List.mem_filter.1 hn
  obtain ⟨henc, hspan⟩ := encloses_of_parse h hmem
  have hne : n.above ≠ [] := by
    rcases Document.mem_nodes_iff.1 hmem with rfl | hbelow
    · simp [root_kind h] at hk
    · exact Node.above_ne_nil hbelow
  show (n.tree, ((MethodTable.ofTree decls.tree).resolution n).symbol?) = _
  rw [methodTable_of_parse hdecls, resolution_eq _ hne henc (hspan hne)]

theorem resolve_eq_lexical_shadowing : ∃ doc,
    parse "m.cs" "T F(T x); var x = 1; x => x.F(x); \x7b var x = x; F(x); \x7d" = .ok doc ∧
    (doc.nodes.filter (·.kind = .identifier)).map (fun n => (n.tree, (Model.ofTree doc.tree).resolve n)) =
      resolve (methodsOf doc.tree) [] (.value none) doc.tree ∧
    (resolve (methodsOf doc.tree) [] (.value none) doc.tree).map (·.2.isSome) =
      [false, false, false, false, false, false, true, true, true, false, true, true, true] := by
  have hrun : (parse "m.cs" "T F(T x); var x = 1; x => x.F(x); \x7b var x = x; F(x); \x7d").toOption.map (fun doc =>
      (resolve (methodsOf doc.tree) [] (.value none) doc.tree).map (·.2.isSome)) =
      some [false, false, false, false, false, false, true, true, true, false, true, true, true] := by
    decide +kernel
  obtain ⟨doc, hdoc, hlist⟩ := Option.map_eq_some_iff.1 hrun
  have hread := parse_of_toOption hdoc
  exact ⟨doc, hread, resolve_eq_lexical hread hread, hlist⟩

end

end LetLint.Lexical
