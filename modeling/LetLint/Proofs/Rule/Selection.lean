/-
Which identifier the rule picks. The rule goes through the identifiers below each call among the
arguments, call by call, so that a nested call is gone through several times and a list of
candidates is not in the order of the text. Still the first candidate that returns a response is
the one that starts first of all: parts of a node stand one behind the other, and what is below a
nested call is also below the call around it, which comes first.
-/
import LetLint.Proofs.Parse.Accepted
import LetLint.Proofs.Tree.Order
import LetLint.Rule.LetSafety
import Mathlib.Data.Option.Basic

namespace LetLint

/-- A piece occurs in some characters if they are the piece between others. -/
theorem Text.occursIn_iff {piece cs : List Char} : occursIn piece cs = true ↔ piece <:+: cs := by
  induction cs with
  | nil => simp [occursIn]
  | cons c cs ih => rw [occursIn, Bool.or_eq_true, ih, List.isPrefixOf_iff_prefix, List.infix_cons_iff]

/-! ## First and least -/

/-- Of the nodes of the list that pass a test, the first one starts before all others. -/
def FirstStarts (p : Node → Bool) (ns : List Node) : Prop :=
  ∀ m, ns.find? p = some m → ∀ m' ∈ ns, p m' = true → m' = m ∨ m.span.start < m'.span.start

namespace FirstStarts

variable {p : Node → Bool} {ns ms : List Node}

theorem nil : FirstStarts p [] := fun m h => by cases h

theorem singleton (n : Node) : FirstStarts p [n] := by
  intro m hm m' hm' _
  have h1 := List.mem_of_find?_eq_some hm
  rw [List.mem_singleton] at h1 hm'
  exact .inl (hm'.trans h1.symm)

/-- One list behind another, where all of it starts later. -/
theorem append (hn : FirstStarts p ns) (hm : FirstStarts p ms)
    (hlt : ∀ a ∈ ns, ∀ b ∈ ms, a.span.start < b.span.start) : FirstStarts p (ns ++ ms) := by
  intro m hfind m' hmem hp
  rw [List.find?_append] at hfind
  rcases hf : ns.find? p with _ | first
  · rw [hf, Option.none_or] at hfind
    have hnone := List.find?_eq_none.1 hf
    rcases List.mem_append.1 hmem with hmem | hmem
    · exact absurd hp (hnone m' hmem)
    · exact hm m hfind m' hmem hp
  · rw [hf, Option.some_or, Option.some.injEq] at hfind
    subst hfind
    rcases List.mem_append.1 hmem with hmem | hmem
    · exact hn first hf m' hmem hp
    · exact .inr (hlt first (List.mem_of_find?_eq_some hf) m' hmem)

/-- A list behind another that holds all of it already. -/
theorem append_of_subset (hn : FirstStarts p ns) (hsub : ms ⊆ ns) : FirstStarts p (ns ++ ms) := by
  intro m hfind m' hmem hp
  have hmem : m' ∈ ns := by
    rcases List.mem_append.1 hmem with hmem | hmem
    · exact hmem
    · exact hsub hmem
  rw [List.find?_append] at hfind
  rcases hf : ns.find? p with _ | first
  · exact absurd hp (List.find?_eq_none.1 hf m' hmem)
  · rw [hf, Option.some_or, Option.some.injEq] at hfind
    subst hfind
    exact hn first hf m' hmem hp

/-- Lists of nodes at or below nodes that stand one behind the other. -/
theorem flatMap {f : Node → List Node} : ∀ {lo hi : Nat} {cs : List Node}, Nests lo hi (cs.map Node.tree) →
    (∀ c ∈ cs, f c ⊆ c.withDescendants) → (∀ c ∈ cs, FirstStarts p (f c)) → FirstStarts p (cs.flatMap f)
  | _, _, [], _, _, _ => nil
  | lo, hi, c :: cs, h, hsub, hf => by
    have hrest : Nests c.span.stop hi (cs.map Node.tree) := by cases h; assumption
    have hone : Nests lo c.span.stop ([c].map Node.tree) := by
      cases h with
      | cons hlo ht hc _ => exact .cons hlo ht hc (.nil (Nat.le_refl _))
    rw [List.flatMap_cons]
    refine (hf c (by simp)).append (flatMap hrest (fun d hd => hsub d (by simp [hd]))
      fun d hd => hf d (by simp [hd])) ?_
    -- all at or below `c` ends before anything at or below a later node starts
    intro a ha b hb
    obtain ⟨d, hd, hbd⟩ := List.mem_flatMap.1 hb
    have h1 := Node.bounds_of_mem hone (List.mem_singleton_self c) (hsub c (by simp) ha)
    have h2 := Node.bounds_of_mem hrest hd (hsub d (by simp [hd]) hbd)
    omega

end FirstStarts

namespace LetSafety

variable {p : Node → Bool} {n m : Node}

/-! ## The scan of the candidates -/

/-- The parts of the node and of all nodes below it nest, and identifiers have no parts. -/
def Orderly (n : Node) : Prop :=
  ∀ m ∈ n.withDescendants, Nests m.span.start m.span.stop m.tree.children ∧
    (m.kind = .identifier → m.tree.children = [])

theorem Orderly.nests (h : Orderly n) : Nests n.span.start n.span.stop (n.children.map Node.tree) := by
  rw [Node.map_tree_children]
  exact (h n (by simp [Node.withDescendants])).1

theorem Orderly.child {c : Node} (h : Orderly n) (hc : c ∈ n.children) : Orderly c := fun m hm =>
  h m (List.mem_cons_of_mem _ (Node.withDescendants_subset (Node.mem_descendants_of_mem_children hc) hm))

theorem descendantsOfKind_subset (kind : Kind) (n : Node) : n.descendantsOfKind kind ⊆ n.descendants :=
  List.filter_sublist.subset

/-- The identifiers below the calls below a node, call by call. -/
def scan (n : Node) : List Node := (n.descendantsOfKind .invocation).flatMap (·.descendantsOfKind .identifier)

theorem mem_scan : m ∈ scan n ↔
    ∃ call ∈ n.descendants, call.kind = .invocation ∧ m ∈ call.descendants ∧ m.kind = .identifier := by
  simp only [scan, Node.descendantsOfKind, List.mem_flatMap, List.mem_filter, decide_eq_true_eq, and_assoc]

theorem scan_subset (n : Node) : scan n ⊆ n.descendantsOfKind .identifier := by
  intro m hm
  obtain ⟨call, hcall, -, hmem, hk⟩ := mem_scan.1 hm
  exact List.mem_filter.2 ⟨Node.descendants_trans hcall hmem, by simpa using hk⟩

/-- The scan goes part by part; a part that is a call comes before the calls below it. -/
theorem scan_eq (n : Node) : scan n = n.children.flatMap fun c =>
    (if c.kind = .invocation then c.descendantsOfKind .identifier else []) ++ scan c := by
  unfold scan
  conv_lhs => rw [Node.descendantsOfKind, Node.descendants_eq, List.filter_flatMap, List.flatMap_assoc]
  refine List.flatMap_congr fun c _ => ?_
  by_cases hk : c.kind = .invocation
  · simp [Node.withDescendants, hk, Node.descendantsOfKind]
  · simp [Node.withDescendants, hk, Node.descendantsOfKind]

/-- The identifiers below a node, and of them the first that passes a test. -/
theorem firstStarts_identifiers (h : Orderly n) : FirstStarts p (n.descendantsOfKind .identifier) := by
  induction n using Node.induction with
  | step n ih =>
    rw [Node.descendantsOfKind, Node.descendants_eq, List.filter_flatMap]
    refine .flatMap h.nests (fun c _ => List.filter_sublist.subset) fun c hc => ?_
    have hoc := h.child hc
    by_cases hk : c.kind = .identifier
    · -- an identifier is a leaf, so it is alone here
      have hnil : c.children = [] := by
        have hch := (hoc c (by simp [Node.withDescendants])).2 hk
        rw [← Node.map_tree_children] at hch
        exact List.map_eq_nil_iff.1 hch
      have hone : c.withDescendants.filter (·.kind = .identifier) = [c] := by
        simp [Node.withDescendants, Node.descendants_eq, hnil, hk]
      rw [hone]
      exact .singleton c
    · have hbelow : c.withDescendants.filter (·.kind = .identifier) = c.descendantsOfKind .identifier := by
        simp [Node.withDescendants, Node.descendantsOfKind, hk]
      rw [hbelow]
      exact ih c hc hoc

/-- The first identifier of the scan that passes a test starts before all others that do. -/
theorem firstStarts_scan (h : Orderly n) : FirstStarts p (scan n) := by
  induction n using Node.induction with
  | step n ih =>
    rw [scan_eq]
    refine .flatMap h.nests ?_ fun c hc => ?_
    · intro c _ m hm
      refine List.mem_cons_of_mem _ (descendantsOfKind_subset .identifier c ?_)
      rcases List.mem_append.1 hm with hm | hm
      · split at hm
        · exact hm
        · cases hm
      · exact scan_subset c hm
    · have hoc := h.child hc
      by_cases hk : c.kind = .invocation
      · -- the scan below a call only repeats identifiers that the call itself gave
        rw [if_pos hk]
        exact (firstStarts_identifiers hoc).append_of_subset (scan_subset c)
      · rw [if_neg hk, List.nil_append]
        exact ih c hc hoc

/-! ## What the rule is asked to find -/

/-- The node calls a member whose text contains `Let`. -/
def IsLetCall (doc : Document) (n : Node) : Prop :=
  n.kind = .invocation ∧ ∃ access, n.children.head? = some access ∧ access.kind = .memberAccess ∧
    ∃ name, access.children.getLast? = some name ∧ name.kind = .identifier ∧
      "Let".toList <:+: (doc.textOf name.tree).toList

/-- The identifier stands for a method whose return type mentions `IServiceResponse`. -/
def Responds (model : Model) (m : Node) : Prop :=
  ∃ method, model.resolve m = some (.method method) ∧
    "IServiceResponse".toList <:+: method.returnType.text.toList

/-- The identifier is below a call that is below the arguments of the node, and it responds. -/
def Offends (model : Model) (n m : Node) : Prop :=
  ∃ arguments ∈ n.children, arguments.kind = .argumentList ∧
    ∃ call, arguments.Below call ∧ call.kind = .invocation ∧
      call.Below m ∧ m.kind = .identifier ∧ Responds model m

theorem letCall?_eq_some_iff {call : LetCall} : letCall? n = some call ↔ n.kind = .invocation ∧
    ∃ access, n.firstChild? = some access ∧ access.kind = .memberAccess ∧
      access.lastChild? = some call.name ∧ call.name.kind = .identifier ∧
      Text.contains call.name.name letMarker = true ∧
      n.lastChild? = some call.arguments ∧ call.arguments.kind = .argumentList := by
  simp only [letCall?, Option.bind_eq_bind, Option.bind_eq_some_iff, Option.guard_eq_some', Option.pure_def,
    Option.some.injEq, exists_const]
  constructor
  · rintro ⟨hk, access, haccess, hak, name, hname, hnk, htext, arguments, hargs, hargk, rfl⟩
    exact ⟨hk, access, haccess, hak, hname, hnk, htext, hargs, hargk⟩
  · rintro ⟨hk, access, haccess, hak, hname, hnk, htext, hargs, hargk⟩
    exact ⟨hk, access, haccess, hak, call.name, hname, hnk, htext, call.arguments, hargs, hargk, rfl⟩

theorem returnsResponse_iff {model : Model} : returnsResponse model m = true ↔ Responds model m := by
  unfold returnsResponse Responds Text.contains
  rcases model.resolve m with _ | symbol
  · simp
  · cases symbol <;> simp [Symbol.method?, Text.occursIn_iff, responseMarker]

/-! ## Documents that are read -/

section

variable {fileName text : String} {doc : Document}

theorem orderly_of_parse (h : parse fileName text = .ok doc) (hn : n ∈ doc.nodes) : Orderly n := by
  intro m hm
  have hmem : m ∈ doc.nodes := by
    rcases List.mem_cons.1 hm with rfl | hm
    · exact hn
    · exact Document.mem_nodes_of_descendants hn hm
  refine ⟨nests_of_parse h hmem, fun hk => ?_⟩
  rw [(identifier_of_parse h hmem hk).1]
  rfl

/-- A call has a callee and an argument list, and nothing else. -/
theorem invocation_children (h : parse fileName text = .ok doc) (hn : n ∈ doc.nodes) (hk : n.kind = .invocation) :
    ∃ callee arguments, n.children = [callee, arguments] ∧ callee.kind.isCallee = true ∧
      arguments.kind = .argumentList := by
  obtain ⟨first, second, hparts, hcallee, hargs⟩ := Tree.invocation_parts (admits_of_parse h hn) hk
  rw [← Node.map_tree_children] at hparts
  match hc : n.children, hparts with
  | [callee, arguments], hparts =>
    obtain ⟨rfl, rfl⟩ : callee.tree = first ∧ arguments.tree = second := by simpa using hparts
    exact ⟨callee, arguments, rfl, hcallee, hargs⟩

/-- The name of the member that a node calls spells its text. -/
theorem textOf_member (h : parse fileName text = .ok doc) (hn : n ∈ doc.nodes) {access name : Node}
    (haccess : n.firstChild? = some access) (hname : access.lastChild? = some name) (hk : name.kind = .identifier) :
    doc.textOf name.tree = name.name := by
  have hmem := Document.mem_nodes_of_children hn (List.mem_of_head? haccess)
  exact (identifier_of_parse h (Document.mem_nodes_of_children hmem (List.mem_of_getLast? hname)) hk).2

theorem letCall?_eq_some {call : LetCall} (h : parse fileName text = .ok doc) (hn : n ∈ doc.nodes)
    (hcall : letCall? n = some call) :
    IsLetCall doc n ∧ n.lastChild? = some call.arguments ∧ call.arguments.kind = .argumentList := by
  obtain ⟨hk, access, haccess, hak, hname, hnk, htext, hargs, hargk⟩ := letCall?_eq_some_iff.1 hcall
  refine ⟨⟨hk, access, haccess, hak, call.name, hname, hnk, ?_⟩, hargs, hargk⟩
  rw [textOf_member h hn haccess hname hnk]
  exact Text.occursIn_iff.1 htext

theorem exists_letCall? (h : parse fileName text = .ok doc) (hn : n ∈ doc.nodes) (hl : IsLetCall doc n) :
    ∃ call, letCall? n = some call := by
  obtain ⟨hk, access, haccess, hak, name, hname, hnk, htext⟩ := hl
  obtain ⟨callee, arguments, hc, -, hargk⟩ := invocation_children h hn hk
  rw [textOf_member h hn haccess hname hnk] at htext
  have hlast : n.lastChild? = some arguments := by unfold Node.lastChild?; rw [hc]; rfl
  exact ⟨⟨name, arguments⟩, letCall?_eq_some_iff.2
    ⟨hk, access, haccess, hak, hname, hnk, Text.occursIn_iff.2 htext, hlast, hargk⟩⟩

/-- The candidates of a call that respond are the offending identifiers. -/
theorem mem_candidates_iff {model : Model} {call : LetCall} (h : parse fileName text = .ok doc) (hn : n ∈ doc.nodes)
    (hcall : letCall? n = some call) :
    m ∈ candidates call ∧ returnsResponse model m = true ↔ Offends model n m := by
  obtain ⟨⟨hk, -⟩, hlast, hargk⟩ := letCall?_eq_some h hn hcall
  have hmem : m ∈ candidates call ↔ _ := mem_scan
  rw [hmem, returnsResponse_iff]
  simp only [Node.mem_descendants_iff]
  constructor
  · rintro ⟨⟨nested, h1, h2, h3, h4⟩, hr⟩
    exact ⟨call.arguments, List.mem_of_getLast? hlast, hargk, nested, h1, h2, h3, h4, hr⟩
  · rintro ⟨arguments, hmem, hkind, nested, h1, h2, h3, h4, hr⟩
    -- the callee is no argument list, so there is only the one
    obtain ⟨callee, only, hc, hcallee, -⟩ := invocation_children h hn hk
    have honly : only = call.arguments := by
      unfold Node.lastChild? at hlast
      rw [hc] at hlast
      exact Option.some.inj hlast
    have hsame : arguments = call.arguments := by
      rw [hc] at hmem
      rcases List.mem_cons.1 hmem with rfl | hmem
      · rw [hkind] at hcallee
        cases hcallee
      · exact (List.mem_singleton.1 hmem).trans honly
    exact ⟨⟨nested, hsame ▸ h1, h2, h3, h4⟩, hr⟩

/-- The rule speaks at a call of a member with the marker exactly if some identifier below a call
below its arguments offends, and it points at the one of these that starts first. -/
theorem check_selects_first (h : parse fileName text = .ok doc) (model : Model) (hn : n ∈ doc.nodes) :
    ((check doc model n).isSome = true ↔ IsLetCall doc n ∧ ∃ m, Offends model n m) ∧
      ∀ d, check doc model n = some d → ∃ m, Offends model n m ∧
        (∀ m', Offends model n m' → m' = m ∨ m.span.start < m'.span.start) ∧
        d.location = doc.location m.span ∧ d.flaggedText = doc.textOf m.tree := by
  have hcheck : ∀ d, check doc model n = some d ↔
      ∃ call, letCall? n = some call ∧ ∃ m, (candidates call).find? (returnsResponse model) = some m ∧
        report doc m = d := by
    intro d
    simp only [check, firstUnsafe?, Option.bind_eq_bind, Option.bind_eq_some_iff, Option.pure_def, Option.some.injEq]
  refine ⟨⟨fun hs => ?_, ?_⟩, fun d hd => ?_⟩
  · obtain ⟨d, hd⟩ := Option.isSome_iff_exists.1 hs
    obtain ⟨call, hcall, m, hfind, -⟩ := (hcheck d).1 hd
    exact ⟨(letCall?_eq_some h hn hcall).1, m,
      (mem_candidates_iff h hn hcall).1 ⟨List.mem_of_find?_eq_some hfind, List.find?_some hfind⟩⟩
  · rintro ⟨hl, m, hm⟩
    obtain ⟨call, hcall⟩ := exists_letCall? h hn hl
    obtain ⟨hmem, hr⟩ := (mem_candidates_iff h hn hcall).2 hm
    rcases hf : (candidates call).find? (returnsResponse model) with _ | first
    · exact absurd hr (List.find?_eq_none.1 hf m hmem)
    · exact Option.isSome_iff_exists.2 ⟨report doc first, (hcheck _).2 ⟨call, hcall, first, hf, rfl⟩⟩
  · obtain ⟨call, hcall, m, hfind, rfl⟩ := (hcheck d).1 hd
    have hm := (mem_candidates_iff h hn hcall).1 ⟨List.mem_of_find?_eq_some hfind, List.find?_some hfind⟩
    have hargs : call.arguments ∈ doc.nodes :=
      Document.mem_nodes_of_children hn (List.mem_of_getLast? (letCall?_eq_some h hn hcall).2.1)
    refine ⟨m, hm, fun m' hm' => ?_, rfl, ?_⟩
    · obtain ⟨hmem', hr'⟩ := (mem_candidates_iff h hn hcall).2 hm'
      exact firstStarts_scan (orderly_of_parse h hargs) m hfind m' hmem' hr'
    · obtain ⟨nested, hnested, -, hmem, hk⟩ := mem_scan.1 (List.mem_of_find?_eq_some hfind)
      have hnode := Document.mem_nodes_of_descendants (Document.mem_nodes_of_descendants hargs hnested) hmem
      exact (identifier_of_parse h hnode hk).2.symm

/-- A model in which everything named `F` returns a response. -/
def respondingF : Model :=
  .byName fun name => if name = "F" then some (.method (.generic "IServiceResponse" [.named "T"])) else none

theorem check_selects_first_nested : ∃ doc n d, parse "m.cs" "x.Let(g(F(a)), F(b));" = .ok doc ∧ n ∈ doc.nodes ∧
    check doc respondingF n = some d ∧ IsLetCall doc n ∧ ∃ m, Offends respondingF n m ∧
      (∀ m', Offends respondingF n m' → m' = m ∨ m.span.start < m'.span.start) ∧ m.span = ⟨8, 9⟩ := by
  have hrun : ((parse "m.cs" "x.Let(g(F(a)), F(b));").toOption.bind fun doc => doc.nodes[2]?.bind fun n =>
      (check doc respondingF n).map (·.location.span)) = some ⟨8, 9⟩ := by decide +kernel
  simp only [Option.bind_eq_some_iff, Option.map_eq_some_iff] at hrun
  obtain ⟨doc, hdoc, n, hn, d, hd, hspan⟩ := hrun
  have hread := parse_of_toOption hdoc
  have hmem := List.mem_of_getElem? hn
  obtain ⟨hsome, hfirst⟩ := check_selects_first hread respondingF hmem
  obtain ⟨m, hm, hleast, hloc, -⟩ := hfirst d hd
  rw [hloc] at hspan
  exact ⟨doc, n, d, hread, hmem, hd, (hsome.1 (by rw [hd]; rfl)).1, m, hm, hleast, hspan⟩

end

end LetSafety

end LetLint
