/-
The rule on changed nodes. What the rule flags at a node follows from kinds, the names of members and the
types of the methods that identifiers stand for. So where nodes are changed in other ways only, it flags
the same, changed; in particular, at a moved node it flags the same, moved.
-/
import LetLint.Analysis.Analyzer
import LetLint.Proofs.Rule.Selection
import LetLint.Proofs.Tree.Relocation
import Mathlib.Data.List.Find

namespace LetLint

/-- What a call of the symbol returns, if it is a method. -/
def Symbol.returnType? (symbol : Symbol) : Option TypeRef := symbol.method?.map Method.returnType

theorem Symbol.returnType?_mapSpan (f : Span → Span) (symbol : Symbol) :
    (symbol.mapSpan f).returnType? = symbol.returnType? := by
  cases symbol <;> rfl

namespace LetSafety

/-- The node that the rule flags at a node. -/
def flagged? (model : Model) (n : Node) : Option Node := (letCall? n).bind (firstUnsafe? model)

theorem check_eq (doc : Document) (model : Model) (n : Node) :
    check doc model n = (flagged? model n).map (report doc) := by
  unfold check flagged?
  rw [Option.map_bind]
  congr 1
  funext call
  exact (Option.map_eq_bind ..).symm

theorem flagged?_of_ne (model : Model) {n : Node} (h : n.kind ≠ .invocation) : flagged? model n = none := by
  unfold flagged? letCall?
  simp [h]

/-- A call with its nodes changed. -/
def LetCall.map (φ : Node → Node) (call : LetCall) : LetCall := ⟨φ call.name, φ call.arguments⟩

theorem mem_descendants_of_candidate {n : Node} {call : LetCall} {m : Node} (h : letCall? n = some call)
    (hm : m ∈ candidates call) : m ∈ n.descendants ∧ m.kind = .identifier := by
  obtain ⟨-, _, -, -, -, -, -, hlast, -⟩ := letCall?_eq_some_iff.1 h
  obtain ⟨nested, hnested, -, hmn, hk⟩ := mem_scan.1 hm
  have harguments := Node.mem_descendants_of_mem_children (List.mem_of_getLast? hlast)
  exact ⟨Node.descendants_trans harguments (Node.descendants_trans hnested hmn), hk⟩

/-! ## Changed nodes -/

section

variable {φ : Node → Node} {model model' : Model} {n : Node}

/-- A changed node is such a call if the node is one, where the names of members stay. -/
theorem letCall?_map (hφ : Node.Keeps φ)
    (hname : ∀ access ∈ n.children, access.kind = .memberAccess → ∀ m, access.lastChild? = some m →
      m.kind = .identifier → (φ m).name = m.name) :
    letCall? (φ n) = (letCall? n).map (LetCall.map φ) := by
  unfold letCall?
  simp only [hφ.kind_eq, hφ.firstChild?_eq, hφ.lastChild?_eq, Option.bind_eq_bind, Option.bind_map, Option.map_bind,
    Function.comp_def]
  congr 1
  funext _
  refine Option.bind_congr fun access haccess => ?_
  by_cases hak : access.kind = .memberAccess
  · congr 1
    funext _
    refine Option.bind_congr fun m hm => ?_
    by_cases hk : m.kind = .identifier
    · rw [hname access (List.mem_of_head? haccess) hak m hm hk]
      rfl
    · simp [hk]
  · simp [hak]

theorem candidates_map (hφ : Node.Keeps φ) (call : LetCall) :
    candidates (call.map φ) = (candidates call).map φ := by
  simp [candidates, LetCall.map, hφ.map_descendantsOfKind, List.flatMap_map, List.map_flatMap]

/-- At a changed node the rule flags what it flags at the node, changed, where the names of members stay
and the same identifiers below it return a response. -/
theorem flagged?_map (hφ : Node.Keeps φ)
    (hname : ∀ access ∈ n.children, access.kind = .memberAccess → ∀ m, access.lastChild? = some m →
      m.kind = .identifier → (φ m).name = m.name)
    (h : ∀ m ∈ n.descendants, m.kind = .identifier → returnsResponse model' (φ m) = returnsResponse model m) :
    flagged? model' (φ n) = (flagged? model n).map φ := by
  unfold flagged?
  rw [letCall?_map hφ hname]
  rcases hcall : letCall? n with _ | call
  · rfl
  · rw [Option.map_some, Option.bind_some, Option.bind_some, firstUnsafe?, candidates_map hφ, List.find?_map]
    congr 1
    refine List.find?_congr fun m hm => ?_
    obtain ⟨hbelow, hk⟩ := mem_descendants_of_candidate hcall hm
    exact h m hbelow hk

/-- Whether an identifier returns a response only depends on what a call of it returns. -/
theorem returnsResponse_congr {m m' : Node}
    (h : (model'.resolve m').bind Symbol.returnType? = (model.resolve m).bind Symbol.returnType?) :
    returnsResponse model' m' = returnsResponse model m := by
  have hreturns : ∀ (model : Model) (m : Node), returnsResponse model m =
      ((model.resolve m).bind Symbol.returnType?).any fun type => Text.contains type.text responseMarker := by
    intro model m
    have hbind : (model.resolve m).bind Symbol.returnType? =
        ((model.resolve m).bind Symbol.method?).map Method.returnType := Option.map_bind.symm
    unfold returnsResponse
    rw [hbind]
    rcases (model.resolve m).bind Symbol.method? with _ | method <;> rfl
  rw [hreturns, hreturns, h]

end

/-- At a moved node the rule flags what it flags at the node, moved, if the identifiers below it stand
for the same, moved. -/
theorem flagged?_mapSpan {f : Span → Span} {model model' : Model} {n : Node}
    (h : ∀ m ∈ n.descendants, m.kind = .identifier →
      model'.resolve (m.mapSpan f) = (model.resolve m).map (Symbol.mapSpan f)) :
    flagged? model' (n.mapSpan f) = (flagged? model n).map (Node.mapSpan f) := by
  refine flagged?_map (Node.keeps_mapSpan f) (fun _ _ _ m _ _ => Node.name_mapSpan f m) fun m hm hk => ?_
  refine returnsResponse_congr ?_
  rw [h m hm hk, Option.bind_map]
  congr 1
  funext symbol
  exact Symbol.returnType?_mapSpan f symbol

end LetSafety

/-- The built-in analysis reports what the rule flags at the nodes of the document. -/
theorem Analyzer.analyze_builtin (doc : Document) (model : Model) :
    builtin.analyze doc model = (doc.nodes.filterMap (LetSafety.flagged? model)).map (LetSafety.report doc) := by
  rw [List.map_filterMap, List.filterMap_eq_flatMap_toList]
  unfold analyze checkNodes
  refine List.flatMap_congr fun n _ => ?_
  unfold checkNode rulesFor
  by_cases hk : n.kind = .invocation
  · have hrules : builtin.registry.rules.filter (·.appliesTo n) = [LetSafety.rule] := by
      refine List.filter_cons_of_pos (p := fun rule : Rule => rule.appliesTo n) ?_
      unfold Rule.appliesTo
      rw [hk]
      rfl
    rw [hrules, ← LetSafety.check_eq, List.filterMap_cons, List.filterMap_nil]
    show _ = (LetSafety.rule.check doc model n).toList
    cases LetSafety.rule.check doc model n <;> rfl
  · have hrules : builtin.registry.rules.filter (·.appliesTo n) = [] := by
      refine List.filter_cons_of_neg (p := fun rule : Rule => rule.appliesTo n) ?_
      show ¬ (true && [Kind.invocation].contains n.kind) = true
      simp [hk]
    rw [hrules, LetSafety.flagged?_of_ne model hk]
    rfl

/-- Whatever the built-in analysis finds is reported at a candidate of a call, one that returns a response. -/
theorem exists_candidate_of_analyze {doc : Document} {model : Model} {d : Diagnostic}
    (h : d ∈ Analyzer.builtin.analyze doc model) :
    ∃ n ∈ doc.nodes, ∃ call, LetSafety.letCall? n = some call ∧ ∃ m ∈ LetSafety.candidates call,
      LetSafety.returnsResponse model m = true ∧ d = LetSafety.report doc m := by
  rw [Analyzer.analyze_builtin] at h
  obtain ⟨m, hm, rfl⟩ := List.mem_map.1 h
  obtain ⟨n, hn, hflagged⟩ := List.mem_filterMap.1 hm
  obtain ⟨call, hcall, hfirst⟩ := Option.bind_eq_some_iff.1 hflagged
  exact ⟨n, hn, call, hcall, m, List.mem_of_find?_eq_some hfirst, List.find?_some hfirst, rfl⟩

end LetLint
