/-
Sorted findings do not depend on the order in which the nodes are gone through. Findings can share a
place, as calls inside one another flag the same identifier, and the order of locations looks at the
file and the bytes only. But the rule reports at identifiers, whose names are spelled by their bytes, so
findings that share a place are equal, and a list of them has one sorted form.
-/
import LetLint.Proofs.Analysis.Invariance
import LetLint.Proofs.Order

namespace LetLint

/-! ## The orders -/

instance : Std.TransOrd Span :=
  inferInstanceAs (Std.TransCmp (compareLex (compareOn Span.start) (compareOn Span.stop)))

instance : Std.TransOrd Location :=
  inferInstanceAs (Std.TransCmp (compareLex (compareOn Location.file) (compareOn Location.span)))

theorem Span.eq_of_compare {a b : Span} (h : compare a b = .eq) : a = b := by
  obtain ⟨hstart, hstop⟩ := Ordering.then_eq_eq.1 h
  cases a
  cases b
  congr
  · exact Std.LawfulEqOrd.eq_of_compare hstart
  · exact Std.LawfulEqOrd.eq_of_compare hstop

theorem Location.span_eq_of_compare {a b : Location} (h : compare a b = .eq) : a.span = b.span :=
  Span.eq_of_compare (Ordering.then_eq_eq.1 h).2

namespace Analyzer

/-- The order of locations, as an order of findings. -/
def byLocation (a b : Diagnostic) : Bool := (compare a.location b.location).isLE

/-- Findings are compared by their location, then by their rule. -/
def ranking : Diagnostic → Diagnostic → Ordering :=
  compareLex (compareOn Diagnostic.location) (compareOn Diagnostic.ruleId)

instance : Std.TransCmp ranking :=
  inferInstanceAs (Std.TransCmp (compareLex (compareOn Diagnostic.location) (compareOn Diagnostic.ruleId)))

theorem byLocation_of_precedes {d e : Diagnostic} (h : precedes d e = true) : byLocation d e = true := by
  unfold byLocation
  rcases Ordering.isLE_then_iff_or.1 h with hlt | ⟨heq, -⟩
  · rw [hlt]
    rfl
  · rw [heq]
    rfl

end Analyzer

/-! ## Findings at one place -/

section

variable {fileName text : String} {doc : Document} {model : Model}

/-- What is found is reported at identifiers of the document. -/
theorem exists_report_of_analyze {d : Diagnostic} (h : d ∈ Analyzer.builtin.analyze doc model) :
    ∃ m ∈ doc.nodes, m.kind = .identifier ∧ d = LetSafety.report doc m := by
  obtain ⟨n, hn, call, hcall, m, hm, -, rfl⟩ := exists_candidate_of_analyze h
  obtain ⟨hbelow, hk⟩ := LetSafety.mem_descendants_of_candidate hcall hm
  exact ⟨m, Document.mem_nodes_of_descendants hn hbelow, hk, rfl⟩

/-- The bytes of an identifier decide its report: they are where it points, and they spell the name. -/
theorem report_eq_of_span (h : parse fileName text = .ok doc) {m m' : Node} (hm : m ∈ doc.nodes)
    (hm' : m' ∈ doc.nodes) (hk : m.kind = .identifier) (hk' : m'.kind = .identifier) (hspan : m.span = m'.span) :
    LetSafety.report doc m = LetSafety.report doc m' := by
  have hname : m.name = m'.name := by
    calc m.name = doc.source.slice m.span := (identifier_of_parse h hm hk).2.symm
      _ = doc.source.slice m'.span := by rw [hspan]
      _ = m'.name := (identifier_of_parse h hm' hk').2
  unfold LetSafety.report
  rw [hname, hspan]

/-- Findings at one place are equal in all that they say. -/
theorem eq_of_location (h : parse fileName text = .ok doc) {d e : Diagnostic}
    (hd : d ∈ Analyzer.builtin.analyze doc model) (he : e ∈ Analyzer.builtin.analyze doc model)
    (hlocation : compare d.location e.location = .eq) : d = e := by
  obtain ⟨m, hm, hk, rfl⟩ := exists_report_of_analyze hd
  obtain ⟨m', hm', hk', rfl⟩ := exists_report_of_analyze he
  exact report_eq_of_span h hm hm' hk hk' (Location.span_eq_of_compare hlocation)

/-! ## Schedules -/

/-- Whatever the order in which the nodes of a document are gone through, the findings are the same once
they are sorted. They are those of the analysis in the order of the text, as often as it finds them, and
their order is that of a stable sort by location alone; no other list of them is sorted so. -/
theorem analyzeSorted_of_perm (h : parse fileName text = .ok doc) (model : Model) {nodes : List Node}
    (hnodes : nodes.Perm doc.nodes) :
    Analyzer.arrange (Analyzer.builtin.checkNodes doc model nodes) = Analyzer.builtin.analyzeSorted doc model ∧
      (Analyzer.builtin.analyzeSorted doc model).Perm (Analyzer.builtin.analyze doc model) ∧
      Analyzer.builtin.analyzeSorted doc model =
        (Analyzer.builtin.analyze doc model).mergeSort Analyzer.byLocation ∧
      ∀ ds : List Diagnostic, ds.Perm (Analyzer.builtin.analyze doc model) →
        ds.Pairwise (fun d e => Analyzer.byLocation d e = true) → ds = Analyzer.builtin.analyzeSorted doc model := by
  have hequal : ∀ d ∈ Analyzer.builtin.analyze doc model, ∀ e ∈ Analyzer.builtin.analyze doc model,
      compareOn Diagnostic.location d e = .eq → d = e := fun d hd e he => eq_of_location h hd he
  have hsorted (ds : List Diagnostic) : (Analyzer.arrange ds).Pairwise fun d e => Analyzer.precedes d e = true :=
    pairwise_mergeSort Analyzer.ranking ds
  have hperm : (Analyzer.builtin.analyzeSorted doc model).Perm (Analyzer.builtin.analyze doc model) :=
    List.mergeSort_perm _ _
  have hstable : Analyzer.builtin.analyzeSorted doc model =
      (Analyzer.builtin.analyze doc model).mergeSort Analyzer.byLocation :=
    eq_mergeSort (compareOn Diagnostic.location) hequal hperm ((hsorted _).imp Analyzer.byLocation_of_precedes)
  refine ⟨?_, hperm, hstable, fun ds hds hordered => ?_⟩
  · have hcollected : (Analyzer.builtin.checkNodes doc model nodes).Perm (Analyzer.builtin.analyze doc model) :=
      hnodes.flatMap_right _
    refine eq_mergeSort Analyzer.ranking (fun d hd e he heq => ?_)
      ((List.mergeSort_perm _ _).trans hcollected) (hsorted _)
    exact hequal d hd e he (Ordering.then_eq_eq.1 heq).1
  · rw [hstable]
    exact eq_mergeSort (compareOn Diagnostic.location) hequal hds hordered

/-- Two calls, one inside the other, flag one identifier, and the nodes are gone through backwards. -/
theorem analyzeSorted_of_perm_nested :
    let text := "IServiceResponse<T> F(); a.Let(b.Let(F()), G(c.Let(F())));"
    ∃ (doc : Document) (d e : Diagnostic), parse "m.cs" text = .ok doc ∧ d ≠ e ∧
      Analyzer.builtin.analyze doc (.ofTree doc.tree) = [d, d, e] ∧
      Analyzer.builtin.checkNodes doc (.ofTree doc.tree) doc.nodes.reverse = [e, d, d] ∧
      Analyzer.arrange (Analyzer.builtin.checkNodes doc (.ofTree doc.tree) doc.nodes.reverse) = [d, d, e] := by
  intro text
  have hrun : ((parse "m.cs" text).toOption.any fun doc =>
      (Analyzer.builtin.analyze doc (.ofTree doc.tree)).head?.any fun d =>
        (Analyzer.builtin.analyze doc (.ofTree doc.tree)).getLast?.any fun e =>
          decide (Analyzer.builtin.analyze doc (.ofTree doc.tree) = [d, d, e] ∧ d ≠ e ∧
            Analyzer.byLocation d d = true ∧ Analyzer.byLocation d e = true ∧
            Analyzer.builtin.checkNodes doc (.ofTree doc.tree) doc.nodes.reverse = [e, d, d])) = true := by
    decide +kernel
  simp only [Option.any_eq_true, decide_eq_true_eq] at hrun
  obtain ⟨doc, hdoc, d, -, e, -, hfound, hne, hsame, hbefore, hback⟩ := hrun
  have hread := parse_of_toOption hdoc
  obtain ⟨hany, -, -, hone⟩ := analyzeSorted_of_perm hread (.ofTree doc.tree) (List.reverse_perm doc.nodes)
  refine ⟨doc, d, e, hread, hne, hfound, hback, hany.trans (hone _ (by rw [hfound]) ?_).symm⟩
  simp [hsame, hbefore]

end

end LetLint
