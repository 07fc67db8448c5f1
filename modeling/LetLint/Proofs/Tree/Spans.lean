/-
The spans of a document's nodes. The root spans the whole text; every other node covers a run of
lexemes, from the start of the first to the end of the last, so that its ends are boundaries. The
parts of a node lie inside it and one behind the other, and in pre-order no node starts before the
one that comes before it. So every slice that is cut for a node exists.
-/
import LetLint.Proofs.Grammar.Parts
import LetLint.Proofs.Parse.Accepted
import LetLint.Proofs.Source.Slices
import LetLint.Proofs.Tree.Order

namespace LetLint

/-! ## Runs of lexemes -/

theorem exists_stop_eq_lastStop (l : Lexeme) (ls : List Lexeme) : ∃ m ∈ l :: ls, m.stop = lastStop l.stop ls := by
  induction ls generalizing l with
  | nil => exact ⟨l, List.mem_cons_self, rfl⟩
  | cons m ls ih =>
    obtain ⟨k, hk, hstop⟩ := ih m
    exact ⟨k, List.mem_cons_of_mem l hk, hstop⟩

/-- What some lexemes cover starts where one of them starts and ends where one of them ends. -/
theorem Laid.ends {lo hi : Nat} {ls : List Lexeme} (h : Laid lo hi ls) (hne : ls ≠ []) :
    (∃ l ∈ ls, l.start.offset = (LetLint.cover ls).start) ∧ ∃ l ∈ ls, l.stop = (LetLint.cover ls).stop := by
  cases h with
  | nil => exact absurd rfl hne
  | @cons _ _ l ls _ hl h =>
    have hle := h.le_lastStop.1
    obtain ⟨m, hm, hstop⟩ := exists_stop_eq_lastStop l ls
    refine ⟨⟨l, List.mem_cons_self, rfl⟩, m, hm, ?_⟩
    simp only [LetLint.cover]
    rw [hstop, Nat.max_eq_left (by omega)]

theorem Laid.of_run {lo hi : Nat} {ls ms : List Lexeme} (h : Laid lo hi ls) (hm : ms <:+: ls) :
    ∃ lo hi, Laid lo hi ms := by
  obtain ⟨before, after, rfl⟩ := hm
  obtain ⟨hi', h, -⟩ := Laid.append_iff.1 h
  obtain ⟨lo', -, h⟩ := Laid.append_iff.1 h
  exact ⟨lo', hi', h⟩

/-! ## Order -/

namespace Nests

variable {lo hi : Nat} {ts : List Tree}

theorem pairwise_siblings (h : Nests lo hi ts) : ts.Pairwise fun t u => t.span.stop ≤ u.span.start := by
  induction h with
  | nil => exact .nil
  | cons _ _ _ h _ ih => exact .cons (fun u hu => (h.of_mem (Tree.mem_preorderAll hu)).1) ih

/-- In pre-order the starts never go back. -/
theorem pairwise_preorderAll (h : Nests lo hi ts) :
    (Tree.preorderAll ts).Pairwise fun t u => t.span.start ≤ u.span.start := by
  induction h with
  | nil => simp [Tree.preorderAll]
  | @cons lo hi t ts _ ht hc h ihc ih =>
    rw [Tree.preorderAll, Tree.preorder_eq, List.cons_append, List.pairwise_cons, List.pairwise_append]
    refine ⟨fun u hu => ?_, ihc, ih, fun u hu v hv => ?_⟩
    · rcases List.mem_append.1 hu with hu | hu
      · exact (hc.of_mem hu).1
      · have := (h.of_mem hu).1
        omega
    · have hfirst := hc.of_mem hu
      have hlater := (h.of_mem hv).1
      omega

end Nests

/-! ## Documents -/

section

variable {fileName text : String} {doc : Document} {tokens : Tokens}

/-- The ends of a lexeme are boundaries of the text. -/
theorem boundaries_of_tokenize (h : tokenize text = .ok tokens) {l : Lexeme} (hl : l ∈ tokens.lexemes) :
    (Source.ofText text).isBoundary l.start.offset = true ∧ (Source.ofText text).isBoundary l.stop = true := by
  obtain ⟨before, chars, rest, hrest, hs⟩ := (Cursor.placed_of_tokenize _ h).2 l hl
  have htext : text.toList = before ++ (chars ++ rest) := hrest
  have hstart : l.start.offset = byteLength before := hs.start_eq.trans (Nat.zero_add _)
  have hstop : l.stop = byteLength (before ++ chars) := by
    rw [hs.stop_eq, hstart, byteLength_append]
  constructor
  · show isBoundaryOf _ text.toList = true
    rw [hstart, htext, isBoundaryOf_byteLength]
  · show isBoundaryOf _ text.toList = true
    rw [hstop, htext, ← List.append_assoc, isBoundaryOf_byteLength]

theorem Source.isBoundary_zero (source : Source) : source.isBoundary 0 = true :=
  isBoundaryOf_byteLength [] source.text.toList

theorem Source.isBoundary_size (source : Source) : source.isBoundary source.size = true := by
  have h := isBoundaryOf_byteLength source.text.toList []
  rwa [List.append_nil] at h

theorem root_of_parse (h : parse fileName text = .ok doc) :
    doc.source = .ofText text ∧ doc.root.span = ⟨0, doc.source.size⟩ := by
  obtain ⟨_, _, -, -, rfl⟩ := derived_of_parse h
  exact ⟨rfl, rfl⟩

/-- Every node but the root is derived from a run of the lexemes. -/
theorem exists_run_of_parse (h : parse fileName text = .ok doc) (ht : tokenize text = .ok tokens) {n : Node}
    (hn : n ∈ doc.root.descendants) : ∃ X ms, ms <:+: tokens.lexemes ∧ Derives X ms [n.tree] := by
  obtain ⟨tokens', items, ht', hl, rfl⟩ := derived_of_parse h
  cases ht.symm.trans ht'
  have hmem := List.mem_map_of_mem (f := Node.tree) hn
  rw [Node.map_tree_descendants] at hmem
  rw [hl]
  exact DerivedItem.parts items n.tree hmem

/-- Every node but the root starts where a lexeme starts and ends where a lexeme ends. -/
theorem ends_of_parse (h : parse fileName text = .ok doc) (ht : tokenize text = .ok tokens) {n : Node}
    (hn : n ∈ doc.root.descendants) : (∃ l ∈ tokens.lexemes, l.start.offset = n.span.start) ∧
      ∃ l ∈ tokens.lexemes, l.stop = n.span.stop := by
  obtain ⟨_, run, hrun, hderives⟩ := exists_run_of_parse h ht hn
  obtain ⟨_, _, hlaid⟩ := (laid_of_tokenize ht).of_run hrun
  obtain ⟨⟨l, hfirst, hstart⟩, m, hlast, hstop⟩ := hlaid.ends (hderives.ne_nil (by simp))
  have hsub := hrun.subset
  unfold Node.span
  rw [hderives.span_eq]
  exact ⟨⟨l, hsub hfirst, hstart⟩, m, hsub hlast, hstop⟩

theorem lt_of_parse (h : parse fileName text = .ok doc) {n : Node} (hn : n ∈ doc.root.descendants) :
    n.span.start < n.span.stop ∧ n.span.stop ≤ doc.source.size := by
  have hroot := nests_of_parse h (Document.mem_nodes_iff.2 (.inl rfl))
  rw [(root_of_parse h).2, ← Node.map_tree_children] at hroot
  obtain ⟨c, hc, hmem⟩ := Node.mem_descendants_iff_part.1 hn
  exact (Node.bounds_of_mem hroot hc (List.mem_cons.2 hmem)).2

theorem boundaries_of_parse (h : parse fileName text = .ok doc) {n : Node} (hn : n ∈ doc.nodes) :
    doc.source.isBoundary n.span.start = true ∧ doc.source.isBoundary n.span.stop = true := by
  obtain ⟨hsource, hroot⟩ := root_of_parse h
  rcases Document.mem_nodes_iff.1 hn with rfl | hn
  · rw [hroot]
    exact ⟨doc.source.isBoundary_zero, doc.source.isBoundary_size⟩
  · obtain ⟨tokens, -, ht, -⟩ := derived_of_parse h
    obtain ⟨⟨l, hl, hstart⟩, m, hm, hstop⟩ := ends_of_parse h ht hn
    rw [← hstart, ← hstop, hsource]
    exact ⟨(boundaries_of_tokenize ht hl).1, (boundaries_of_tokenize ht hm).2⟩

theorem le_of_parse (h : parse fileName text = .ok doc) {n : Node} (hn : n ∈ doc.nodes) :
    n.span.start ≤ n.span.stop := by
  rcases Document.mem_nodes_iff.1 hn with rfl | hn
  · rw [(root_of_parse h).2]
    exact Nat.zero_le _
  · exact Nat.le_of_lt (lt_of_parse h hn).1

theorem pairwise_of_parse (h : parse fileName text = .ok doc) :
    doc.nodes.Pairwise fun a b => a.span.start ≤ b.span.start := by
  have hroot := nests_of_parse h (Document.mem_nodes_iff.2 (.inl rfl))
  have htrees : (doc.nodes.map Node.tree).Pairwise fun t u => t.span.start ≤ u.span.start := by
    rw [Document.map_tree_nodes, Tree.preorder_eq]
    refine .cons (fun t ht => ?_) hroot.pairwise_preorderAll
    exact (hroot.of_mem ht).1
  rw [List.pairwise_map] at htrees
  exact htrees

/-- The spans of a document that is read. The root spans the text, and every other node is not empty
and has its ends at the ends of lexemes; all ends are boundaries of the text. Parts lie inside their
node and one behind the other, starts never go back in pre-order, and whatever is cut out of the text
for a node is there. -/
theorem spans_of_parse (h : parse fileName text = .ok doc) :
    ∃ tokens, tokenize text = .ok tokens ∧ doc.source = .ofText text ∧ doc.root.span = ⟨0, doc.source.size⟩ ∧
      (∀ n ∈ doc.root.descendants, n.span.start < n.span.stop ∧ n.span.stop ≤ doc.source.size ∧
        (∃ l ∈ tokens.lexemes, l.start.offset = n.span.start) ∧ ∃ l ∈ tokens.lexemes, l.stop = n.span.stop) ∧
      (∀ n ∈ doc.nodes, doc.source.isBoundary n.span.start = true ∧ doc.source.isBoundary n.span.stop = true) ∧
      (∀ n ∈ doc.nodes, ∀ c ∈ n.children, n.span.start ≤ c.span.start ∧ c.span.stop ≤ n.span.stop) ∧
      (∀ n ∈ doc.nodes, n.children.Pairwise fun a b => a.span.stop ≤ b.span.start) ∧
      (doc.nodes.Pairwise fun a b => a.span.start ≤ b.span.start) ∧
      ∀ n ∈ doc.nodes, doc.Slices n.tree := by
  obtain ⟨tokens, -, ht, -⟩ := derived_of_parse h
  obtain ⟨hsource, hroot⟩ := root_of_parse h
  refine ⟨tokens, ht, hsource, hroot, fun n hn => ?_, fun n hn => boundaries_of_parse h hn, fun n hn c hc => ?_,
    fun n hn => ?_, pairwise_of_parse h, fun n hn => ?_⟩
  · exact ⟨(lt_of_parse h hn).1, (lt_of_parse h hn).2, ends_of_parse h ht hn⟩
  · have hnests := nests_of_parse h hn
    rw [← Node.map_tree_children] at hnests
    obtain ⟨h1, -, h3⟩ := Node.bounds_of_mem hnests hc (List.mem_cons_self)
    exact ⟨h1, h3⟩
  · have hparts := (nests_of_parse h hn).pairwise_siblings
    rw [← Node.map_tree_children] at hparts
    exact List.pairwise_map.1 hparts
  · obtain ⟨hstart, hstop⟩ := boundaries_of_parse h hn
    exact Document.slices_of_boundaries (le_of_parse h hn) hstart hstop

end

theorem spans_of_parse_accents : ∃ doc tokens,
    parse "m.cs" "Λ<Δ> é(T ñ);\n  var ü = ñ.Let((T ä) => -é(ä)); // ☃" = .ok doc ∧
    tokenize "Λ<Δ> é(T ñ);\n  var ü = ñ.Let((T ä) => -é(ä)); // ☃" = .ok tokens ∧ doc.nodes.length = 33 ∧
      (∀ n ∈ doc.root.descendants, n.span.start < n.span.stop ∧ n.span.stop ≤ doc.source.size ∧
        (∃ l ∈ tokens.lexemes, l.start.offset = n.span.start) ∧ ∃ l ∈ tokens.lexemes, l.stop = n.span.stop) ∧
      (doc.nodes.Pairwise fun a b => a.span.start ≤ b.span.start) ∧
      ∀ n ∈ doc.nodes, doc.Slices n.tree := by
  have hread : (parse "m.cs" "Λ<Δ> é(T ñ);\n  var ü = ñ.Let((T ä) => -é(ä)); // ☃").toOption.map (·.nodes.length) =
      some 33 := by
    decide +kernel
  obtain ⟨doc, hdoc, hlength⟩ := Option.map_eq_some_iff.1 hread
  obtain ⟨tokens, ht, -, -, hbelow, -, -, -, horder, hslices⟩ := spans_of_parse (parse_of_toOption hdoc)
  exact ⟨doc, tokens, parse_of_toOption hdoc, ht, hlength, hbelow, horder, hslices⟩

end LetLint
