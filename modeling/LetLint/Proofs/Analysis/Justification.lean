/-
Why a finding is justified by the text. What a finding flags is one identifier token: the tokens under the
call that the rule looks at are a receiver, a dot, a name with the marker and parentheses, and the flagged
token is among those between the parentheses. What the token stands for is a method that the text declares
at the top, whose return type has the other marker in one of its names. And the line and the column of a
finding, which are looked up in the table of lines, are the ones counted when the token was read.
-/
import LetLint.Proofs.Analysis.Invariance
import LetLint.Proofs.Source.Positions
import LetLint.Proofs.Symbol.TypeText

namespace LetLint

/-! ## Findings -/

/-- A call `.Name(…)` of a document among the lexemes of its text, where the name contains the marker. -/
structure LetRun (doc : Document) (ls : List Lexeme) where
  node : Node
  mem_nodes : node ∈ doc.nodes
  before : List Lexeme
  receiver : List Lexeme
  dot : Lexeme
  name : Lexeme
  opening : Lexeme
  arguments : List Lexeme
  closing : Lexeme
  after : List Lexeme
  eq_append : ls = before ++ (receiver ++ dot :: name :: opening :: (arguments ++ closing :: after))
  derives : Derives .call (receiver ++ dot :: name :: opening :: (arguments ++ [closing])) [node.tree]
  derives_receiver : ∃ t, Derives .call receiver [t]
  derives_arguments : ∃ ts, Derives (.list .argument) arguments ts
  dot_eq : dot.token = .punct .dot
  name_eq : ∃ word, name.token = .identifier word ∧ Text.contains word LetSafety.letMarker = true
  opening_eq : opening.token = .punct .leftParen
  closing_eq : closing.token = .punct .rightParen

/-- The token is the one that the diagnostic flags: it spells the flagged text, the diagnostic has its bytes
and starts at its line and column, and it stands between the parentheses of a call with the marker. -/
structure Flags (doc : Document) (tokens : Tokens) (d : Diagnostic) (l : Lexeme) : Prop where
  mem : l ∈ tokens.lexemes
  token_eq : l.token = .identifier d.flaggedText
  span_eq : d.location.span = ⟨l.start.offset, l.stop⟩
  slice_eq : doc.source.slice ⟨l.start.offset, l.stop⟩ = d.flaggedText
  start_eq : d.location.extent.start = ⟨l.start.line, l.start.column⟩
  inside : ∃ run : LetRun doc tokens.lexemes, l ∈ run.arguments

/-- The item declares a method of the name, and an identifier in its return type, at whatever depth, contains
the marker. -/
structure Returns (item : Tree) (name : String) : Prop where
  kind : item.kind = .method
  name_eq : item.methodIdentifier?.bind Tree.name? = some name
  marked : ∃ type word span, item.returnType? = some type ∧ .leaf (.identifier word) span ∈ type.preorder ∧
    Text.contains word LetSafety.responseMarker = true

section

variable {fileName text : String} {doc : Document} {tokens : Tokens}

/-- A call that the rule looks at is a call with the marker among the lexemes, and the trees under its
argument list are derived from the lexemes between its parentheses. -/
theorem exists_letRun (h : parse fileName text = .ok doc) (ht : tokenize text = .ok tokens) {n : Node}
    (hn : n ∈ doc.nodes) {call : LetSafety.LetCall} (hcall : LetSafety.letCall? n = some call) :
    ∃ run : LetRun doc tokens.lexemes, Derives (.list .argument) run.arguments call.arguments.tree.children := by
  obtain ⟨hk, access, haccess, hak, hname, -, hmarked, hlast, -⟩ := LetSafety.letCall?_eq_some_iff.1 hcall
  have hbelow : n ∈ doc.root.descendants := by
    rcases Document.mem_nodes_iff.1 hn with rfl | hbelow
    · cases (Lexical.root_kind h).symm.trans hk
    · exact hbelow
  obtain ⟨X, _, ⟨before, after, hlexemes⟩, hderives⟩ := exists_run_of_parse h ht hbelow
  obtain ⟨_, _, f, a, rfl, hparts, hcallee, harguments⟩ := hderives.exists_invocation hk
  -- the callee is the member access, the last part is the argument list
  have hf : access.tree = f := by
    have hfirst := n.map_tree_firstChild?
    rw [haccess, Tree.firstChild?, hparts] at hfirst
    exact Option.some.inj hfirst
  have ha : call.arguments.tree = a := by
    have hend := n.map_tree_lastChild?
    rw [hlast, Tree.lastChild?, hparts] at hend
    exact Option.some.inj hend
  obtain ⟨receiver, r, dot, name, word, rfl, haccessed, hreceiver, hdot, hword⟩ :=
    hcallee.exists_memberAccess (hf ▸ hak)
  have hmember : call.name.name = word := by
    have hend := access.map_tree_lastChild?
    rw [hname, hf, Tree.lastChild?, haccessed] at hend
    rw [Node.name, Option.some.inj hend]
    rfl
  rw [ha]
  cases harguments with
  | @arguments o c ls ts ho hls hc =>
    exact ⟨
      { node := n, mem_nodes := hn, before := before, receiver := receiver, dot := dot, name := name, opening := o,
        arguments := ls, closing := c, after := after
        eq_append := by rw [← hlexemes]; simp
        derives := by simpa using hderives.as_call (.inl hk)
        derives_receiver := ⟨r, hreceiver⟩
        derives_arguments := ⟨ts, hls⟩
        dot_eq := hdot
        name_eq := ⟨word, hword, hmember ▸ hmarked⟩
        opening_eq := ho
        closing_eq := hc }, hls⟩

/-- The candidates of a call stand between its parentheses. -/
theorem exists_lexeme_of_candidate (h : parse fileName text = .ok doc) (ht : tokenize text = .ok tokens) {n m : Node}
    (hn : n ∈ doc.nodes) {call : LetSafety.LetCall} (hcall : LetSafety.letCall? n = some call)
    (hm : m ∈ LetSafety.candidates call) :
    ∃ (run : LetRun doc tokens.lexemes) (l : Lexeme), l ∈ run.arguments ∧ l.token = .identifier m.name ∧
      m.span = cover [l] := by
  obtain ⟨run, harguments⟩ := exists_letRun h ht hn hcall
  obtain ⟨nested, hnested, -, hmem, hidentifier⟩ := LetSafety.mem_scan.1 hm
  have hbelow := List.mem_map_of_mem (f := Node.tree) (Node.descendants_trans hnested hmem)
  rw [Node.map_tree_descendants] at hbelow
  obtain ⟨Y, ms, hms, hd⟩ := harguments.parts m.tree hbelow
  obtain ⟨l, word, rfl, hl, hleaf⟩ := hd.exists_identifier hidentifier
  refine ⟨run, l, hms.subset (by simp), ?_, ?_⟩
  · rw [hl, Node.name, hleaf]
    rfl
  · rw [Node.span, hleaf]
    rfl

/-- A method that is found by its name is declared at the top of the document. -/
theorem exists_returns (h : parse fileName text = .ok doc) {m : Node} (hm : m ∈ doc.nodes) (hk : m.kind = .identifier)
    (hresponse : LetSafety.returnsResponse (.ofTree doc.tree) m = true) :
    ∃ item ∈ doc.tree.children, Returns item m.name := by
  obtain ⟨method, hresolve, hin⟩ := LetSafety.returnsResponse_iff.1 hresponse
  rw [Lexical.resolve_of_parse h hm hk] at hresolve
  obtain ⟨hmem, hname⟩ := Lexical.method_of_symbolAt hresolve
  obtain ⟨item, hitem, hmethod⟩ := List.mem_filterMap.1 hmem
  obtain ⟨hkind, name, type, hidentifier, htype, rfl⟩ := Method.ofTree?_eq_some_iff.1 hmethod
  obtain ⟨word, span, hleaf, hword⟩ := TypeRef.namesIn_of_contains (Text.occursIn_iff.2 hin)
  rw [Tree.preorderAll, Tree.preorderAll, List.append_nil] at hleaf
  exact ⟨item, hitem, hkind, hidentifier.trans (congrArg some hname), type, word, span, htype, hleaf,
    Text.occursIn_iff.2 hword⟩

/-! ## Soundness -/

/-- Whatever a text is analyzed to is justified by the text. What a finding flags is an identifier token,
with its bytes, its text and the line and column that were counted when it was read; the token stands between
the parentheses of a call of a member with the marker in its name; and the text declares at its top a method
of that name whose return type has the response marker in one of its names, at some depth. -/
theorem analyzeText_justified {ds : List Diagnostic} (h : analyzeText fileName text = .ok ds) :
    ∃ doc tokens, parse fileName text = .ok doc ∧ doc.source = .ofText text ∧ tokenize text = .ok tokens ∧
      ∀ d ∈ ds, (∃ l, Flags doc tokens d l) ∧ ∃ item ∈ doc.tree.children, Returns item d.flaggedText := by
  obtain ⟨doc, hparse, rfl⟩ := exists_parse_of_analyzeText h
  obtain ⟨tokens, htokens, -⟩ := parse_eq_ok_iff.1 hparse
  have hsource := (root_of_parse hparse).1
  refine ⟨doc, tokens, hparse, hsource, htokens, fun d hd => ?_⟩
  obtain ⟨n, hn, call, hcall, m, hm, hresponse, rfl⟩ := exists_candidate_of_analyze hd
  obtain ⟨hbelow, hk⟩ := LetSafety.mem_descendants_of_candidate hcall hm
  have hnode := Document.mem_nodes_of_descendants hn hbelow
  obtain ⟨run, l, hinside, htoken, hspan⟩ := exists_lexeme_of_candidate hparse htokens hn hcall hm
  have hmem : l ∈ tokens.lexemes := by
    rw [run.eq_append]
    simp [hinside]
  have hcover : m.span = l.span := hspan.trans (Lexeme.cover_eq_span ((laid_of_tokenize htokens).of_mem hmem).2)
  refine ⟨⟨l, hmem, htoken, hcover, ?_, ?_, run, hinside⟩, exists_returns hparse hnode hk hresponse⟩
  · rw [← Lexeme.span, ← hcover]
    exact (identifier_of_parse hparse hnode hk).2
  · show doc.source.position m.span.start = _
    rw [hcover, hsource]
    exact position_of_mem_tokenize htokens hmem

theorem analyzeText_justified_nested :
    let text := "Task<IServiceResponse<T>, U> F(V v);\n\tx.Let(é => g(F(é)));"
    ∃ ds d doc tokens l, analyzeText "m.cs" text = .ok ds ∧ d ∈ ds ∧ parse "m.cs" text = .ok doc ∧
      Flags doc tokens d l ∧ l.start.position = ⟨2, 15⟩ ∧ ∃ item ∈ doc.tree.children, Returns item "F" := by
  intro text
  have hrun : ((analyzeText "m.cs" text).toOption.any fun ds =>
      ds.head?.any fun d => decide (d.flaggedText = "F" ∧ d.location.extent.start = ⟨2, 15⟩)) = true := by
    decide +kernel
  simp only [Option.any_eq_true, decide_eq_true_eq] at hrun
  obtain ⟨ds, hds, d, hd, hflagged, hstart⟩ := hrun
  have hanalyzed := eq_ok_of_toOption hds
  have hmem := List.mem_of_head? hd
  obtain ⟨doc, tokens, hparse, -, -, hall⟩ := analyzeText_justified hanalyzed
  obtain ⟨⟨l, hl⟩, hitem⟩ := hall d hmem
  exact ⟨ds, d, doc, tokens, l, hanalyzed, hmem, hparse, hl, hl.start_eq.symm.trans hstart, hflagged ▸ hitem⟩

end

end LetLint
