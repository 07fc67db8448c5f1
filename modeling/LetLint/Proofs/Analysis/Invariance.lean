/-
Only the tokens of a text matter. Two texts with the same tokens differ in blanks, comments and the
spelling of literals, and so in all their offsets, lines and columns. Both trees are the one tree of
the counted tokens, moved, and nothing that is found in a tree depends on where it was moved to: the
arenas agree but for spans, identifiers stand for symbols that agree but for spans and are declared
by nodes of the same index, and the diagnostics point at the same tokens. If one text is faulty, then
both are, as often.
-/
import LetLint.Proofs.Model.Declaration
import LetLint.Proofs.Model.Relocation
import LetLint.Proofs.Parse.Arena
import LetLint.Proofs.Parse.Counted
import LetLint.Proofs.Rule.Relocation

namespace LetLint

open Lexical

/-! ## What two readings share -/

/-- What a node of an arena is but for its bytes: its kind, its parent and its parts. -/
def Cell.links (cell : Cell) : Kind × Option Nat × List Nat := (cell.kind, cell.parent, cell.children)

/-- The symbol without its bytes: what it is, its name and its types. -/
def Symbol.unplaced (symbol : Symbol) : Symbol := symbol.mapSpan fun _ => ⟨0, 0⟩

/-- The symbols agree but for their bytes, and the one node that declares the one symbol has the index
of the one node that declares the other. -/
structure SameSymbol (doc doc' : Document) (symbol symbol' : Symbol) : Prop where
  unplaced_eq : symbol.unplaced = symbol'.unplaced
  declared : ∃ index, (∀ i, doc.toArena.arena.Declares i symbol ↔ i = index) ∧
    ∀ i, doc'.toArena.arena.Declares i symbol' ↔ i = index

/-- The nodes have the same index and the same name and, if they are identifiers, stand for the same symbol
or for none, each for the model of its own document. -/
structure SameNode (doc doc' : Document) (n n' : Node) : Prop where
  index_eq : n.index = n'.index
  name_eq : n.name = n'.name
  resolve : n.kind = .identifier → Option.Rel (SameSymbol doc doc')
    ((Model.ofTree doc.tree).resolve n) ((Model.ofTree doc'.tree).resolve n')

/-- The arenas agree but for spans, and the nodes agree one by one. -/
structure SameReading (doc doc' : Document) : Prop where
  root_eq : doc.toArena.root = doc'.toArena.root
  links_eq : doc.toArena.arena.cells.map Cell.links = doc'.toArena.arena.cells.map Cell.links
  nodes : List.Forall₂ (SameNode doc doc') doc.nodes doc'.nodes

/-- The diagnostics flag the identifier token of the same index. -/
def SameToken (tokens tokens' : Tokens) (d d' : Diagnostic) : Prop :=
  ∃ (i : Nat) (l l' : Lexeme), tokens.lexemes[i]? = some l ∧ tokens'.lexemes[i]? = some l' ∧
    l.token = .identifier d.flaggedText ∧ l'.token = .identifier d'.flaggedText ∧
    d.location.span = l.span ∧ d'.location.span = l'.span

/-! ## Counted documents -/

namespace Counted

/-- The model of the counted tokens. -/
def model (words : List Token) : Model := ⟨symbolAt (methodsOf (tree words)), fun _ => []⟩

/-- The nodes that are flagged in the counted document. -/
def flagged (words : List Token) : List Node :=
  (document words).nodes.filterMap (LetSafety.flagged? (model words))

theorem mem_of_flagged {words : List Token} {m : Node} (h : m ∈ flagged words) :
    m ∈ (document words).nodes ∧ m.kind = .identifier := by
  obtain ⟨n, hn, hm⟩ := List.mem_filterMap.1 h
  obtain ⟨call, hcall, hfirst⟩ := Option.bind_eq_some_iff.1 hm
  obtain ⟨hbelow, hk⟩ := LetSafety.mem_descendants_of_candidate hcall (List.mem_of_find?_eq_some hfirst)
  exact ⟨Document.mem_nodes_of_descendants hn hbelow, hk⟩

end Counted

section

variable {fileName text : String} {doc : Document} {tokens : Tokens} {f : Span → Span} {words : List Token} {n : Node}

/-- The root of a moved document has the index that it has among the counted tokens. -/
theorem root_moved (hdoc : doc.tree = (Counted.tree words).mapSpan f) :
    doc.toArena.root = Tree.sizeAll (Counted.tree words).children := by
  show Tree.sizeAll doc.tree.children = _
  rw [hdoc, Tree.children_mapSpan, (Tree.keeps_mapSpan f).sizeAll_map]

/-- The cells of a moved document are linked as they are among the counted tokens. -/
theorem links_moved (hdoc : doc.tree = (Counted.tree words).mapSpan f) :
    doc.toArena.arena.cells.map Cell.links = (((Counted.tree words).cells 0 none).map Cell.links).toArray := by
  show (doc.tree.cells 0 none).toArray.map _ = _
  rw [List.map_toArray, hdoc, (Tree.keeps_mapSpan f).map_cells (Tree.span_mapSpan f), List.map_map]
  rfl

theorem nodes_moved (hdoc : doc.tree = (Counted.tree words).mapSpan f) :
    doc.nodes = (Counted.document words).nodes.map (Node.mapSpan f) := by
  have hroot : doc.root = (Counted.document words).root.mapSpan f := congrArg Node.ofRoot hdoc
  unfold Document.nodes
  rw [hroot, (Node.keeps_mapSpan f).map_withDescendants]

theorem mem_nodes_moved (hdoc : doc.tree = (Counted.tree words).mapSpan f) (hn : n ∈ (Counted.document words).nodes) :
    n.mapSpan f ∈ doc.nodes := by
  rw [nodes_moved hdoc]
  exact List.mem_map_of_mem hn

/-- The identifiers of a document stand for what they stand for among the counted tokens, moved. -/
theorem resolve_moved (h : parse fileName text = .ok doc) (hdoc : doc.tree = (Counted.tree words).mapSpan f)
    (hn : n ∈ (Counted.document words).nodes) (hk : n.kind = .identifier) :
    (Model.ofTree doc.tree).resolve (n.mapSpan f) = ((Counted.model words).resolve n).map (Symbol.mapSpan f) := by
  rw [resolve_of_parse h (mem_nodes_moved hdoc hn) (by rwa [Node.kind_mapSpan]), hdoc, methodsOf_mapSpan]
  exact symbolAt_mapSpan f (methodsOf (Counted.tree words)) n

theorem analyzeText_of_ok (h : parse fileName text = .ok doc) :
    analyzeText fileName text = .ok (Analyzer.builtin.analyze doc (.ofTree doc.tree)) := by
  unfold analyzeText
  rw [h]
  rfl

theorem analyzeText_of_error {faults : List Fault} (h : parse fileName text = .error faults) :
    analyzeText fileName text = .error faults := by
  unfold analyzeText
  rw [h]
  rfl

/-- What a text is analyzed to is found in the document that is read from it. -/
theorem exists_parse_of_analyzeText {ds : List Diagnostic} (h : analyzeText fileName text = .ok ds) :
    ∃ doc, parse fileName text = .ok doc ∧ ds = Analyzer.builtin.analyze doc (.ofTree doc.tree) := by
  rcases hparse : parse fileName text with faults | doc
  · cases (analyzeText_of_error hparse).symm.trans h
  · exact ⟨doc, rfl, Except.ok.inj (h.symm.trans (analyzeText_of_ok hparse))⟩

theorem analyze_moved (h : parse fileName text = .ok doc) (hdoc : doc.tree = (Counted.tree words).mapSpan f) :
    Analyzer.builtin.analyze doc (.ofTree doc.tree) =
      (Counted.flagged words).map fun m => LetSafety.report doc (m.mapSpan f) := by
  have hflagged : doc.nodes.filterMap (LetSafety.flagged? (.ofTree doc.tree)) =
      (Counted.flagged words).map (Node.mapSpan f) := by
    rw [nodes_moved hdoc, List.filterMap_map, Counted.flagged, List.map_filterMap]
    refine List.filterMap_congr fun n hn => ?_
    exact LetSafety.flagged?_mapSpan fun m hm hk => resolve_moved h hdoc (Document.mem_nodes_of_descendants hn hm) hk
  rw [Analyzer.analyze_builtin, hflagged, List.map_map]
  rfl

/-- What is flagged among the counted tokens is one of them, and the report in the text points there. -/
theorem report_of_flagged (ht : tokenize text = .ok tokens) (hnone : (Counted.items tokens.words).faults = [])
    (doc : Document) {m : Node} (hm : m ∈ Counted.flagged tokens.words) :
    ∃ i l, m.span = ⟨i, i + 1⟩ ∧ tokens.lexemes[i]? = some l ∧
      l.token = .identifier (LetSafety.report doc (m.mapSpan tokens.place)).flaggedText ∧
      (LetSafety.report doc (m.mapSpan tokens.place)).location.span = l.span := by
  obtain ⟨hmem, hk⟩ := Counted.mem_of_flagged hm
  obtain ⟨i, name, hword, htree⟩ := Counted.tree_eq_of_identifier hnone hmem hk
  rw [Tokens.words, List.getElem?_map] at hword
  obtain ⟨l, hl, htoken⟩ := Option.map_eq_some_iff.1 hword
  have hspan : m.span = ⟨i, i + 1⟩ := by
    rw [Node.span, htree]
    rfl
  have hname : m.name = name := by
    rw [Node.name, htree]
    rfl
  refine ⟨i, l, hspan, hl, ?_, ?_⟩
  · show l.token = .identifier (m.mapSpan tokens.place).name
    rw [Node.name_mapSpan, hname, htoken]
  · show (m.mapSpan tokens.place).span = l.span
    rw [Node.span_mapSpan, hspan, Tokens.place_one (laid_finish_of_tokenize ht) hl]

end

/-! ## Two texts -/

theorem Symbol.unplaced_mapSpan (f : Span → Span) (symbol : Symbol) :
    (symbol.mapSpan f).unplaced = symbol.unplaced := by
  cases symbol <;> simp [unplaced, mapSpan, Method.mapSpan, LocalVar.mapSpan, Parameter.mapSpan]

theorem Node.Declares.mapSpan {n : Node} {symbol : Symbol} (h : n.Declares symbol) (f : Span → Span) :
    (n.mapSpan f).Declares (symbol.mapSpan f) := by
  refine ⟨?_, ?_⟩
  · rw [Node.kind_mapSpan, h.1]
    cases symbol <;> rfl
  · rw [Node.span_mapSpan, h.2]
    cases symbol <;> rfl

section

variable {fileName fileName' text text' : String} {doc doc' : Document} {tokens tokens' : Tokens} {f g : Span → Span}
variable {words : List Token}

/-- A symbol of the counted tokens, moved to the one document and to the other, is declared there by what its
own declaring node is moved to. -/
theorem sameSymbol_of_moved (h : parse fileName text = .ok doc) (h' : parse fileName' text' = .ok doc')
    (hdoc : doc.tree = (Counted.tree words).mapSpan f) (hdoc' : doc'.tree = (Counted.tree words).mapSpan g)
    {symbol : Symbol} (hs : DeclaredIn (Counted.document words) symbol) :
    SameSymbol doc doc' (symbol.mapSpan f) (symbol.mapSpan g) := by
  obtain ⟨d, hd, hdeclares⟩ := hs
  refine ⟨by rw [Symbol.unplaced_mapSpan, Symbol.unplaced_mapSpan], d.index, fun i => ?_, fun i => ?_⟩
  · rw [declares_iff h (mem_nodes_moved hdoc hd) (hdeclares.mapSpan f), Node.index_mapSpan]
  · rw [declares_iff h' (mem_nodes_moved hdoc' hd) (hdeclares.mapSpan g), Node.index_mapSpan]

/-- Documents that are moved from the same counted one are read the same. -/
theorem sameReading_of_moved (h : parse fileName text = .ok doc) (h' : parse fileName' text' = .ok doc')
    (hdoc : doc.tree = (Counted.tree words).mapSpan f) (hdoc' : doc'.tree = (Counted.tree words).mapSpan g) :
    SameReading doc doc' := by
  refine ⟨(root_moved hdoc).trans (root_moved hdoc').symm, (links_moved hdoc).trans (links_moved hdoc').symm, ?_⟩
  rw [nodes_moved hdoc, nodes_moved hdoc', List.forall₂_map_left_iff, List.forall₂_map_right_iff, List.forall₂_same]
  intro n hn
  refine ⟨by rw [Node.index_mapSpan, Node.index_mapSpan], by rw [Node.name_mapSpan, Node.name_mapSpan], fun hk => ?_⟩
  rw [Node.kind_mapSpan] at hk
  rw [resolve_moved h hdoc hn hk, resolve_moved h' hdoc' hn hk]
  rcases hsymbol : (Counted.model words).resolve n with _ | symbol
  · exact .none
  · exact .some (sameSymbol_of_moved h h' hdoc hdoc' (declaredIn_of_symbolAt hn hsymbol))

/-- What is flagged among the counted tokens of two texts at the same place is reported at the same token. -/
theorem sameToken_of_flagged (ht : tokenize text = .ok tokens) (ht' : tokenize text' = .ok tokens')
    (hnone : (Counted.items tokens.words).faults = []) (hnone' : (Counted.items tokens'.words).faults = [])
    (doc doc' : Document) {m m' : Node} (hm : m ∈ Counted.flagged tokens.words)
    (hm' : m' ∈ Counted.flagged tokens'.words) (hsame : m'.span = m.span) :
    SameToken tokens tokens' (LetSafety.report doc (m.mapSpan tokens.place))
      (LetSafety.report doc' (m'.mapSpan tokens'.place)) := by
  obtain ⟨i, l, hspan, hl, htoken, hplace⟩ := report_of_flagged ht hnone doc hm
  obtain ⟨i', l', hspan', hl', htoken', hplace'⟩ := report_of_flagged ht' hnone' doc' hm'
  -- both indices are the one that the place counts
  cases hspan.symm.trans (hsame.symm.trans hspan')
  exact ⟨i, l, l', hl, hl', htoken, htoken', hplace, hplace'⟩

/-- Only the tokens of a text matter, wherever these stand and under whatever name the text is read.
Two texts with the same tokens are both read or both faulty, as often. If they are read, their trees
are read into arenas that agree but for spans, their identifiers stand for the same symbols, and the
analysis of both finds as much and flags, one by one, the same tokens. -/
theorem analysis_of_words (ht : tokenize text = .ok tokens) (ht' : tokenize text' = .ok tokens')
    (hwords : tokens.words = tokens'.words) (fileName fileName' : String) :
    match parse fileName text, parse fileName' text' with
    | .ok doc, .ok doc' =>
      parseArena fileName text = .ok doc.toArena ∧ parseArena fileName' text' = .ok doc'.toArena ∧
        SameReading doc doc' ∧
        ∃ ds ds', analyzeText fileName text = .ok ds ∧ analyzeText fileName' text' = .ok ds' ∧
          List.Forall₂ (SameToken tokens tokens') ds ds'
    | .error faults, .error faults' =>
      faults.length = faults'.length ∧
        analyzeText fileName text = .error faults ∧ analyzeText fileName' text' = .error faults' ∧
        ∃ es es', parseArena fileName text = .error es ∧ parseArena fileName' text' = .error es' ∧
          es.length = faults.length ∧ es'.length = faults.length
    | _, _ => False := by
  have hfirst := parse_counted ht fileName
  have hsecond := parse_counted ht' fileName'
  rw [← hwords] at hsecond
  rcases hp : parse fileName text with faults | doc <;> rcases hp' : parse fileName' text' with faults' | doc' <;>
    rw [hp] at hfirst <;> rw [hp'] at hsecond
  · obtain ⟨es, hes, hlength⟩ := ArenaSession.length_of_readWithin_error hp
    obtain ⟨es', hes', hlength'⟩ := ArenaSession.length_of_readWithin_error hp'
    have hsame : faults.length = faults'.length := hfirst.2.trans hsecond.2.symm
    exact ⟨hsame, analyzeText_of_error hp, analyzeText_of_error hp', es, es', hes, hes', hlength,
      hlength'.trans hsame.symm⟩
  · exact hfirst.1 hsecond.1
  · exact hsecond.1 hfirst.1
  · obtain ⟨hnone, hdoc⟩ := hfirst
    obtain ⟨-, hdoc'⟩ := hsecond
    have htree := congrArg Document.tree hdoc
    have htree' := congrArg Document.tree hdoc'
    refine ⟨congrArg Prod.fst (ArenaSession.readWithin_of_ok hp), congrArg Prod.fst (ArenaSession.readWithin_of_ok hp'),
      sameReading_of_moved hp hp' htree htree', _, _, analyzeText_of_ok hp, analyzeText_of_ok hp', ?_⟩
    rw [analyze_moved hp htree, analyze_moved hp' htree', List.forall₂_map_left_iff, List.forall₂_map_right_iff,
      List.forall₂_same]
    intro m hm
    exact sameToken_of_flagged ht ht' hnone (hwords ▸ hnone) doc doc' hm (hwords ▸ hm) rfl

theorem analysis_of_words_commented :
    let text := "IServiceResponse<T> F(T a); x.Let(b => F(b));"
    let text' := "IServiceResponse < // é\n T>F(T a);\n x . Let( b=>F( b) ) ;"
    ∃ tokens tokens' doc doc' ds ds', tokenize text = .ok tokens ∧ tokenize text' = .ok tokens' ∧
      tokens.words = tokens'.words ∧ tokens ≠ tokens' ∧ parse "m.cs" text = .ok doc ∧ parse "n.cs" text' = .ok doc' ∧
      SameReading doc doc' ∧ analyzeText "m.cs" text = .ok ds ∧ analyzeText "n.cs" text' = .ok ds' ∧ ds.length = 1 ∧
      List.Forall₂ (SameToken tokens tokens') ds ds' := by
  intro text text'
  have hrun : (match tokenize text, tokenize text', analyzeText "m.cs" text with
      | .ok tokens, .ok tokens', .ok ds => decide (tokens.words = tokens'.words ∧ tokens ≠ tokens' ∧ ds.length = 1)
      | _, _, _ => false) = true := by
    decide +kernel
  split at hrun
  · rename_i tokens tokens' ds ht ht' hds
    obtain ⟨hwords, hne, hlength⟩ := of_decide_eq_true hrun
    have hboth := analysis_of_words ht ht' hwords "m.cs" "n.cs"
    rcases hp : parse "m.cs" text with faults | doc
    · cases (analyzeText_of_error hp).symm.trans hds
    rcases hp' : parse "n.cs" text' with faults | doc' <;> rw [hp, hp'] at hboth
    · exact hboth.elim
    · obtain ⟨-, -, hsame, ds₁, ds', hds₁, hds', hflags⟩ := hboth
      cases hds.symm.trans hds₁
      exact ⟨tokens, tokens', doc, doc', ds, ds', ht, ht', hwords, hne, rfl, rfl, hsame, hds, hds', hlength, hflags⟩
  · cases hrun

end

end LetLint
