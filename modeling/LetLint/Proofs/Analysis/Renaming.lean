/-
Renaming a local or a parameter of a lambda in a text. The name that introduces it and every identifier
that stands for it are replaced by a name that no identifier of the text has. Then the text is read as it
was: the arena is the same but for spans, no other identifier changes its name, each one stands for what it
stood for, and the same tokens are flagged. The two texts have different offsets, so their trees are
compared by way of the counted ones, of which one is the other renamed.
-/
import LetLint.Proofs.Analysis.Invariance
import LetLint.Proofs.Model.Renaming
import LetLint.Proofs.Parse.Renaming

namespace LetLint

open Lexical

/-! ## What is kept -/

/-- The second symbol is the first one, renamed if it is the old one, but for its bytes, and the one node
that declares the one symbol has the index of the one node that declares the other. -/
structure RenamedSymbol (doc doc' : Document) (old : Symbol) (name : String) (symbol symbol' : Symbol) : Prop where
  unplaced_eq : symbol'.unplaced = (symbol.rename old name).unplaced
  declared : ∃ index, (∀ i, doc.toArena.arena.Declares i symbol ↔ i = index) ∧
    ∀ i, doc'.toArena.arena.Declares i symbol' ↔ i = index

/-- The nodes have the same index; the second one has the new name if the first one mentions the old
symbol, and its old name otherwise; and if they are identifiers, they stand for symbols that correspond, or
for none. -/
structure RenamedNode (doc doc' : Document) (old : Symbol) (name : String) (n n' : Node) : Prop where
  index_eq : n'.index = n.index
  name_eq : n'.name = if (Model.ofTree doc.tree).mentions old n then name else n.name
  resolve : n.kind = .identifier → Option.Rel (RenamedSymbol doc doc' old name)
    ((Model.ofTree doc.tree).resolve n) ((Model.ofTree doc'.tree).resolve n')

/-- The arenas agree but for spans, and the nodes agree one by one but for the new name. -/
structure RenamedReading (doc doc' : Document) (old : Symbol) (name : String) : Prop where
  root_eq : doc'.toArena.root = doc.toArena.root
  links_eq : doc'.toArena.arena.cells.map Cell.links = doc.toArena.arena.cells.map Cell.links
  nodes : List.Forall₂ (RenamedNode doc doc' old name) doc.nodes doc'.nodes

/-! ## The text renamed -/

namespace Document

/-- The identifiers that mention the symbol, in the order of the text. -/
def mentionsOf (doc : Document) (symbol : Symbol) : List Node :=
  doc.nodes.filter ((Model.ofTree doc.tree).mentions symbol)

/-- The text with a name in place of all that mentions the symbol. -/
def renamed (doc : Document) (symbol : Symbol) (name : String) : String :=
  doc.source.replace name ((doc.mentionsOf symbol).map Node.span)

/-- An identifier that mentions the symbol has these bytes. -/
def isMention (doc : Document) (symbol : Symbol) (span : Span) : Bool :=
  (doc.mentionsOf symbol).any (·.span = span)

/-- The name that an identifier gets. -/
def newName (doc : Document) (symbol : Symbol) (name : String) (span : Span) (old : String) : String :=
  if doc.isMention symbol span then name else old

end Document

section

variable {fileName text : String} {doc : Document} {tokens : Tokens} {n d : Node} {symbol : Symbol} {name : String}

theorem mentions_iff (h : parse fileName text = .ok doc) (hn : n ∈ doc.nodes) (hk : n.kind = .identifier) :
    (Model.ofTree doc.tree).mentions symbol n = true ↔ Mentions doc symbol n := by
  unfold Model.mentions Mentions
  rw [resolve_of_parse h hn hk]
  simp [hk]

theorem isMention_iff (h : parse fileName text = .ok doc) (hn : n ∈ doc.nodes) (hk : n.kind = .identifier) :
    doc.isMention symbol n.span = true ↔ Mentions doc symbol n := by
  unfold Document.isMention Document.mentionsOf
  simp only [List.any_eq_true, List.mem_filter, decide_eq_true_eq]
  constructor
  · rintro ⟨m, ⟨hm, hmentions⟩, hspan⟩
    have hmk : m.kind = .identifier := of_decide_eq_true (Bool.and_eq_true_iff.1 hmentions).1
    exact (mentions_iff h hn hk).1 (eq_of_span h hm hn hmk hk hspan ▸ hmentions)
  · intro hmentions
    exact ⟨n, ⟨hn, (mentions_iff h hn hk).2 hmentions⟩, rfl⟩

/-- All that mentions a local or a parameter gets the new name, and nothing else does. -/
theorem renames_newName (h : parse fileName text = .ok doc) (hs : d.introduces? = some symbol)
    (hfresh : ∀ n ∈ doc.nodes, n.kind = .identifier → n.name ≠ name) :
    Renames doc symbol name (doc.newName symbol name) where
  not_method := by
    rintro m rfl
    obtain ⟨_, _, -, ⟨-, -, heq⟩ | ⟨-, heq⟩⟩ := Node.introduces?_eq_some hs <;> cases heq
  fresh := hfresh
  mentioned n hn hk hmentions := if_pos ((isMention_iff h hn hk).2 hmentions)
  kept n hn hk hmentions := if_neg fun hmention => hmentions ((isMention_iff h hn hk).1 hmention)

/-- Identifiers are leaves, and no other leaf is one. -/
theorem map_span_leaves {ls : List Lexeme} (hls : ∀ l ∈ ls, l.start.offset < l.stop) (chosen : Span → Bool) :
    ((ls.filterMap Lexeme.leaf?).filter fun t => t.kind = .identifier && chosen t.span).map Tree.span =
      (ls.filter (·.isChosen chosen)).map Lexeme.span := by
  induction ls with
  | nil => rfl
  | cons l ls ih =>
    obtain ⟨hl, hrest⟩ := List.forall_mem_cons.1 hls
    have hcover : cover [l] = l.span := Lexeme.cover_eq_span hl
    by_cases hidentifier : l.token.isIdentifier = true
    · obtain ⟨name, hname⟩ := Token.isIdentifier_iff.1 hidentifier
      have hleaf : l.leaf? = some (.leaf (.identifier name) l.span) := by
        rw [Lexeme.leaf?, hname, hcover]
        rfl
      have htest : (decide ((Tree.leaf (.identifier name) l.span).kind = .identifier) &&
          chosen (Tree.leaf (.identifier name) l.span).span) = l.isChosen chosen := by
        rw [Lexeme.isChosen, hidentifier]
        rfl
      -- the leaf and the lexeme pass the same test
      rw [List.filterMap_cons_some hleaf, List.filter_cons, List.filter_cons, htest]
      split
      · exact congrArg (l.span :: ·) (ih hrest)
      · exact ih hrest
    · have hchosen : ¬ l.isChosen chosen = true := by simp [Lexeme.isChosen, hidentifier]
      rw [List.filter_cons_of_neg hchosen, ← ih hrest]
      rcases hleaf : l.leaf? with _ | t
      · rw [List.filterMap_cons_none hleaf]
      · have hk : t.kind ≠ .identifier := by
          intro hk
          obtain ⟨name, hname, -⟩ := Lexeme.identifier_of_leaf? hleaf hk
          exact hidentifier (Token.isIdentifier_iff.2 ⟨name, hname⟩)
        rw [List.filterMap_cons_some hleaf, List.filter_cons_of_neg (by simp [hk])]

/-- What mentions the symbol has the bytes of identifiers of the text. -/
theorem span_mentionsOf (h : parse fileName text = .ok doc) (ht : tokenize text = .ok tokens) :
    (doc.mentionsOf symbol).map Node.span =
      (tokens.lexemes.filter (·.isChosen (doc.isMention symbol))).map Lexeme.span := by
  obtain ⟨tokens', ht', hleaves⟩ := leaves_of_parse h
  cases ht.symm.trans ht'
  rw [← map_span_leaves fun l hl => ((laid_of_tokenize ht).of_mem hl).2, ← hleaves, List.filter_map, List.map_map,
    List.filter_filter]
  unfold Document.mentionsOf
  refine congrArg _ (List.filter_congr fun n hn => ?_)
  show _ = (n.kind = .identifier && doc.isMention symbol n.span && n.kind.isAtomic)
  by_cases hk : n.kind = .identifier
  · rw [Bool.eq_iff_iff, mentions_iff h hn hk, ← isMention_iff h hn hk]
    simp [hk, Kind.isAtomic]
  · simp [Model.mentions, hk]

end

/-! ## Counted documents -/

namespace Symbol

theorem returnType?_rename (symbol old : Symbol) (name : String) :
    (symbol.rename old name).returnType? = symbol.returnType? := by
  unfold rename
  split
  · cases symbol <;> rfl
  · rfl

end Symbol

theorem Node.declares_rename {n : Node} {g : Span → String → String} {symbol old : Symbol} {name : String} :
    (n.rename g).Declares (symbol.rename old name) ↔ n.Declares symbol := by
  unfold Declares
  rw [kind_rename, span_rename, Symbol.declaringKind_rename, Symbol.span_rename]

section

variable {fileName fileName' text text' : String} {doc doc' : Document} {n : Node} {symbol : Symbol} {name : String}
variable {words words' : List Token} {f f' : Span → Span} {g : Span → String → String}

theorem nodes_renamed (hcounted : Counted.tree words' = (Counted.tree words).rename g) :
    (Counted.document words').nodes = (Counted.document words).nodes.map (Node.rename g) := by
  have hroot : (Counted.document words').root = (Counted.document words).root.rename g :=
    congrArg Node.ofRoot hcounted
  unfold Document.nodes
  rw [hroot, (Node.keeps_rename g).map_withDescendants]

/-- The identifiers of the counted documents stand for the same, renamed, once both are moved to where the
first text has its tokens. -/
theorem symbolAt_renamed (hg : Renames doc symbol name g) (h : parse fileName text = .ok doc)
    (hdoc : doc.tree = (Counted.tree words).mapSpan f)
    (hcounted : Counted.tree words' = (Counted.tree words).rename fun span => g (f span))
    (hn : n ∈ (Counted.document words).nodes) (hk : n.kind = .identifier) :
    (symbolAt (methodsOf (Counted.tree words')) (n.rename fun span => g (f span))).map (Symbol.mapSpan f) =
      ((symbolAt (methodsOf (Counted.tree words)) n).map (Symbol.mapSpan f)).map (·.rename symbol name) := by
  have hmoved := symbolAt_rename hg h (mem_nodes_moved hdoc hn) (by rwa [Node.kind_mapSpan])
  rw [Node.rename_mapSpan, hdoc, Tree.rename_mapSpan, ← hcounted, methodsOf_mapSpan, methodsOf_mapSpan,
    symbolAt_mapSpan, symbolAt_mapSpan] at hmoved
  exact hmoved

/-- What the identifier of the second text stands for is declared where the one of the first text is. -/
theorem renamedSymbol_of_counted (h : parse fileName text = .ok doc) (h' : parse fileName' text' = .ok doc')
    (hdoc : doc.tree = (Counted.tree words).mapSpan f) (hdoc' : doc'.tree = (Counted.tree words').mapSpan f')
    (hcounted : Counted.tree words' = (Counted.tree words).rename fun span => g (f span)) {found found' : Symbol}
    (hfound : DeclaredIn (Counted.document words') found')
    (heq : found'.mapSpan f = (found.mapSpan f).rename symbol name) :
    RenamedSymbol doc doc' symbol name (found.mapSpan f) (found'.mapSpan f') := by
  obtain ⟨d', hd', hdeclares'⟩ := hfound
  have hmem := hd'
  rw [nodes_renamed hcounted, List.mem_map] at hmem
  obtain ⟨d, hd, rfl⟩ := hmem
  -- moved to where the first text has its tokens, the same node declares both symbols
  have hdeclares : (d.mapSpan f).Declares (found.mapSpan f) := by
    have hmoved := hdeclares'.mapSpan f
    rw [heq, ← Node.rename_mapSpan] at hmoved
    exact Node.declares_rename.1 hmoved
  refine ⟨by rw [Symbol.unplaced_mapSpan, ← heq, Symbol.unplaced_mapSpan], d.index, fun i => ?_, fun i => ?_⟩
  · rw [declares_iff h (mem_nodes_moved hdoc hd) hdeclares, Node.index_mapSpan]
  · rw [declares_iff h' (mem_nodes_moved hdoc' hd') (hdeclares'.mapSpan f'), Node.index_mapSpan, Node.index_rename]

theorem renamedNode_of_counted (hg : Renames doc symbol name g) (h : parse fileName text = .ok doc)
    (h' : parse fileName' text' = .ok doc') (hdoc : doc.tree = (Counted.tree words).mapSpan f)
    (hdoc' : doc'.tree = (Counted.tree words').mapSpan f')
    (hcounted : Counted.tree words' = (Counted.tree words).rename fun span => g (f span))
    (hn : n ∈ (Counted.document words).nodes) :
    RenamedNode doc doc' symbol name (n.mapSpan f) ((n.rename fun span => g (f span)).mapSpan f') := by
  have hdocn := mem_nodes_moved hdoc hn
  have hn' : n.rename (fun span => g (f span)) ∈ (Counted.document words').nodes := by
    rw [nodes_renamed hcounted]
    exact List.mem_map_of_mem hn
  constructor
  · rw [Node.index_mapSpan, Node.index_mapSpan, Node.index_rename]
  · rw [Node.name_mapSpan]
    by_cases hk : (n.mapSpan f).kind = .identifier
    · have hname := name_of_rename h hdocn hk g
      rw [Node.rename_mapSpan, Node.name_mapSpan] at hname
      rw [hname]
      split_ifs with hmentions
      · exact hg.mentioned _ hdocn hk ((mentions_iff h hdocn hk).1 hmentions)
      · exact hg.kept _ hdocn hk fun hm => hmentions ((mentions_iff h hdocn hk).2 hm)
    · have hmentions : ¬ (Model.ofTree doc.tree).mentions symbol (n.mapSpan f) = true :=
        fun hm => hk (of_decide_eq_true (Bool.and_eq_true_iff.1 hm).1)
      rw [if_neg hmentions, Node.name_mapSpan, Node.name_rename_of_ne _ (by rwa [Node.kind_mapSpan] at hk)]
  · intro hk
    rw [Node.kind_mapSpan] at hk
    have heq := symbolAt_renamed hg h hdoc hcounted hn hk
    rw [resolve_moved h hdoc hn hk, resolve_moved h' hdoc' hn' (by rwa [Node.kind_rename])]
    show Option.Rel _ ((symbolAt (methodsOf (Counted.tree words)) n).map _)
      ((symbolAt (methodsOf (Counted.tree words')) (n.rename fun span => g (f span))).map _)
    rcases hfound : symbolAt (methodsOf (Counted.tree words)) n with _ | found <;>
      rcases hfound' : symbolAt (methodsOf (Counted.tree words')) (n.rename fun span => g (f span)) with _ | found' <;>
      rw [hfound, hfound'] at heq
    · exact .none
    · cases heq
    · cases heq
    · exact .some (renamedSymbol_of_counted h h' hdoc hdoc' hcounted (declaredIn_of_symbolAt hn' hfound')
        (Option.some.inj heq))

theorem renamedReading_of_counted (hg : Renames doc symbol name g) (h : parse fileName text = .ok doc)
    (h' : parse fileName' text' = .ok doc') (hdoc : doc.tree = (Counted.tree words).mapSpan f)
    (hdoc' : doc'.tree = (Counted.tree words').mapSpan f')
    (hcounted : Counted.tree words' = (Counted.tree words).rename fun span => g (f span)) :
    RenamedReading doc doc' symbol name := by
  constructor
  · rw [root_moved hdoc, root_moved hdoc', hcounted, Tree.children_rename, (Tree.keeps_rename _).sizeAll_map]
  · rw [links_moved hdoc, links_moved hdoc', hcounted, Tree.cells_rename]
  · rw [nodes_moved hdoc, nodes_moved hdoc', nodes_renamed hcounted, List.map_map, List.forall₂_map_left_iff,
      List.forall₂_map_right_iff, List.forall₂_same]
    exact fun n hn => renamedNode_of_counted hg h h' hdoc hdoc' hcounted hn

/-- In both counted documents, the same is flagged. -/
theorem flagged_renamed (hg : Renames doc symbol name g) (h : parse fileName text = .ok doc)
    (hdoc : doc.tree = (Counted.tree words).mapSpan f)
    (hcounted : Counted.tree words' = (Counted.tree words).rename fun span => g (f span)) :
    Counted.flagged words' = (Counted.flagged words).map (Node.rename fun span => g (f span)) := by
  unfold Counted.flagged
  rw [nodes_renamed hcounted, List.filterMap_map, List.map_filterMap]
  refine List.filterMap_congr fun n hn => LetSafety.flagged?_map (Node.keeps_rename _) ?_ ?_
  · intro access haccess hak m hm hk
    have hmem := Document.mem_nodes_of_children hn haccess
    have hdocm := mem_nodes_moved hdoc (Document.mem_nodes_of_children hmem (List.mem_of_getLast? hm))
    have hlast : (access.mapSpan f).lastChild? = some (m.mapSpan f) := by
      rw [(Node.keeps_mapSpan f).lastChild?_eq, hm, Option.map_some]
    obtain ⟨_, hrole⟩ := roleAt_of_lastChild? h (mem_nodes_moved hdoc hmem) (by rwa [Node.kind_mapSpan]) hlast
    have hmk : (m.mapSpan f).kind = .identifier := by rwa [Node.kind_mapSpan]
    have hkept := hg.name_of_member hdocm hmk hrole
    rw [← name_of_rename h hdocm hmk g, Node.rename_mapSpan, Node.name_mapSpan, Node.name_mapSpan] at hkept
    exact hkept
  · intro m hm hk
    have hmem := Document.mem_nodes_of_descendants hn hm
    have heq := congrArg (Option.bind · Symbol.returnType?) (symbolAt_renamed hg h hdoc hcounted hmem hk)
    simp only [Option.bind_map, Function.comp_def, Symbol.returnType?_mapSpan, Symbol.returnType?_rename] at heq
    exact LetSafety.returnsResponse_congr heq

end

/-! ## Two texts -/

section

variable {fileName text : String} {doc : Document} {tokens : Tokens} {d : Node} {symbol : Symbol} {name : String}

/-- The renamed text has the tokens of the text, but for the identifiers that mention the symbol. -/
theorem tokenize_renamed (symbol : Symbol) (h : parse fileName text = .ok doc) (ht : tokenize text = .ok tokens)
    (hname : isName name = true) : ∃ tokens', tokenize (doc.renamed symbol name) = .ok tokens' ∧
      tokens'.words = tokens.lexemes.map fun l => l.token.rename (doc.newName symbol name l.span) := by
  obtain ⟨tokens', ht', hwords⟩ := tokenize_replace ht hname (doc.isMention symbol)
  have hsource : doc.source = .ofText text := by
    obtain ⟨_, _, _, _, rfl⟩ := derived_of_parse h
    rfl
  refine ⟨tokens', ?_, hwords⟩
  rw [Document.renamed, hsource, span_mentionsOf h ht]
  exact ht'

/-- Renaming changes nothing but the name. Let the text be read, let one of its identifiers introduce a
local or a parameter of a lambda, and let all that mentions this get a name that no identifier of the text
has. Then the renamed text is read, into an arena that agrees but for spans; all other names are kept;
every identifier stands for what it stood for, renamed likewise; and the analysis of both texts finds as
much and flags, one by one, the same tokens. -/
theorem analysis_of_renamed (h : parse fileName text = .ok doc) (hd : d ∈ doc.nodes)
    (hs : d.introduces? = some symbol) (hname : isName name = true)
    (hfresh : ∀ n ∈ doc.nodes, n.kind = .identifier → n.name ≠ name) (fileName' : String) :
    (∀ n ∈ doc.nodes, n.introduces? = some symbol ↔ n = d) ∧
      ∃ doc', parse fileName' (doc.renamed symbol name) = .ok doc' ∧
        parseArena fileName text = .ok doc.toArena ∧
        parseArena fileName' (doc.renamed symbol name) = .ok doc'.toArena ∧
        RenamedReading doc doc' symbol name ∧
        ∃ tokens tokens' ds ds', tokenize text = .ok tokens ∧ tokenize (doc.renamed symbol name) = .ok tokens' ∧
          analyzeText fileName text = .ok ds ∧ analyzeText fileName' (doc.renamed symbol name) = .ok ds' ∧
          List.Forall₂ (SameToken tokens tokens') ds ds' := by
  refine ⟨fun n hn => ⟨fun hns => eq_of_introduces? h hn hd hns hs, fun heq => heq ▸ hs⟩, ?_⟩
  obtain ⟨tokens, ht, -⟩ := parse_eq_ok_iff.1 h
  obtain ⟨tokens', ht', hwords⟩ := tokenize_renamed symbol h ht hname
  have hg := renames_newName h hs hfresh
  -- both texts are read as their counted tokens are, and of these trees the second is the first renamed
  have hfirst := parse_counted ht fileName
  rw [h] at hfirst
  obtain ⟨hnone, hdoc⟩ := hfirst
  obtain ⟨hnone', hcounted⟩ := Counted.tree_rename ht hwords hnone
  have hsecond := parse_counted ht' fileName'
  rcases h' : parse fileName' (doc.renamed symbol name) with faults | doc' <;> rw [h'] at hsecond
  · exact absurd hnone' hsecond.1
  · have htree := congrArg Document.tree hdoc
    have htree' := congrArg Document.tree hsecond.2
    have hflagged := flagged_renamed hg h htree hcounted
    refine ⟨doc', rfl, congrArg Prod.fst (ArenaSession.readWithin_of_ok h),
      congrArg Prod.fst (ArenaSession.readWithin_of_ok h'), renamedReading_of_counted hg h h' htree htree' hcounted,
      tokens, tokens', _, _, ht, ht', analyzeText_of_ok h, analyzeText_of_ok h', ?_⟩
    rw [analyze_moved h htree, analyze_moved h' htree', hflagged, List.map_map, List.forall₂_map_left_iff,
      List.forall₂_map_right_iff, List.forall₂_same]
    intro m hm
    have hm' := List.mem_map_of_mem (f := Node.rename fun span => doc.newName symbol name (tokens.place span)) hm
    rw [← hflagged] at hm'
    exact sameToken_of_flagged ht ht' hnone hnone' doc doc' hm hm' (Node.span_rename _ m)

/-- A parameter that hides a method is renamed; where the method is called, it is still flagged. -/
theorem analysis_of_renamed_hiding :
    let text := "IServiceResponse<T> F(T a); x.Let(F => F(b)); x.Let(b => F(b));"
    let text' := "IServiceResponse<T> F(T a); x.Let(y => y(b)); x.Let(b => F(b));"
    ∃ doc doc' symbol, parse "m.cs" text = .ok doc ∧ doc.renamed symbol "y" = text' ∧ parse "n.cs" text' = .ok doc' ∧
      RenamedReading doc doc' symbol "y" ∧ ∃ tokens tokens' ds ds', tokenize text = .ok tokens ∧
        tokenize text' = .ok tokens' ∧ analyzeText "m.cs" text = .ok ds ∧ analyzeText "n.cs" text' = .ok ds' ∧
        ds.length = 1 ∧ List.Forall₂ (SameToken tokens tokens') ds ds' := by
  intro text text'
  have hrun : ((parse "m.cs" text).toOption.any fun doc => doc.nodes.any fun d => d.introduces?.any fun symbol =>
      decide (doc.renamed symbol "y" = text') &&
        doc.nodes.all fun n => decide (n.kind = .identifier → n.name ≠ "y")) = true := by
    decide +kernel
  have hcount : ((analyzeText "m.cs" text).toOption.any fun ds => decide (ds.length = 1)) = true := by decide +kernel
  simp only [Option.any_eq_true, List.any_eq_true, Bool.and_eq_true, List.all_eq_true, decide_eq_true_eq] at hrun hcount
  obtain ⟨doc, hdoc, d, hd, symbol, hs, hrenamed, hfresh⟩ := hrun
  have hp := parse_of_toOption hdoc
  obtain ⟨-, doc', hp', -, -, hreading, tokens, tokens', ds, ds', ht, ht', hds, hds', hflags⟩ :=
    analysis_of_renamed hp hd hs (by decide +kernel) hfresh "n.cs"
  rw [hrenamed] at hp' ht' hds'
  have hlength : ds.length = 1 := by
    obtain ⟨ds₁, hds₁, hlength⟩ := hcount
    rw [hds] at hds₁
    cases hds₁
    exact hlength
  exact ⟨doc, doc', symbol, hp, hrenamed, hp', hreading, tokens, tokens', ds, ds', ht, ht', hds, hds', hlength, hflags⟩

end

end LetLint
