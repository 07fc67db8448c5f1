/-
Reading back the text of a type. The names, dots, angles and commas of the text are tokens of their
own; the grammar derives from them a tree that spells the type, and only one, since the reader is a
function; and the tree nests as deep as the type does. So a declaration that returns the type is read
as such exactly up to the cap on nesting, and no two types have the same text.
-/
import LetLint.Proofs.Parse.Accepted
import LetLint.Proofs.Parse.Completeness
import LetLint.Proofs.Token.Writing
import LetLint.Symbol.TypeRef

namespace LetLint.TypeRef

/-! ## Names and levels -/

mutual

/-- Every level of the type has names, and all of them can be read as names. -/
def wellNamed : TypeRef → Bool
  | ⟨segments, arguments⟩ => !segments.isEmpty && segments.all isName && allWellNamed arguments

/-- Every one of the types is so. -/
def allWellNamed : List TypeRef → Bool
  | [] => true
  | t :: ts => t.wellNamed && allWellNamed ts

end

mutual

/-- The number of types on the deepest path, the type itself included. -/
def levels : TypeRef → Nat
  | ⟨_, arguments⟩ => levelsAll arguments + 1

/-- The number of levels of the deepest of the types. -/
def levelsAll : List TypeRef → Nat
  | [] => 0
  | t :: ts => max t.levels (levelsAll ts)

end

theorem wellNamed_iff {segments : List String} {arguments : List TypeRef} :
    wellNamed ⟨segments, arguments⟩ = true ↔
      segments ≠ [] ∧ (∀ s ∈ segments, isName s = true) ∧ allWellNamed arguments = true := by
  simp [wellNamed, and_assoc]

theorem allWellNamed_cons {t : TypeRef} {ts : List TypeRef} :
    allWellNamed (t :: ts) = true ↔ t.wellNamed = true ∧ allWellNamed ts = true := by
  simp [allWellNamed]

/-! ## The text as tokens -/

mutual

/-- The tokens of the text of a type. -/
def tokens : TypeRef → List Token
  | ⟨segments, arguments⟩ => (segments.map .identifier).intersperse (.punct .dot) ++ argumentsTokens arguments

/-- The tokens of the text of type arguments. -/
def argumentsTokens : List TypeRef → List Token
  | [] => []
  | argument :: more => .punct .less :: (argument.tokens ++ (moreTokens more ++ [.punct .greater]))

/-- The tokens of the text of further type arguments. -/
def moreTokens : List TypeRef → List Token
  | [] => []
  | argument :: more => .punct .comma :: (argument.tokens ++ moreTokens more)

end

section

variable {rest : List Char} {behind : List Token}

theorem head?_intercalate {s : String} {more : List String} (hs : isName s = true) (rest : List Char) :
    ((".".intercalate (s :: more)).toList ++ rest).head? ≠ some '=' := by
  obtain ⟨c, cs, hlist, hc, -⟩ := isName_iff.1 hs
  have hne : c ≠ '=' := by
    rintro rfl
    exact absurd hc (by decide +kernel)
  cases more <;> simp [String.intercalate_cons_cons, hlist, hne]

theorem head?_text {t : TypeRef} (ht : t.wellNamed = true) (rest : List Char) :
    (t.text.toList ++ rest).head? ≠ some '=' := by
  obtain ⟨segments, arguments⟩ := t
  obtain ⟨hne, hnames, -⟩ := wellNamed_iff.1 ht
  obtain ⟨s, more, rfl⟩ := List.exists_cons_of_ne_nil hne
  rw [text, String.toList_append, List.append_assoc]
  exact head?_intercalate (hnames s (by simp)) _

theorem breaks_argumentsText (hrest : Breaks rest) (arguments : List TypeRef) :
    Breaks ((argumentsText arguments).toList ++ rest) := by
  cases arguments with
  | nil => exact hrest
  | cons argument more =>
    simp only [argumentsText, String.toList_append, List.append_assoc]
    exact .of_mem (by decide) _

theorem breaks_moreText (hrest : Breaks rest) (arguments : List TypeRef) :
    Breaks ((moreText arguments).toList ++ rest) := by
  cases arguments with
  | nil => exact hrest
  | cons argument more =>
    simp only [moreText, String.toList_append, List.append_assoc]
    exact .of_mem (by decide) _

theorem spellsOut_segments (hrest : Breaks rest) (h : SpellsOut rest behind) {segments : List String}
    (hne : segments ≠ []) (hnames : ∀ s ∈ segments, isName s = true) :
    SpellsOut ((".".intercalate segments).toList ++ rest)
      ((segments.map .identifier).intersperse (.punct .dot) ++ behind) := by
  induction segments with
  | nil => exact absurd rfl hne
  | cons s more ih =>
    have hs : isName s = true := hnames s (by simp)
    cases more with
    | nil =>
      rw [String.intercalate_singleton]
      exact .name hs hrest h
    | cons next more =>
      have hmore := ih (by simp) fun s hs => hnames s (List.mem_cons_of_mem _ hs)
      have hdot := hmore.mark (c := '.') rfl (by decide) (head?_intercalate (hnames next (by simp)) rest)
      rw [String.intercalate_cons_cons, String.toList_append, String.toList_append, List.append_assoc,
        List.append_assoc]
      exact .name hs (.of_mem (by decide) _) hdot

end

mutual

/-- The text of a type is read as its tokens, before whatever breaks names off. -/
theorem spellsOut_text : (t : TypeRef) → {rest : List Char} → {behind : List Token} → t.wellNamed = true →
    Breaks rest → SpellsOut rest behind → SpellsOut (t.text.toList ++ rest) (t.tokens ++ behind)
  | ⟨segments, arguments⟩, _, _, ht, hrest, h => by
    obtain ⟨hne, hnames, harguments⟩ := wellNamed_iff.1 ht
    rw [text, tokens, String.toList_append, List.append_assoc, List.append_assoc]
    exact spellsOut_segments (breaks_argumentsText hrest arguments)
      (spellsOut_argumentsText arguments harguments hrest h) hne hnames

theorem spellsOut_argumentsText : (arguments : List TypeRef) → {rest : List Char} → {behind : List Token} →
    allWellNamed arguments = true → Breaks rest → SpellsOut rest behind →
    SpellsOut ((argumentsText arguments).toList ++ rest) (argumentsTokens arguments ++ behind)
  | [], _, _, _, _, h => h
  | argument :: more, rest, _, ht, hrest, h => by
    obtain ⟨hargument, hmore⟩ := allWellNamed_cons.1 ht
    have hclose := h.mark (c := '>') rfl (by decide) hrest.mark
    have hbreaks : Breaks ('>' :: rest) := .of_mem (by decide) _
    have hinner := spellsOut_text argument hargument (breaks_moreText hbreaks more)
      (spellsOut_moreText more hmore hbreaks hclose)
    have hopen := hinner.mark (c := '<') rfl (by decide) (head?_text hargument _)
    simpa [argumentsText, argumentsTokens] using hopen

theorem spellsOut_moreText : (arguments : List TypeRef) → {rest : List Char} → {behind : List Token} →
    allWellNamed arguments = true → Breaks rest → SpellsOut rest behind →
    SpellsOut ((moreText arguments).toList ++ rest) (moreTokens arguments ++ behind)
  | [], _, _, _, _, h => h
  | argument :: more, _, _, ht, hrest, h => by
    obtain ⟨hargument, hmore⟩ := allWellNamed_cons.1 ht
    have hinner := spellsOut_text argument hargument (breaks_moreText hrest more)
      (spellsOut_moreText more hmore hrest h)
    have hcomma := (hinner.blank (c := ' ') (by decide)).mark (c := ',') rfl (by decide) (by simp)
    simpa [moreText, moreTokens] using hcomma

end

/-! ## The tokens as a tree -/

/-- The trees are the names of a type: they have no type arguments and no levels. -/
structure AreNames (segments : List String) (ts : List Tree) : Prop where
  names (us : List Tree) : (ts ++ us).filterMap Tree.name? = segments ++ us.filterMap Tree.name?
  arguments (us : List Tree) : argumentsOf (ts ++ us) = argumentsOf us
  levels (us : List Tree) : Tree.levelsBelow .qualifiedType (ts ++ us) = Tree.levelsBelow .qualifiedType us

theorem AreNames.nil : AreNames [] [] := ⟨fun _ => rfl, fun _ => rfl, fun _ => rfl⟩

theorem AreNames.cons {s : String} {segments : List String} {ts : List Tree} (span : Span) (h : AreNames segments ts) :
    AreNames (s :: segments) (.leaf (.identifier s) span :: ts) := by
  refine ⟨fun us => congrArg (s :: ·) (h.names us), fun us => ?_, fun us => ?_⟩
  · rw [List.cons_append, argumentsOf, h.arguments]
    simp
  · rw [List.cons_append, Tree.levelsBelow, h.levels, Tree.levels_leaf]
    simp [Kind.enters]

/-- Names with dots between them are the names of a type. -/
theorem exists_derives_segments {ls : List Lexeme} {segments : List String} (hne : segments ≠ [])
    (h : ls.map (·.token) = (segments.map Token.identifier).intersperse (.punct .dot)) :
    ∃ ts, Derives (.separated .dot .name) ls ts ∧ AreNames segments ts := by
  induction segments generalizing ls with
  | nil => exact absurd rfl hne
  | cons s more ih =>
    cases more with
    | nil =>
      obtain ⟨l, rfl, hl⟩ := List.map_eq_singleton_iff.1 h
      exact ⟨_, .last (.name hl), .cons _ .nil⟩
    | cons next more =>
      obtain ⟨l, ms, rfl, hl, h⟩ := List.map_eq_cons_iff.1 h
      obtain ⟨dot, ms, rfl, hdot, h⟩ := List.map_eq_cons_iff.1 h
      obtain ⟨ts, hts, hnames⟩ := ih (by simp) h
      exact ⟨_, .next (.name hl) hdot hts, .cons _ hnames⟩

theorem typesOf_cons {t : Tree} (h : t.kind = .qualifiedType) (ts : List Tree) :
    typesOf (t :: ts) = ofTree t :: typesOf ts := by
  rw [typesOf, if_pos h]

mutual

/-- The tokens of a type are derived as a tree that spells it and nests as deep. -/
theorem exists_derives : (t : TypeRef) → {ls : List Lexeme} → t.wellNamed = true → ls.map (·.token) = t.tokens →
    ∃ tree, Derives .type ls [tree] ∧ ofTree tree = t ∧ tree.levels = t.levels
  | ⟨segments, []⟩, ls, ht, h => by
    obtain ⟨hne, -, -⟩ := wellNamed_iff.1 ht
    rw [tokens, argumentsTokens, List.append_nil] at h
    obtain ⟨ts, hts, hnames⟩ := exists_derives_segments hne h
    have hnames' := hnames.names []
    have harguments' := hnames.arguments []
    have hlevels' := hnames.levels []
    rw [List.append_nil] at hnames' harguments' hlevels'
    refine ⟨_, .plainType hts, ?_, ?_⟩
    · rw [ofTree, hnames', harguments', argumentsOf, List.filterMap_nil, List.append_nil]
    · rw [Tree.levels_node, hlevels', levels, Tree.levelsBelow, levelsAll]
      rfl
  | ⟨segments, argument :: more⟩, ls, ht, h => by
    obtain ⟨hne, -, harguments⟩ := wellNamed_iff.1 ht
    obtain ⟨ls, ms, rfl, hls, hms⟩ := List.map_eq_append_iff.1 h
    obtain ⟨ts, hts, hnames⟩ := exists_derives_segments hne hls
    obtain ⟨list, hlist, hread, hlevels⟩ := exists_derives_arguments (argument :: more) (by simp) harguments hms
    have hlast : [list].filterMap Tree.name? = [] := by cases hlist; rfl
    refine ⟨_, .genericType hts hlist, ?_, ?_⟩
    · rw [ofTree, hnames.names, hlast, List.append_nil, hnames.arguments, hread]
    · rw [Tree.levels_node, hnames.levels, Tree.levelsBelow, Tree.levelsBelow, hlevels, levels]
      simp [Kind.enters, Kind.opensLevel, Nat.add_comm]

theorem exists_derives_arguments : (arguments : List TypeRef) → {ls : List Lexeme} → arguments ≠ [] →
    allWellNamed arguments = true → ls.map (·.token) = argumentsTokens arguments →
    ∃ list, Derives .typeArguments ls [list] ∧ argumentsOf [list] = arguments ∧ list.levels = levelsAll arguments
  | [], _, hne, _, _ => absurd rfl hne
  | argument :: more, ls, _, ht, h => by
    obtain ⟨hargument, hmore⟩ := allWellNamed_cons.1 ht
    obtain ⟨o, ls, rfl, ho, h⟩ := List.map_eq_cons_iff.1 h
    obtain ⟨ls, ms, rfl, hls, h⟩ := List.map_eq_append_iff.1 h
    obtain ⟨ms, ns, rfl, hms, h⟩ := List.map_eq_append_iff.1 h
    obtain ⟨c, rfl, hc⟩ := List.map_eq_singleton_iff.1 h
    obtain ⟨tree, htree, hread, hlevels⟩ := exists_derives argument hargument hls
    obtain ⟨ts, hts, hreads, hbelow⟩ := exists_derives_more more hmore hms
    have hkind : tree.kind = .qualifiedType := by simpa [Phrase.yields] using htree.yields_one
    have hlist := Derives.typeArguments ho (hts.derives htree) hc
    rw [List.append_assoc] at hlist
    refine ⟨_, hlist, ?_, ?_⟩
    · rw [argumentsOf, argumentsOf, List.append_nil, typesOf_cons hkind, hread, hreads]
    · rw [Tree.levels_node, Tree.levelsBelow, hlevels, hbelow, levelsAll]
      simp [Kind.enters, Kind.opensLevel]

theorem exists_derives_more : (arguments : List TypeRef) → {ls : List Lexeme} → allWellNamed arguments = true →
    ls.map (·.token) = moreTokens arguments → ∃ ts, FollowsItem .comma .type ls ts ∧ typesOf ts = arguments ∧
      Tree.levelsBelow .typeArgumentList ts = levelsAll arguments
  | [], ls, _, h => ⟨[], .inl ⟨List.map_eq_nil_iff.1 h, rfl⟩, by rw [typesOf], by rw [Tree.levelsBelow, levelsAll]⟩
  | argument :: more, ls, ht, h => by
    obtain ⟨hargument, hmore⟩ := allWellNamed_cons.1 ht
    obtain ⟨c, ls, rfl, hc, h⟩ := List.map_eq_cons_iff.1 h
    obtain ⟨ls, ms, rfl, hls, hms⟩ := List.map_eq_append_iff.1 h
    obtain ⟨tree, htree, hread, hlevels⟩ := exists_derives argument hargument hls
    obtain ⟨ts, hts, hreads, hbelow⟩ := exists_derives_more more hmore hms
    have hkind : tree.kind = .qualifiedType := by simpa [Phrase.yields] using htree.yields_one
    refine ⟨tree :: ts, .inr ⟨c, _, rfl, hc, hts.derives htree⟩, ?_, ?_⟩
    · rw [typesOf_cons hkind, hread, hreads]
    · rw [Tree.levelsBelow, hlevels, hbelow, levelsAll]
      simp [Kind.enters]

end

end LetLint.TypeRef

namespace LetLint

/-! ## The declaration that returns a type -/

/-- A method that does not nest too deep is all that is read from its lexemes. -/
theorem DerivedItem.items_of_method {cap : Nat} {i : DerivedItem} {tokens : Tokens} (h : i.lexemes = tokens.lexemes)
    (hk : i.tree.kind = .method) (hl : i.tree.levels ≤ cap) :
    (Parse.items cap (.ofTokens tokens)).nodes = [i.tree] ∧ (Parse.items cap (.ofTokens tokens)).faults = [] := by
  have hreadable : ∀ j ∈ [i], Parse.Readable cap j := by
    intro j hj
    rw [List.mem_singleton.1 hj]
    exact ⟨hl, fun hexpression => Kind.noConfusion (hk.symm.trans hexpression)⟩
  have hahead : (TokenStream.ofTokens tokens).ahead = [i].flatMap (·.lexemes) := by
    rw [List.flatMap_singleton, h]
    rfl
  exact Parse.itemsFor_readable [i] _ (.ofTokens tokens) hahead (Nat.le_refl _) hreadable

/-- There is only one way to read lexemes as a method. -/
theorem DerivedItem.tree_eq_of_method {i j : DerivedItem} (h : i.lexemes = j.lexemes) (hi : i.tree.kind = .method)
    (hj : j.tree.kind = .method) : i.tree = j.tree := by
  -- with a cap that neither exceeds, the reader finds both
  have hread (k : DerivedItem) (hsame : k.lexemes = j.lexemes) (hk : k.tree.kind = .method)
      (hl : k.tree.levels ≤ max i.tree.levels j.tree.levels) :
      (Parse.items (max i.tree.levels j.tree.levels) (.ofTokens ⟨j.lexemes, .origin⟩)).nodes = [k.tree] :=
    (items_of_method hsame hk hl).1
  have hboth := (hread i h hi (Nat.le_max_left _ _)).symm.trans (hread j rfl hj (Nat.le_max_right _ _))
  exact (List.cons.inj hboth).1

namespace TypeRef

variable {t : TypeRef}

/-- The item declares a method, and its return type is read off as the type. -/
structure Declares (t : TypeRef) (item : Tree) : Prop where
  kind : item.kind = .method
  returnType : item.returnType?.map ofTree = some t

/-- The tokens of a declaration that returns the type. -/
def declaration (t : TypeRef) : List Token :=
  t.tokens ++ [.identifier "F", .punct .leftParen, .punct .rightParen, .punct .semicolon]

theorem spellsOut_declaration (ht : t.wellNamed = true) : SpellsOut (t.text ++ " F();").toList t.declaration := by
  have hend := SpellsOut.nil.mark (c := ';') rfl (by decide) (by simp)
  have hclose := hend.mark (c := ')') rfl (by decide) (by simp)
  have hopen := hclose.mark (c := '(') rfl (by decide) (by simp)
  have hF : isName "F" = true := by decide +kernel
  have hname := hopen.name hF (.of_mem (by decide) _)
  rw [String.toList_append]
  exact spellsOut_text t ht (.of_mem (by decide) _) (hname.blank (c := ' ') (by decide))

theorem exists_declares {ls : List Lexeme} (ht : t.wellNamed = true) (h : ls.map (·.token) = t.declaration) :
    ∃ i : DerivedItem, i.lexemes = ls ∧ t.Declares i.tree ∧ i.tree.levels = t.levels := by
  obtain ⟨ls, ms, rfl, hls, hms⟩ := List.map_eq_append_iff.1 h
  obtain ⟨n, ms, rfl, hn, hms⟩ := List.map_eq_cons_iff.1 hms
  obtain ⟨o, ms, rfl, ho, hms⟩ := List.map_eq_cons_iff.1 hms
  obtain ⟨c, ms, rfl, hc, hms⟩ := List.map_eq_cons_iff.1 hms
  obtain ⟨s, rfl, hs⟩ := List.map_eq_singleton_iff.1 hms
  obtain ⟨tree, htree, hread, hlevels⟩ := exists_derives t ht hls
  have hkind : tree.kind = .qualifiedType := by simpa [Phrase.yields] using htree.yields_one
  have hmethod := Derives.method htree (.name hn) (.parameters ho .noItems hc) hs
  refine ⟨⟨_, _, hmethod⟩, rfl, ⟨rfl, ?_⟩, ?_⟩
  · simp [Tree.returnType?, Tree.firstChild?, Tree.children, Tree.ofKind?, hkind, hread]
  · simp [Tree.levelsBelow, Kind.enters, Kind.opensLevel, hlevels]

/-- A declaration that returns the type is read as that, and as nothing else, exactly if the type
nests no deeper than the cap. -/
theorem declares_iff (ht : t.wellNamed = true) (fileName : String) :
    (∃ doc item, parse fileName (t.text ++ " F();") = .ok doc ∧ doc.tree.children = [item] ∧ t.Declares item) ↔
      t.levels ≤ nestingCap := by
  obtain ⟨found, hfound, htokens⟩ := spellsOut_toList_iff.1 (spellsOut_declaration ht)
  obtain ⟨i, hi, hdeclares, hlevels⟩ := exists_declares ht htokens
  rw [← hlevels]
  constructor
  · rintro ⟨doc, item, hparse, hitem, hmethod⟩
    obtain ⟨tokens, htokenize, hfaults, rfl⟩ := parse_eq_ok_iff.1 hparse
    cases hfound.symm.trans htokenize
    obtain ⟨items, hahead, hnodes, hreadable⟩ := Parse.itemsFor_eq_readable (Nat.le_refl _) hfaults
    obtain ⟨j, rfl, rfl⟩ := List.map_eq_singleton_iff.1 (hnodes.symm.trans hitem)
    have hsame : i.lexemes = j.lexemes := hi.trans (hahead.trans (List.flatMap_singleton ..))
    rw [DerivedItem.tree_eq_of_method hsame hdeclares.kind hmethod.kind]
    exact (hreadable j (by simp)).levels
  · intro hle
    obtain ⟨hnodes, hfaults⟩ := DerivedItem.items_of_method hi hdeclares.kind hle
    exact ⟨_, i.tree, parse_eq_ok_iff.2 ⟨found, hfound, hfaults, rfl⟩, hnodes, hdeclares⟩

/-- No two types have the same text, however deep they nest. -/
theorem eq_of_text_eq {u : TypeRef} (ht : t.wellNamed = true) (hu : u.wellNamed = true) (h : u.text = t.text) :
    u = t := by
  obtain ⟨found, hfound, htokens⟩ := spellsOut_toList_iff.1 (spellsOut_declaration ht)
  obtain ⟨found', hfound', htokens'⟩ := spellsOut_toList_iff.1 (spellsOut_declaration hu)
  rw [h] at hfound'
  cases hfound.symm.trans hfound'
  obtain ⟨i, hlexemes, hi, -⟩ := exists_declares ht htokens
  obtain ⟨j, hlexemes', hj, -⟩ := exists_declares hu htokens'
  have hreturn := hj.returnType
  rw [DerivedItem.tree_eq_of_method (hlexemes'.trans hlexemes.symm) hj.kind hi.kind, hi.returnType] at hreturn
  exact (Option.some.inj hreturn).symm

/-- A type with names at every level is read back from its text: as the return type of the one declaration
that is written with it, exactly if it nests no deeper than the cap. And at any depth no other such type has
the same text. -/
theorem read_back (ht : t.wellNamed = true) (fileName : String) :
    ((∃ doc item, parse fileName (t.text ++ " F();") = .ok doc ∧ doc.tree.children = [item] ∧ t.Declares item) ↔
      t.levels ≤ nestingCap) ∧ ∀ u : TypeRef, u.wellNamed = true → u.text = t.text → u = t :=
  ⟨declares_iff ht fileName, fun _ hu h => eq_of_text_eq ht hu h⟩

/-- `A.B<C, D<É.f2>>` -/
def nestedType : TypeRef := ⟨["A", "B"], [⟨["C"], []⟩, ⟨["D"], [⟨["É", "f2"], []⟩]⟩]⟩

theorem read_back_nested : nestedType.wellNamed = true ∧ nestedType.levels = 3 ∧
    (∃ doc item, parse "m.cs" "A.B<C, D<É.f2>> F();" = .ok doc ∧ doc.tree.children = [item] ∧
      nestedType.Declares item) ∧
    ∀ u : TypeRef, u.wellNamed = true → u.text = "A.B<C, D<É.f2>>" → u = nestedType := by
  have hnamed : nestedType.wellNamed = true := by decide +kernel
  have htext : nestedType.text = "A.B<C, D<É.f2>>" := by decide +kernel
  obtain ⟨hread, hinjective⟩ := read_back hnamed "m.cs"
  rw [htext] at hread hinjective
  exact ⟨hnamed, by decide +kernel, hread.2 (by decide +kernel), hinjective⟩

end TypeRef

end LetLint
