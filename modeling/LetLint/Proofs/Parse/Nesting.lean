/-
The cap on nesting only rejects. What lies too deep is a fault, except in the guess whether a method
follows: a type of too many levels is no type to the guess, and the item is read as an expression. No
item becomes another tree in this way. In a type of more than two levels a closing angle stands before
a comma or before another one, and in an expression each angle, up to the first parenthesis or brace,
has an operand behind it.

So what is read within a cap of at least two levels is read in the same way within any larger one. A
cap of a single level does not have this property: within it `A<B> F();` is a comparison. The levels
that a node lies in are counted along its path as well, and there are never more of them than the cap.
-/
import LetLint.Proofs.Parse.Accepted
import LetLint.Proofs.Parse.Arena
import LetLint.Proofs.Parse.Completeness
import LetLint.Proofs.Tree.Order

namespace LetLint

/-! ## Angles in expressions -/

/-- An opening parenthesis or brace. -/
def Token.opensGroup (token : Token) : Bool := token == .punct .leftParen || token == .punct .leftBrace

/-- Up to the first parenthesis or brace, every closing angle has an operand behind it. -/
def AnglesCompare : List Lexeme → Prop
  | [] => True
  | l :: rest => l.token.opensGroup = true ∨
      (l.token = .punct .greater → ∃ m ∈ rest.head?, m.token.opensExpression = true) ∧ AnglesCompare rest

namespace AnglesCompare

variable {ls ms rest : List Lexeme} {l g m : Lexeme}

theorem group (hl : l.token.opensGroup = true) : AnglesCompare (l :: rest) := .inl hl

theorem operator (hm : ∃ m ∈ rest.head?, m.token.opensExpression = true) (h : AnglesCompare rest) :
    AnglesCompare (l :: rest) := .inr ⟨fun _ => hm, h⟩

theorem cons (hl : l.token ≠ .punct .greater) (h : AnglesCompare rest) : AnglesCompare (l :: rest) :=
  .inr ⟨fun hg => absurd hg hl, h⟩

theorem append (hl : AnglesCompare ls) (hm : AnglesCompare ms) : AnglesCompare (ls ++ ms) := by
  induction ls with
  | nil => exact hm
  | cons l ls ih =>
    rcases hl with hl | ⟨hangle, hl⟩
    · exact .group hl
    · refine .inr ⟨fun hg => ?_, ih hl⟩
      obtain ⟨m, hhead, ho⟩ := hangle hg
      exact ⟨m, by simp [Option.mem_def.1 hhead], ho⟩

/-- The lexeme behind a closing angle that nothing opens before is an operand's. -/
theorem operand_behind (h : AnglesCompare (ls ++ g :: m :: rest)) (hls : ∀ l ∈ ls, l.token.opensGroup = false)
    (hg : g.token = .punct .greater) : m.token.opensExpression = true := by
  induction ls with
  | nil =>
    rcases h with hgroup | ⟨hangle, -⟩
    · rw [hg] at hgroup
      cases hgroup
    · obtain ⟨_, ⟨⟩, ho⟩ := hangle hg
      exact ho
  | cons l ls ih =>
    obtain ⟨hl, hls⟩ := List.forall_mem_cons.1 hls
    rcases h with hgroup | ⟨-, h⟩
    · rw [hl] at hgroup
      cases hgroup
    · exact ih h hls

end AnglesCompare

/-- The phrases that an expression is put together from. -/
def Phrase.isValue : Phrase → Bool
  | .name | .bareParameter | .parameters _ | .lambdaBody | .expression | .binary _ | .unary | .call | .primary
  | .arguments | .block => true
  | _ => false

namespace Derives

variable {X : Phrase} {ls : List Lexeme} {ts : List Tree}

/-- A closing angle of an expression is an operator, with an operand behind it. -/
theorem anglesCompare (h : Derives X ls ts) (hX : X.isValue = true) : AnglesCompare ls := by
  induction h with
  | name hl => exact .cons (by rw [hl]; simp) trivial
  | atom hl => exact .cons (by intro hg; rw [hg] at hl; cases hl) trivial
  | bareParameter _ ih | noLambda _ ih | bodyBlock _ ih | bodyValue _ ih | operand _ ih | stronger _ ih
  | unsigned _ ih | callee _ ih => exact ih rfl
  | parameters ho _ _ _ | arguments ho _ _ _ | group ho _ _ _ | block ho _ _ _ => exact .group (by rw [ho]; rfl)
  | bareLambda _ ha _ ihp ihb | lambda _ ha _ ihp ihb | access _ ha _ ihp ihb =>
    exact (ihp rfl).append (.cons (by rw [ha]; simp) (ihb rfl))
  | operation _ _ _ hb iha ihb =>
    obtain ⟨m, ms, rfl, ho⟩ := hb.exists_head
    exact (iha rfl).append (.operator ⟨m, rfl, ho⟩ (ihb rfl))
  | signed ho hp _ ih => exact .cons (by rw [ho]; rintro ⟨⟩; cases hp) (ih rfl)
  | invocation _ _ ihf iha => exact (ihf rfl).append (iha rfl)
  | _ => cases hX

end Derives

/-! ## Angles in types -/

namespace Tree

/-- The level that a tree may open, and the levels of its parts. -/
theorem levels_eq (t : Tree) : t.levels = t.kind.opensLevel.toNat + levelsBelow t.kind t.children := by
  cases t with
  | leaf atom _ => cases atom <;> simp [levelsBelow, kind, children, Atom.kind, Kind.opensLevel]
  | node kind _ children => exact levels_node kind _ children

/-- A part is no deeper than all parts together. -/
theorem levels_le_levelsBelow {kind : Kind} {ts : List Tree} {t : Tree} (ht : t ∈ ts) :
    t.levels + (kind.enters t.kind).toNat ≤ levelsBelow kind ts :=
  Nat.le_of_lt_succ (levelsBelow_lt_iff.1 (Nat.lt_succ_self _) t ht)

/-- A deep tree has a deep part. -/
theorem exists_of_lt_levels {t : Tree} {n : Nat} (h : n + t.kind.opensLevel.toNat < t.levels) :
    ∃ u ∈ t.children, n < u.levels + (t.kind.enters u.kind).toNat := by
  by_contra hnone
  have hlow : ∀ u ∈ t.children, u.levels + (t.kind.enters u.kind).toNat < n + 1 := by
    intro u hu
    by_contra hdeep
    exact hnone ⟨u, hu, by omega⟩
  have hbelow := levelsBelow_lt_iff.2 hlow
  rw [levels_eq] at h
  omega

end Tree

/-- The phrases that a type is put together from. -/
def Phrase.isTypePart : Phrase → Bool
  | .name | .type | .typeArguments => true
  | .separated mark X => (mark == .dot || mark == .comma) && X.isTypePart
  | _ => false

/-- Somewhere a closing angle stands before a comma or before another one. -/
def ClosesArgument (ls : List Lexeme) : Prop :=
  ∃ as g m bs, ls = as ++ g :: m :: bs ∧ g.token = .punct .greater ∧
    (m.token = .punct .comma ∨ m.token = .punct .greater)

theorem ClosesArgument.append {ls : List Lexeme} (h : ClosesArgument ls) (before behind : List Lexeme) :
    ClosesArgument (before ++ ls ++ behind) := by
  obtain ⟨as, g, m, bs, rfl, hg, hm⟩ := h
  exact ⟨before ++ as, g, m, bs ++ behind, by simp, hg, hm⟩

namespace Derives

variable {X : Phrase} {ls : List Lexeme} {ts : List Tree} {t : Tree} {c : Lexeme} {n : Nat}

/-- No parenthesis and no brace opens in a type. -/
theorem opensGroup_eq_false (h : Derives X ls ts) (hX : X.isTypePart = true) :
    ∀ l ∈ ls, l.token.opensGroup = false := by
  induction h with
  | name hl => simp [hl, Token.opensGroup]
  | last _ ih =>
    simp only [Phrase.isTypePart, Bool.and_eq_true] at hX
    exact ih hX.2
  | next _ hc _ ih ihm =>
    have hmark := hX
    simp only [Phrase.isTypePart, Bool.and_eq_true, Bool.or_eq_true, beq_iff_eq] at hmark
    refine List.forall_mem_append.2 ⟨ih hmark.2, List.forall_mem_cons.2 ⟨?_, ihm hX⟩⟩
    rcases hmark.1 with rfl | rfl <;> rw [hc] <;> rfl
  | plainType _ ih => exact ih rfl
  | genericType _ _ ih iha => exact List.forall_mem_append.2 ⟨ih rfl, iha rfl⟩
  | typeArguments ho _ hc ih =>
    refine List.forall_mem_cons.2 ⟨by rw [ho]; rfl, List.forall_mem_append.2 ⟨ih rfl, ?_⟩⟩
    exact List.forall_mem_singleton.2 (by rw [hc]; rfl)
  | _ => cases hX

/-- Names open no level. -/
theorem levels_names (h : Derives (.separated .dot .name) ls ts) : ∀ t ∈ ts, t.levels = 0 := by
  have hname : ∀ {ls : List Lexeme} {t : Tree}, Derives .name ls [t] → t.levels = 0 := by
    intro ls t h
    cases h
    exact Tree.levels_leaf _ _
  obtain ⟨ms, ns, t, us, rfl, rfl, ht, hf⟩ := h.exists_followsItem
  refine List.forall_mem_cons.2 ⟨hname ht, ?_⟩
  exact hf.induction (P := fun _ us => ∀ u ∈ us, u.levels = 0) (by simp)
    fun _ hn _ ih => List.forall_mem_cons.2 ⟨hname hn, ih⟩

/-- A type of more than one level ends with type arguments, and the levels below its own are theirs. -/
theorem exists_arguments (h : Derives .type ls [t]) (hl : n + 1 < t.levels) :
    ∃ ms as a, ls = ms ++ as ∧ Derives .typeArguments as [a] ∧ n < a.levels := by
  have hnames : ∀ {ls : List Lexeme} {ts : List Tree}, Derives (.separated .dot .name) ls ts →
      ∀ u ∈ ts, ¬ n < u.levels + (Kind.qualifiedType.enters u.kind).toNat := by
    intro ls ts h u hu
    simp [h.levels_names u hu, Kind.enters]
  cases h with
  | plainType h =>
    obtain ⟨u, hu, hlu⟩ := Tree.exists_of_lt_levels (t := .node .qualifiedType _ _) hl
    exact absurd hlu (hnames h u hu)
  | @genericType ls as ts a h ha =>
    obtain ⟨u, hu, hlu⟩ := Tree.exists_of_lt_levels (t := .node .qualifiedType _ _) hl
    rcases List.mem_append.1 hu with hu | hu
    · exact absurd hlu (hnames h u hu)
    · rw [List.mem_singleton.1 hu] at hlu
      exact ⟨ls, as, a, rfl, ha, hlu⟩

/-- A type of more than one level ends with a closing angle. -/
theorem exists_last_angle (h : Derives .type ls [t]) (hl : 1 < t.levels) :
    ∃ ms g, ls = ms ++ [g] ∧ g.token = .punct .greater := by
  obtain ⟨ms, as, a, rfl, ha, -⟩ := h.exists_arguments hl
  cases ha with
  | @typeArguments o c ls _ _ _ hc => exact ⟨ms ++ o :: ls, c, by simp, hc⟩

/-- Behind each item of type arguments stands a comma or the closing angle. -/
theorem closesArgument_of_item {u : Tree} (h : Derives (.separated .comma .type) ls ts) (hu : u ∈ ts)
    (hl : 1 < u.levels) (hc : c.token = .punct .greater) : ClosesArgument (ls ++ [c]) := by
  generalize hX : Phrase.separated .comma .type = X at h
  induction h with
  | last h _ =>
    cases hX
    rw [List.mem_singleton.1 hu] at hl
    obtain ⟨ms, g, rfl, hg⟩ := h.exists_last_angle hl
    exact ⟨ms, g, c, [], by simp, hg, .inr hc⟩
  | @next _ _ ls ms d _ _ h hd _ _ ihm =>
    cases hX
    rcases List.mem_cons.1 hu with rfl | hu
    · obtain ⟨as, g, rfl, hg⟩ := h.exists_last_angle hl
      exact ⟨as, g, d, ms ++ [c], by simp, hg, .inl hd⟩
    · have hrest := (ihm hu rfl).append (ls ++ [d]) []
      simpa using hrest
  | _ => cases hX

/-- In a type of more than two levels a closing angle stands before a comma or before another one. -/
theorem closesArgument (h : Derives .type ls [t]) (hl : 2 < t.levels) : ClosesArgument ls := by
  obtain ⟨ms, as, a, rfl, ha, hla⟩ := h.exists_arguments hl
  cases ha with
  | @typeArguments o c ls ts ho hts hc =>
    obtain ⟨u, hu, hlu⟩ := Tree.exists_of_lt_levels (t := .node .typeArgumentList _ _) hla
    have harguments := (hts.closesArgument_of_item hu hlu hc).append (ms ++ [o]) []
    simpa using harguments

end Derives

/-! ## A larger cap -/

/-- An expression does not start with a type of more than two levels. -/
theorem Derives.levels_le_of_expression {ls ms : List Lexeme} {t x : Tree} (h : Derives .expression (ls ++ ms) [x])
    (ht : Derives .type ls [t]) : t.levels ≤ 2 := by
  by_contra hdeep
  obtain ⟨as, g, m, bs, rfl, hg, hm⟩ := ht.closesArgument (by omega)
  have hgroup := (List.forall_mem_append.1 (ht.opensGroup_eq_false rfl)).1
  have hangles : AnglesCompare (as ++ g :: m :: (bs ++ ms)) := by simpa using h.anglesCompare rfl
  -- the angle would have an operand behind it
  have hoperand := hangles.operand_behind hgroup hg
  rcases hm with hm | hm <;> rw [hm] at hoperand <;> cases hoperand

namespace Parse

variable {cap cap' : Nat}

/-- What is readable within at least two levels is readable within more. -/
theorem Readable.mono {i : DerivedItem} (h : Readable cap i) (h2 : 2 ≤ cap) (hle : cap ≤ cap') : Readable cap' i := by
  refine ⟨Nat.le_trans h.levels hle, fun hk => ?_⟩
  obtain ⟨ls, s, x, hls, hs, hx⟩ := i.derives.exists_semicolon hk
  rw [Bool.eq_false_iff]
  intro hstarts
  rw [hls] at hstarts
  obtain ⟨ms, t, n, o, behind, rfl, ht, -, hn, ho⟩ := exists_type_of_startsMethod hs hstarts
  -- the type that is seen within the larger cap has few enough levels to be seen within the smaller one
  have hlevels := hx.levels_le_of_expression ht
  have hsees : Lookahead.startsMethod cap (ms ++ n :: o :: (behind ++ [s])) = true :=
    startsMethod_append ht (by omega) hn ho
  have hguess := h.guess hk
  rw [hls] at hguess
  simp [hsees] at hguess

end Parse

namespace Session

variable {session : Session} {fileName : String} {doc : Document} {cap cap' : Nat}

/-- A document is read if nothing is faulty, neither before nor now. -/
theorem readWithin_eq_ok_iff : (session.readWithin cap fileName).1 = .ok doc ↔
    session.faults = [] ∧ (Parse.items cap session.stream).faults = [] ∧
      doc = ⟨fileName, session.source,
        .node .unit ⟨0, session.source.size⟩ (Parse.items cap session.stream).nodes⟩ := by
  unfold readWithin
  dsimp only
  constructor
  · intro h
    split at h
    · rename_i hempty
      cases h
      simpa [List.append_eq_nil_iff] using hempty
    · cases h
  · rintro ⟨hbefore, hfaults, rfl⟩
    simp [hbefore, hfaults]

/-- The items under the root of a document that is read. -/
theorem exists_readable (h : (session.readWithin cap fileName).1 = .ok doc) :
    session.faults = [] ∧ ∃ items : List DerivedItem, session.stream.ahead = items.flatMap (·.lexemes) ∧
      doc = ⟨fileName, session.source, .node .unit ⟨0, session.source.size⟩ (items.map (·.tree))⟩ ∧
      ∀ i ∈ items, Parse.Readable cap i := by
  obtain ⟨hbefore, hfaults, rfl⟩ := readWithin_eq_ok_iff.1 h
  obtain ⟨items, hahead, hnodes, hreadable⟩ := Parse.itemsFor_eq_readable (Nat.le_refl _) hfaults
  exact ⟨hbefore, items, hahead, congrArg _ (congrArg _ hnodes), hreadable⟩

/-- What is read within at least two levels is read within more. -/
theorem readWithin_mono (h : (session.readWithin cap fileName).1 = .ok doc) (h2 : 2 ≤ cap) (hle : cap ≤ cap') :
    (session.readWithin cap' fileName).1 = .ok doc := by
  obtain ⟨hbefore, items, hahead, rfl, hreadable⟩ := exists_readable h
  obtain ⟨hnodes, hfaults⟩ := Parse.itemsFor_readable items session.stream.ahead session.stream hahead (Nat.le_refl _)
    fun i hi => (hreadable i hi).mono h2 hle
  exact readWithin_eq_ok_iff.2 ⟨hbefore, hfaults, congrArg _ (congrArg _ hnodes.symm)⟩

/-- One level is not enough: within it a method is read as an expression. -/
example : ∀ cap ∈ [1, 2], ((Session.ofText "A<B> F();").readWithin cap "m.cs").1.toOption.map
    (·.tree.children.map Tree.kind) = some (if cap = 1 then [.expressionStatement] else [.method]) := by
  decide +kernel

end Session

/-! ## Levels along a path -/

/-- The step enters a part as an expression or as an operand: the expression of a statement, the value
of a declaration or a return, an argument, what is between parentheses or behind a prefix operator, or
the body of a lambda that is no block. -/
def Crumb.enters (crumb : Crumb) (part : Kind) : Bool :=
  match crumb.parent.kind with
  | .expressionStatement | .returnStatement | .argument | .parenthesized | .unary => true
  | .localDeclaration => crumb.index == 1
  | .simpleLambda | .parenthesizedLambda => crumb.index == 1 && part != .block
  | _ => false

/-- A lambda is entered in its body, if that is an expression. -/
theorem Kind.enters_of_isExpression {kind part : Kind} (hk : kind.isLambda = true) (hp : part.isExpression = true) :
    kind.enters part = true := by
  cases kind <;> cases hk <;> cases part <;> first | rfl | cases hp

namespace Node

variable {n m : Node}

/-- The levels that steps lead into before they end at a tree, the tree's own included. -/
def nestingOf : List Crumb → Tree → Nat
  | [], t => t.kind.opensLevel.toNat
  | crumb :: above, t => nestingOf above crumb.parent + (crumb.enters t.kind).toNat + t.kind.opensLevel.toNat

/-- The levels of nesting on the path from the root to a node: blocks and types on it, and expressions
and operands that it enters. -/
def nesting (n : Node) : Nat := nestingOf n.above n.tree

/-- A part that a step enters is entered by its kind, whichever part of the tree it is. -/
theorem enters_of_crumb {t u : Tree} {i : Nat} (h : t.kind.admits (t.children.map Tree.kind) = true)
    (hu : t.children[i]? = some u) (he : (⟨t, i⟩ : Crumb).enters u.kind = true) : t.kind.enters u.kind = true := by
  by_cases hlambda : t.kind.isLambda = true
  · have hstep : i = 1 ∧ u.kind ≠ .block := by
      cases hk : t.kind <;> simp [hk, Kind.isLambda] at hlambda <;> simpa [Crumb.enters, hk] using he
    obtain ⟨rfl, hblock⟩ := hstep
    have hbody := Kind.body_of_admits_lambda h hlambda (by rw [List.getElem?_map, hu]; rfl)
    exact Kind.enters_of_isExpression hlambda (hbody.resolve_right hblock)
  · -- of every other kind all parts are entered, or the step enters none
    cases hk : t.kind <;> simp_all [Crumb.enters, Kind.enters, Kind.isLambda]

/-- Along a step down, the levels above grow by no more than those below shrink. -/
theorem nesting_step (h : n.kind.admits (n.tree.children.map Tree.kind) = true) (hm : m ∈ n.children) :
    m.nesting + Tree.levelsBelow m.kind m.tree.children ≤ n.nesting + Tree.levelsBelow n.kind n.tree.children := by
  obtain ⟨i, ht, habove⟩ := mem_children_iff.1 hm
  have hpart : m.tree.levels + (n.kind.enters m.kind).toNat ≤ Tree.levelsBelow n.kind n.tree.children :=
    Tree.levels_le_levelsBelow (List.mem_of_getElem? ht)
  have hlevels : m.tree.levels = m.kind.opensLevel.toNat + Tree.levelsBelow m.kind m.tree.children := m.tree.levels_eq
  have hnesting : m.nesting =
      n.nesting + ((⟨n.tree, i⟩ : Crumb).enters m.kind).toNat + m.kind.opensLevel.toNat := by
    unfold nesting
    rw [habove]
    rfl
  have henters : ((⟨n.tree, i⟩ : Crumb).enters m.kind).toNat ≤ (n.kind.enters m.kind).toNat := by
    cases he : (⟨n.tree, i⟩ : Crumb).enters m.kind with
    | false => exact Nat.zero_le _
    | true => exact Nat.le_of_eq (congrArg _ (enters_of_crumb h ht he).symm)
  omega

end Node

/-- In a document whose root is deep by no more than the cap, no node lies deeper. -/
theorem Document.nesting_le {doc : Document} {n : Node} {cap : Nat} (hshaped : Shaped [doc.tree])
    (hlevels : doc.tree.levels ≤ cap) (hn : n ∈ doc.nodes) : n.nesting ≤ cap := by
  -- the levels above a node and those below it together are never more than the cap
  have hall : n.nesting + Tree.levelsBelow n.kind n.tree.children ≤ cap := by
    refine nodes_induction (P := fun n => n.nesting + Tree.levelsBelow n.kind n.tree.children ≤ cap) ?_ ?_ hn
    · exact Nat.le_trans (Nat.le_of_eq doc.tree.levels_eq.symm) hlevels
    · intro p hp hbound m hm
      exact Nat.le_trans (Node.nesting_step (hshaped.admits_of_mem hp) hm) hbound
  omega

/-! ## What is read -/

namespace Session

/-- What is read is read in the same way within any larger cap, as a tree and into an arena, and no node
of it lies in more levels of nesting than the cap. -/
theorem readWithin_of_read {session : Session} {fileName : String} {doc : Document}
    (h : (session.read fileName).1 = .ok doc) :
    (∀ cap, nestingCap ≤ cap → (session.readWithin cap fileName).1 = .ok doc ∧
      ((ArenaSession.ofSession session).readWithin cap fileName).1 = .ok doc.toArena) ∧
    ∀ n ∈ doc.nodes, n.nesting ≤ nestingCap := by
  constructor
  · intro cap hcap
    have hread := readWithin_mono h (by decide) hcap
    exact ⟨hread, congrArg Prod.fst (ArenaSession.readWithin_of_ok hread)⟩
  · intro n hn
    obtain ⟨-, items, -, rfl, hreadable⟩ := exists_readable h
    refine Document.nesting_le (DerivedItem.shaped_unit items _) ?_ hn
    -- the unit opens no level, and enters none of its items
    refine Nat.le_of_lt_succ (Tree.levels_node_lt_iff.2 fun t ht => ?_)
    obtain ⟨i, hi, rfl⟩ := List.mem_map.1 ht
    exact Nat.lt_succ_of_le (hreadable i hi).levels

/-- A type inside types, and a call behind two signs in a block in a lambda. -/
theorem readWithin_of_read_seven : ∃ doc,
    ((Session.ofText "L<L<T>> F(T a);\nvar x = (b) => { return -(-F(b)); };").read "m.cs").1 = .ok doc ∧
    (doc.nodes.map Node.nesting).max? = some 7 ∧
    ((Session.ofText "L<L<T>> F(T a);\nvar x = (b) => { return -(-F(b)); };").readWithin 1000 "m.cs").1 = .ok doc ∧
    ∀ n ∈ doc.nodes, n.nesting ≤ nestingCap := by
  have hread : ((Session.ofText "L<L<T>> F(T a);\nvar x = (b) => { return -(-F(b)); };").read "m.cs").1.toOption.bind
      (fun doc => (doc.nodes.map Node.nesting).max?) = some 7 := by
    decide +kernel
  obtain ⟨doc, hdoc, hmax⟩ := Option.bind_eq_some_iff.1 hread
  have hok := eq_ok_of_toOption hdoc
  obtain ⟨hlarger, hnesting⟩ := readWithin_of_read hok
  exact ⟨doc, hok, hmax, (hlarger 1000 (by decide)).1, hnesting⟩

end Session

end LetLint
