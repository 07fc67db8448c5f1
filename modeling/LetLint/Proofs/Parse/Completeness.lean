/-
What the grammar derives is read. Each production, given complete productions for the next level
down, reads every phrase of few enough levels that is ahead, provided that what stands behind the
phrase ends it; so the productions of every level are complete, by induction on the levels. Loops
that group to the left are followed along the derivation: behind each operand the loop stands where
the derivation does, with as many rounds left as there are lexemes.
-/
import LetLint.Proofs.Parse.Lookahead
import LetLint.Proofs.Parse.Soundness

namespace LetLint.Parse

open TokenStream

variable {s s' s'' : TokenStream} {ls ms : List Lexeme} {t : Tree} {ts : List Tree} {inner : Nested} {n : Nat}

/-- The production reads every phrase of fewer than `n` levels that something of the given kind
stands behind. -/
def Completes (p : Parse Tree) (X : Phrase) (n : Nat) (Behind : List Lexeme → Prop) : Prop :=
  ∀ ⦃s s' : TokenStream⦄ ⦃ls : List Lexeme⦄ ⦃t : Tree⦄, s.Reads ls s' → Derives X ls [t] → t.levels < n →
    Behind s'.ahead → p s = .ok t s'

/-- The productions of a level are complete with `n` levels left. -/
structure Nested.Complete (inner : Nested) (n : Nat) : Prop where
  type : Completes inner.type .type (n + 1) EndsType
  block : Completes inner.block .block (n + 1) fun _ => True
  expression : Completes inner.expression .expression n (Stops 0)
  operand : Completes inner.operand .unary n (Stops operatorLevels)

/-! ## Steps that are known to succeed -/

theorem expect_bind {α : Type} {f : Unit → Parse α} {l : Lexeme} (slot : Slot) (hl : l.token = .punct slot.punct)
    (hr : s.Reads [l] s') : (expect slot >>= f) s = f () s' := bind_of_ok (expect_eq_ok.2 ⟨l, hl, hr⟩)

theorem name_bind {α : Type} {f : Tree → Parse α} (slot : NameSlot) (hr : s.Reads ls s') (hd : Derives .name ls [t]) :
    (name slot >>= f) s = f t s' := bind_of_ok (name_eq_ok.2 ⟨ls, hr, hd⟩)

theorem advance_bind_of_reads {α : Type} {f : Unit → Parse α} {l : Lexeme} (hr : s.Reads [l] s') :
    (advance >>= f) s = f () s' := by
  rw [advance_bind, (reads_one_iff.1 hr).2]

theorem reads_enclosed {o c : Lexeme} (h : s.Reads (o :: (ls ++ [c])) s') :
    ∃ s₁ s₂, s.Reads [o] s₁ ∧ s₁.Reads ls s₂ ∧ s₂.Reads [c] s' := by
  obtain ⟨s₁, h1, h⟩ := reads_cons_iff.1 h
  obtain ⟨s₂, h2, h3⟩ := reads_append_iff.1 h
  exact ⟨s₁, s₂, h1, h2, h3⟩

theorem isAt_eq_false_of_head {mark : Punct} (h : ∀ l ∈ s.ahead.head?, l.token ≠ .punct mark) :
    s.isAt mark = false := by
  rw [Bool.eq_false_iff]
  intro hat
  obtain ⟨l, hl, hr⟩ := isAt_iff.1 hat
  exact h l (reads_one_iff.1 hr).1 hl

theorem isAt_eq_false_of_opens {X : Phrase} (mark : Punct) (hr : s.Reads ls s') (hd : Derives X ls [t])
    (hX : X.opens (.punct mark) = false) : s.isAt mark = false := by
  obtain ⟨l, ms, rfl, hopens⟩ := hd.exists_head
  rw [hr.isAt, beq_eq_false_iff_ne]
  intro hl
  rw [hl, hX] at hopens
  cases hopens

theorem isAt_eq_true_of_opens {X : Phrase} (mark : Punct) (hr : s.Reads ls s') (hd : Derives X ls [t])
    (hX : ∀ token, X.opens token = (token == .punct mark)) : s.isAt mark = true := by
  obtain ⟨l, ms, rfl, hopens⟩ := hd.exists_head
  rw [hr.isAt, ← hX]
  exact hopens

theorem stops_of_reads {level : Nat} {l : Lexeme} {p : Punct} (hr : s.Reads (l :: ls) s') (hl : l.token = .punct p)
    (hp : p.ends level = true) : Stops level s.ahead := by
  rw [hr.ahead]
  exact .cons hl hp

/-! ## Lists -/

theorem manyFor_none {item? : Parse (Option Tree)} (rounds : List Lexeme) (h : item? s = .ok none s) :
    manyFor item? rounds s = .ok [] s := by
  cases rounds with
  | nil => rfl
  | cons r rounds =>
    unfold manyFor
    rw [bind_of_ok h]
    rfl

theorem manyFor_some {item? : Parse (Option Tree)} (r : Lexeme) {rounds : List Lexeme}
    (h : item? s = .ok (some t) s') (hrest : manyFor item? rounds s' = .ok ts s'') :
    manyFor item? (r :: rounds) s = .ok (t :: ts) s'' := by
  unfold manyFor
  rw [bind_of_ok h]
  show (manyFor item? rounds >>= fun us => pure (t :: us)) s' = _
  rw [bind_of_ok hrest]
  rfl

theorem separatedItem?_some {mark : Punct} {item : Parse Tree} {c : Lexeme} (hc : c.token = .punct mark)
    (hr : s.Reads [c] s') (hi : item s' = .ok t s'') : separatedItem? mark item s = .ok (some t) s'' := by
  unfold separatedItem?
  rw [bind_of_ok (accept_eq_ok_true.2 ⟨c, hc, hr⟩), if_pos rfl, bind_of_ok hi]
  rfl

theorem separatedItem?_none {mark : Punct} {item : Parse Tree} (h : s.isAt mark = false) :
    separatedItem? mark item s = .ok none s := by
  unfold separatedItem?
  rw [bind_of_ok (accept_eq_ok_false.2 ⟨h, rfl⟩), if_neg Bool.false_ne_true]
  rfl

section

variable {item : Parse Tree} {X : Phrase} {Behind : List Lexeme → Prop}

/-- All items behind the first one are read. -/
theorem many_separatedItem?_run {mark : Punct} (hi : Completes item X n Behind)
    (hmark : ∀ {c : Lexeme} {ms : List Lexeme}, c.token = .punct mark → Behind (c :: ms))
    (h : FollowsItem mark X ls ts) (hr : s.Reads ls s') (hl : ∀ t ∈ ts, t.levels < n) (hb : Behind s'.ahead)
    (hat : s'.isAt mark = false) : many (separatedItem? mark item) s = .ok ts s' := by
  unfold many
  rw [stream_bind]
  have hlen : ls.length ≤ s.ahead.length := by rw [hr.ahead]; simp
  generalize s.ahead = rounds at hlen
  refine h.induction (P := fun ls ts => (∀ t ∈ ts, t.levels < n) → ∀ (s : TokenStream) (rounds : List Lexeme),
    s.Reads ls s' → ls.length ≤ rounds.length → manyFor (separatedItem? mark item) rounds s = .ok ts s') ?_ ?_
    hl s rounds hr hlen
  · intro _ s rounds hr _
    obtain rfl := reads_nil_iff.1 hr
    exact manyFor_none rounds (separatedItem?_none hat)
  · intro c ls ms t ts hc ht hf ih hl s rounds hr hlen
    obtain ⟨r, rounds, rfl⟩ := List.exists_cons_of_length_pos (by simp at hlen; omega : 0 < rounds.length)
    obtain ⟨s₁, h1, hr⟩ := reads_cons_iff.1 hr
    obtain ⟨s₂, h2, h3⟩ := reads_append_iff.1 hr
    have hb₂ : Behind s₂.ahead := by
      rw [h3.ahead]
      exact hf.behind hmark hb
    have hitem := hi h2 ht (hl t (by simp)) hb₂
    have hrest := ih (fun u hu => hl u (by simp [hu])) s₂ rounds h3
      (by simp only [List.length_cons, List.length_append] at hlen; omega)
    exact manyFor_some r (separatedItem?_some hc h1 hitem) hrest

theorem commaSeparated_run (hi : Completes item X n Behind)
    (hmark : ∀ {c : Lexeme} {ms : List Lexeme}, c.token = .punct .comma → Behind (c :: ms))
    (h : Derives (.separated .comma X) ls ts) (hr : s.Reads ls s') (hl : ∀ t ∈ ts, t.levels < n)
    (hb : Behind s'.ahead) (hat : s'.isAt .comma = false) : commaSeparated item s = .ok ts s' := by
  obtain ⟨ms, ns, t, us, rfl, rfl, ht, hf⟩ := h.exists_followsItem
  obtain ⟨s₁, h1, h2⟩ := reads_append_iff.1 hr
  have hb₁ : Behind s₁.ahead := by
    rw [h2.ahead]
    exact hf.behind hmark hb
  rw [commaSeparated_eq, bind_of_ok (hi h1 ht (hl t (by simp)) hb₁),
    bind_of_ok (many_separatedItem?_run hi hmark hf h2 (fun u hu => hl u (by simp [hu])) hb hat)]
  rfl

/-- A list between parentheses is read. -/
theorem commaSeparatedBefore_run {c : Lexeme} (hi : Completes item X n Behind)
    (hmark : ∀ {c : Lexeme} {ms : List Lexeme}, c.token = .punct .comma ∨ c.token = .punct .rightParen →
      Behind (c :: ms))
    (hX : X.opens (.punct .rightParen) = false) (h : Derives (.list X) ls ts) (hr : s.Reads ls s')
    (hl : ∀ t ∈ ts, t.levels < n) (hc : c.token = .punct .rightParen) (hrc : s'.Reads [c] s'') :
    commaSeparatedBefore .rightParen item s = .ok ts s' := by
  unfold commaSeparatedBefore
  rw [isAt_bind]
  cases h with
  | noItems =>
    obtain rfl := reads_nil_iff.1 hr
    rw [if_pos (by rw [hrc.isAt, hc]; rfl)]
    rfl
  | items h =>
    have hopen : s.isAt .rightParen = false := by
      obtain ⟨ms, ns, t, us, rfl, rfl, ht, -⟩ := h.exists_followsItem
      obtain ⟨s₁, h1, -⟩ := reads_append_iff.1 hr
      exact isAt_eq_false_of_opens _ h1 ht hX
    rw [hopen, if_neg Bool.false_ne_true]
    refine commaSeparated_run hi (fun hm => hmark (.inl hm)) h hr hl ?_ ?_
    · rw [hrc.ahead]
      exact hmark (.inr hc)
    · rw [hrc.isAt, hc]
      rfl

end

/-! ## Types and parameters -/

theorem typeArgumentList_run (hi : inner.Complete n) (hr : s.Reads ls s') (h : Derives .typeArguments ls [t])
    (hl : t.levels < n + 1) : typeArgumentList inner s = .ok t s' := by
  cases h with
  | typeArguments ho h hc =>
    obtain ⟨s₁, s₂, h1, h2, h3⟩ := reads_enclosed hr
    have hlevels := Tree.levels_node_lt_iff.1 hl
    have hlist := commaSeparated_run hi.type (fun hm => .cons (by rw [hm]; simp) (by rw [hm]; simp)) h h2 hlevels
      (by rw [h3.ahead]; exact .cons (by rw [hc]; simp) (by rw [hc]; simp)) (by rw [h3.isAt, hc]; rfl)
    unfold typeArgumentList
    rw [offset_bind, advance_bind_of_reads h1, bind_of_ok hlist, expect_bind .typeArgumentsClose hc h3]
    exact (close_eq_ok_of_reads hr (by simp)).2 ⟨rfl, rfl⟩

theorem typeBody_eq (inner : Nested) : typeBody inner =
    offset >>= fun start => name .typeName >>= fun first =>
      many (separatedItem? .dot (name .typeSegment)) >>= fun more => isAt .less >>= fun generic =>
        if generic then typeArgumentList inner >>= fun a => close .qualifiedType start (first :: more ++ [a])
        else close .qualifiedType start (first :: more) := rfl

/-- The dotted names of a type are read. -/
theorem names_run (h : Derives (.separated .dot .name) ls ts) (hr : s.Reads ls s') (hat : s'.isAt .dot = false) :
    ∃ u us s₁, ts = u :: us ∧ name .typeName s = .ok u s₁ ∧
      many (separatedItem? .dot (name .typeSegment)) s₁ = .ok us s' := by
  obtain ⟨ms, ns, u, us, rfl, rfl, hu, hf⟩ := h.exists_followsItem
  obtain ⟨s₁, h1, h2⟩ := reads_append_iff.1 hr
  have hname : Completes (name .typeSegment) .name 1 fun _ => True := fun _ _ _ _ hr hd _ _ =>
    name_eq_ok.2 ⟨_, hr, hd⟩
  have hleaves : ∀ v ∈ us, v.levels < 1 := by
    refine hf.induction (P := fun _ us => ∀ v ∈ us, v.levels < 1) (by simp) ?_
    intro c ls ms v vs _ hv _ ih w hw
    rcases List.mem_cons.1 hw with rfl | hw
    · cases hv; simp
    · exact ih w hw
  exact ⟨u, us, s₁, rfl, name_eq_ok.2 ⟨ms, h1, hu⟩,
    many_separatedItem?_run hname (fun _ => trivial) hf h2 hleaves trivial hat⟩

theorem typeBody_completes (hi : inner.Complete n) : Completes (typeBody inner) .type (n + 2) EndsType := by
  intro s s' ls t hr h hl hb
  rw [typeBody_eq, offset_bind]
  cases h with
  | plainType h =>
    have hdot := isAt_eq_false_of_head fun l hl => (hb l hl).1
    have hless := isAt_eq_false_of_head fun l hl => (hb l hl).2
    obtain ⟨u, us, s₁, rfl, h1, h2⟩ := names_run h hr hdot
    rw [bind_of_ok h1, bind_of_ok h2, isAt_bind, hless, if_neg Bool.false_ne_true]
    exact (close_eq_ok_of_reads hr (h.ne_nil (by simp))).2 ⟨rfl, rfl⟩
  | @genericType ls ms ts a h ha =>
    obtain ⟨s₁, h1, h2⟩ := reads_append_iff.1 hr
    obtain ⟨u, us, s₂, rfl, h3, h4⟩ := names_run h h1 (isAt_eq_false_of_opens _ h2 ha rfl)
    have hless : s₁.isAt .less = true := isAt_eq_true_of_opens _ h2 ha fun _ => rfl
    have hla : a.levels < n + 1 := (Tree.levels_node_lt_iff.1 hl) a (by simp)
    rw [bind_of_ok h3, bind_of_ok h4, isAt_bind, if_pos hless, bind_of_ok (typeArgumentList_run hi h2 ha hla)]
    exact (close_eq_ok_of_reads hr (by simp [h.ne_nil])).2 ⟨rfl, rfl⟩

theorem endsType_of_name (hr : s.Reads ls s') (hd : Derives .name ls [t]) : EndsType s.ahead := by
  cases hd with
  | name hl =>
    rw [hr.ahead]
    exact .cons (by rw [hl]; simp) (by rw [hl]; simp)

theorem typedParameter_run {type declared : Tree} (hi : inner.Complete n) (hr : s.Reads (ls ++ ms) s')
    (ht : Derives .type ls [type]) (hn : Derives .name ms [declared]) (hl : type.levels < n + 1) :
    typedParameter inner s = .ok (.node .parameter (cover (ls ++ ms)) [type, declared]) s' := by
  obtain ⟨s₁, h1, h2⟩ := reads_append_iff.1 hr
  unfold typedParameter
  rw [offset_bind, bind_of_ok (hi.type h1 ht hl (endsType_of_name h2 hn)), name_bind .parameterName h2 hn]
  exact (close_eq_ok_of_reads hr (by simp [ht.ne_nil])).2 ⟨rfl, rfl⟩

theorem typedParameter_completes (hi : inner.Complete n) :
    Completes (typedParameter inner) (.parameter true) (n + 1) fun _ => True := by
  intro s s' ls t hr h hl _
  cases h with
  | typedParameter ht hn => exact typedParameter_run hi hr ht hn ((Tree.levels_node_lt_iff.1 hl) _ (by simp))

/-- A parameter of a lambda is over: a comma, a closing parenthesis or an arrow follows. -/
def EndsParameter (rest : List Lexeme) : Prop :=
  ∃ l ms, rest = l :: ms ∧ (l.token = .punct .comma ∨ l.token = .punct .rightParen ∨ l.token = .punct .fatArrow)

theorem bareParameter_run (hr : s.Reads ls s') (h : Derives .bareParameter ls [t]) (hb : EndsParameter s'.ahead) :
    lambdaParameter inner s = .ok t s' := by
  obtain ⟨c, rest, hrest, hc⟩ := hb
  cases h with
  | bareParameter hn =>
    have huntyped : Lookahead.startsUntypedParameter s.ahead = true := by
      rw [hr.ahead, hrest]
      cases hn
      rcases hc with hc | hc | hc <;> simp [Lookahead.startsUntypedParameter, hc]
    unfold lambdaParameter
    rw [stream_bind, if_pos huntyped, offset_bind, name_bind .parameterName hr hn]
    exact (close_eq_ok_of_reads hr (hn.ne_nil (by simp))).2 ⟨rfl, rfl⟩

theorem lambdaParameter_completes (hi : inner.Complete n) :
    Completes (lambdaParameter inner) (.parameter false) (n + 1) EndsParameter := by
  intro s s' ls t hr h hl hb
  cases h with
  | untyped h => exact bareParameter_run hr h hb
  | typedParameter ht hn =>
    have htyped : Lookahead.startsUntypedParameter s.ahead = false := by
      rw [hr.ahead, List.append_assoc]
      cases hn with
      | name hname => exact ht.typed_ahead (by rw [hname]; rfl)
    unfold lambdaParameter
    rw [stream_bind, htyped, if_neg Bool.false_ne_true]
    exact typedParameter_run hi hr ht hn ((Tree.levels_node_lt_iff.1 hl) _ (by simp))

/-! ## Lambdas -/

theorem lambdaBody_run {kind : Kind} (hi : inner.Complete n) (hk : kind.isLambda = true) (hr : s.Reads ls s')
    (h : Derives .lambdaBody ls [t]) (hl : t.levels + (kind.enters t.kind).toNat < n + 1)
    (hb : Stops 0 s'.ahead) : lambdaBody inner s = .ok t s' := by
  unfold lambdaBody
  rw [isAt_bind]
  cases h with
  | bodyBlock h =>
    rw [if_pos (isAt_eq_true_of_opens _ hr h fun _ => rfl)]
    exact hi.block hr h (by omega) trivial
  | bodyValue h =>
    have hexpr : t.kind.isExpression = true := h.yields_one
    have henters : kind.enters t.kind = true := by
      cases kind <;> simp_all [Kind.isLambda, Kind.enters]
      all_goals
        revert hexpr
        cases t.kind <;> decide
    rw [henters, Bool.toNat_true] at hl
    rw [isAt_eq_false_of_opens _ hr h rfl, if_neg Bool.false_ne_true]
    exact hi.expression hr h (by omega) hb

theorem bareLambda_run {a : Lexeme} {p b : Tree} (hi : inner.Complete n) (hr : s.Reads (ls ++ a :: ms) s')
    (hp : Derives .bareParameter ls [p]) (ha : a.token = .punct .fatArrow) (hb : Derives .lambdaBody ms [b])
    (hl : (Tree.node .simpleLambda (cover (ls ++ a :: ms)) [p, b]).levels < n + 1) (hend : Stops 0 s'.ahead) :
    bareLambda inner s = .ok (.node .simpleLambda (cover (ls ++ a :: ms)) [p, b]) s' := by
  obtain ⟨s₁, h1, hrest⟩ := reads_append_iff.1 hr
  obtain ⟨s₂, h2, h3⟩ := reads_cons_iff.1 hrest
  have hlb := (Tree.levels_node_lt_iff.1 hl) b (by simp)
  have harrow : EndsParameter s₁.ahead := ⟨a, _, h2.ahead, .inr (.inr ha)⟩
  unfold bareLambda
  rw [offset_bind, bind_of_ok (bareParameter_run h1 hp harrow), expect_bind .bareLambdaArrow ha h2,
    bind_of_ok (lambdaBody_run hi rfl h3 hb hlb hend)]
  exact (close_eq_ok_of_reads hr (by simp)).2 ⟨rfl, rfl⟩

theorem parenthesizedLambda_run {a : Lexeme} {p b : Tree} (hi : inner.Complete n) (hr : s.Reads (ls ++ a :: ms) s')
    (hp : Derives (.parameters false) ls [p]) (ha : a.token = .punct .fatArrow) (hb : Derives .lambdaBody ms [b])
    (hl : (Tree.node .parenthesizedLambda (cover (ls ++ a :: ms)) [p, b]).levels < n + 1) (hend : Stops 0 s'.ahead) :
    parenthesizedLambda inner s = .ok (.node .parenthesizedLambda (cover (ls ++ a :: ms)) [p, b]) s' := by
  obtain ⟨s₁, h1, hrest⟩ := reads_append_iff.1 hr
  obtain ⟨s₂, h2, h3⟩ := reads_cons_iff.1 hrest
  have hlb := (Tree.levels_node_lt_iff.1 hl) b (by simp)
  have hlp := Nat.lt_of_le_of_lt (Nat.le_add_right _ _) ((Tree.levels_node_lt_iff.1 hl) p (by simp))
  cases hp with
  | parameters ho hps hc =>
    obtain ⟨s₃, s₄, h4, h5, h6⟩ := reads_enclosed h1
    have hlist := commaSeparatedBefore_run (lambdaParameter_completes hi)
      (fun hm => ⟨_, _, rfl, hm.imp id .inl⟩) rfl hps h5 (Tree.levels_node_lt_iff.1 hlp) hc h6
    unfold parenthesizedLambda
    rw [offset_bind, expect_bind .lambdaOpen ho h4, bind_of_ok hlist, expect_bind .lambdaClose hc h6,
      close_bind_of_reads h1 (by simp), expect_bind .lambdaArrow ha h2,
      bind_of_ok (lambdaBody_run hi rfl h3 hb hlb hend)]
    exact (close_eq_ok_of_reads hr (by simp)).2 ⟨rfl, rfl⟩

/-! ## Expressions -/

theorem argument_completes (hi : inner.Complete n) : Completes (argument inner) .argument (n + 1) (Stops 0) := by
  intro s s' ls t hr h hl hb
  cases h with
  | argument h =>
    have hlx := (Tree.levels_node_lt_iff.1 hl) _ (List.mem_singleton_self _)
    unfold argument
    rw [offset_bind, bind_of_ok (hi.expression hr h (by simpa [Kind.enters] using hlx) hb)]
    exact (close_eq_ok_of_reads hr (h.ne_nil (by simp))).2 ⟨rfl, rfl⟩

theorem argumentList_completes (hi : inner.Complete n) :
    Completes (argumentList inner) .arguments (n + 1) fun _ => True := by
  intro s s' ls t hr h hl _
  cases h with
  | arguments ho h hc =>
    obtain ⟨s₁, s₂, h1, h2, h3⟩ := reads_enclosed hr
    have hlist := commaSeparatedBefore_run (argument_completes hi)
      (fun hm => hm.elim (fun hm => .cons hm rfl) fun hm => .cons hm rfl) rfl h h2 (Tree.levels_node_lt_iff.1 hl) hc h3
    unfold argumentList
    rw [offset_bind, expect_bind .argumentsOpen ho h1, bind_of_ok hlist, expect_bind .argumentsClose hc h3]
    exact (close_eq_ok_of_reads hr (by simp)).2 ⟨rfl, rfl⟩

theorem primary_completes (hi : inner.Complete n) : Completes (primary inner) .primary (n + 1) fun _ => True := by
  intro s s' ls t hr h hl _
  unfold primary
  rw [stream_bind]
  cases h with
  | @atom l a hatom =>
    rw [hr.current?]
    have hleaf := leaf_of_reads a hr
    revert hatom
    match l.token with
    | .number _ | .string _ | .identifier _ => intro hatom; cases hatom; exact hleaf
    | .keyword .trueWord | .keyword .falseWord | .keyword .nullWord => intro hatom; cases hatom; exact hleaf
    | .keyword .varWord | .keyword .returnWord | .punct _ => intro hatom; cases hatom
  | group ho h hc =>
    rw [hr.current?, ho]
    obtain ⟨s₁, s₂, h1, h2, h3⟩ := reads_enclosed hr
    have hlx := (Tree.levels_node_lt_iff.1 hl) _ (List.mem_singleton_self _)
    have hend : Stops 0 s₂.ahead := stops_of_reads h3 hc rfl
    show group inner s = _
    unfold group
    rw [offset_bind, advance_bind_of_reads h1,
      bind_of_ok (hi.expression h2 h (by simpa [Kind.enters] using hlx) hend), expect_bind .groupClose hc h3]
    exact (close_eq_ok_of_reads hr (by simp)).2 ⟨rfl, rfl⟩

/-! ## Values that grow -/

theorem growFor_none {more? : Tree → Parse (Option Tree)} {a : Tree} (rounds : List Lexeme)
    (h : more? a s = .ok none s) : growFor more? rounds a s = .ok a s := by
  cases rounds with
  | nil => rfl
  | cons r rounds =>
    unfold growFor
    rw [bind_of_ok h]
    rfl

theorem growFor_some {more? : Tree → Parse (Option Tree)} {a b : Tree} (r : Lexeme) (rounds : List Lexeme)
    (h : more? a s = .ok (some b) s') : growFor more? (r :: rounds) a s = growFor more? rounds b s' := by
  rw [growFor]
  exact bind_of_ok h

/-- The loop stands behind the lexemes with the value, and with a round for each lexeme ahead. -/
def Reaches (p : Parse Tree) (more? : Tree → Parse (Option Tree)) (s : TokenStream) (t : Tree) (s' : TokenStream) :
    Prop :=
  ∃ rounds, s'.ahead.length ≤ rounds.length ∧ p s = growFor more? rounds t s'

namespace Reaches

variable {p : Parse Tree} {more? : Tree → Parse (Option Tree)} {a b : Tree}

theorem first (h : p s = .ok a s') : Reaches (p >>= grow more?) more? s a s' := by
  refine ⟨s'.ahead, Nat.le_refl _, ?_⟩
  rw [bind_of_ok h]
  rfl

/-- A round that takes lexemes leads on. -/
theorem next (h : Reaches p more? s a s') (hr : s'.Reads ms s'') (hne : ms ≠ [])
    (hm : more? a s' = .ok (some b) s'') : Reaches p more? s b s'' := by
  obtain ⟨rounds, hlen, hrun⟩ := h
  have hpos := List.length_pos_of_ne_nil hne
  rw [hr.ahead, List.length_append] at hlen
  obtain ⟨r, rounds, rfl⟩ := List.exists_cons_of_length_pos (by omega : 0 < rounds.length)
  rw [List.length_cons] at hlen
  exact ⟨rounds, by omega, hrun.trans (growFor_some r rounds hm)⟩

theorem stop (h : Reaches p more? s a s') (hm : more? a s' = .ok none s') : p s = .ok a s' := by
  obtain ⟨rounds, -, hrun⟩ := h
  exact hrun.trans (growFor_none rounds hm)

end Reaches

theorem trailer?_invocation {a arguments : Tree} (hi : inner.Complete n) (ha : Derives .call ls [a])
    (hr : s.Reads ms s') (h : Derives .arguments ms [arguments]) (hl : arguments.levels < n + 1) :
    trailer? inner a s = .ok (some (.node .invocation (cover (ls ++ ms)) [a, arguments])) s' := by
  have hopen : s.isAt .leftParen = true := isAt_eq_true_of_opens _ hr h fun _ => rfl
  unfold trailer?
  rw [isAt_bind, if_pos hopen, bind_of_ok (argumentList_completes hi hr h hl trivial), closeFrom_bind, ha.span_eq,
    ← hr.cover_append (ha.ne_nil (by simp)) (h.ne_nil (by simp))]
  rfl

theorem trailer?_access {a member : Tree} {d : Lexeme} (ha : Derives .call ls [a]) (hr : s.Reads (d :: ms) s')
    (hd : d.token = .punct .dot) (h : Derives .name ms [member]) :
    trailer? inner a s = .ok (some (.node .memberAccess (cover (ls ++ d :: ms)) [a, member])) s' := by
  obtain ⟨s₁, h1, h2⟩ := reads_cons_iff.1 hr
  have hclosed : s.isAt .leftParen = false := by rw [h1.isAt, hd]; rfl
  unfold trailer?
  rw [isAt_bind, hclosed, if_neg Bool.false_ne_true, bind_of_ok (accept_eq_ok_true.2 ⟨d, hd, h1⟩), if_pos rfl,
    name_bind .memberName h2 h, closeFrom_bind, ha.span_eq, ← hr.cover_append (ha.ne_nil (by simp)) (by simp)]
  rfl

theorem call_reaches (hi : inner.Complete n) (hr : s.Reads ls s') (h : Derives .call ls [t]) (hl : t.levels < n + 1) :
    Reaches (call inner) (trailer? inner) s t s' := by
  -- along the derivation, which is the order in which the loop takes the trailers
  generalize hX : Phrase.call = X at h
  generalize hts : [t] = ts at h
  induction h generalizing s' t with
  | callee h =>
    obtain rfl := List.singleton_injective hts
    exact .first (primary_completes hi hr h hl trivial)
  | @invocation ls ms f a hf ha ihf _ =>
    obtain rfl := List.singleton_injective hts
    obtain ⟨s₁, h1, h2⟩ := reads_append_iff.1 hr
    have hlevels := Tree.levels_node_lt_iff.1 hl
    have hlf : f.levels < n + 1 := hlevels f (by simp)
    have hla : a.levels < n + 1 := hlevels a (by simp)
    exact (ihf h1 hlf rfl rfl).next h2 (ha.ne_nil (by simp)) (trailer?_invocation hi hf h2 ha hla)
  | @access ls ms d r m hd hdot hm ihr _ =>
    obtain rfl := List.singleton_injective hts
    obtain ⟨s₁, h1, h2⟩ := reads_append_iff.1 hr
    have hlr : r.levels < n + 1 := (Tree.levels_node_lt_iff.1 hl) r (by simp)
    exact (ihr h1 hlr rfl rfl).next h2 (by simp) (trailer?_access hd h2 hdot hm)
  | _ => cases hX

/-- Nothing that ends an operand goes on with a call. -/
theorem trailer?_none_of_stops {level : Nat} {a : Tree} (hb : Stops level s.ahead) :
    trailer? inner a s = .ok none s := by
  obtain ⟨l, rest, p, hrest, hl, hp⟩ := hb
  have hne : p ≠ .leftParen ∧ p ≠ .dot := by
    constructor <;> (rintro rfl; simp [Punct.ends, Punct.level?] at hp)
  have hat : ∀ mark : Punct, p ≠ mark → s.isAt mark = false := by
    intro mark hm
    refine isAt_eq_false_of_head ?_
    rw [hrest]
    rintro m ⟨⟩
    rw [hl]
    simpa using hm
  unfold trailer?
  rw [isAt_bind, hat _ hne.1, if_neg Bool.false_ne_true, bind_of_ok (accept_eq_ok_false.2 ⟨hat _ hne.2, rfl⟩),
    if_neg Bool.false_ne_true]
  rfl

theorem call_completes (hi : inner.Complete n) : Completes (call inner) .call (n + 1) (Stops operatorLevels) := by
  intro s s' ls t hr h hl hb
  exact (call_reaches hi hr h hl).stop (trailer?_none_of_stops hb)

theorem unary_completes (hi : inner.Complete n) : Completes (unary inner) .unary (n + 1) (Stops operatorLevels) := by
  intro s s' ls t hr h hl hb
  unfold unary
  rw [offset_bind]
  cases h with
  | @signed o p ls x ho hp h =>
    obtain ⟨s₁, h1, h2⟩ := reads_cons_iff.1 hr
    have hmem : p ∈ [Punct.bang, .minus] := by cases p <;> simp_all [Punct.isSign]
    have hlx := (Tree.levels_node_lt_iff.1 hl) x (by simp)
    rw [bind_of_ok (acceptAny_eq_ok_true.2 ⟨o, p, ho, hmem, h1⟩), if_pos rfl,
      bind_of_ok (hi.operand h2 h (by simpa [Kind.enters] using hlx) hb)]
    exact (close_eq_ok_of_reads hr (by simp)).2 ⟨rfl, rfl⟩
  | unsigned h =>
    have hnone : [Punct.bang, .minus].any s.isAt = false := by
      simp [isAt_eq_false_of_opens .bang hr h rfl, isAt_eq_false_of_opens .minus hr h rfl]
    rw [bind_of_ok (acceptAny_eq_ok_false.2 ⟨hnone, rfl⟩), if_neg Bool.false_ne_true]
    exact call_completes hi hr h hl hb

/-! ## Binary operators -/

section

variable {operators : List Punct} {operand : Parse Tree} {k : Nat} {a b : Tree}

theorem operation?_some {o : Lexeme} {p : Punct} (ha : Derives (.binary k) ls [a]) (hr : s.Reads (o :: ms) s')
    (ho : o.token = .punct p) (hp : p ∈ operators)
    (hb : ∀ {s₁ : TokenStream}, s₁.Reads ms s' → operand s₁ = .ok b s') :
    operation? operators operand a s = .ok (some (.node .binary (cover (ls ++ o :: ms)) [a, b])) s' := by
  obtain ⟨s₁, h1, h2⟩ := reads_cons_iff.1 hr
  unfold operation?
  rw [bind_of_ok (acceptAny_eq_ok_true.2 ⟨o, p, ho, hp, h1⟩), if_pos rfl, bind_of_ok (hb h2), closeFrom_bind,
    ha.span_eq, ← hr.cover_append (ha.ne_nil (by simp)) (by simp)]
  rfl

/-- Nothing that ends an operand of a level is an operator of it. -/
theorem operation?_none_of_stops (hops : ∀ p, p ∈ operators ↔ p.level? = some k) (hb : Stops k s.ahead) :
    operation? operators operand a s = .ok none s := by
  obtain ⟨l, rest, p, hrest, hl, hp⟩ := hb
  have hnone : operators.any s.isAt = false := by
    rw [Bool.eq_false_iff]
    intro hany
    obtain ⟨q, hq, hat⟩ := List.any_eq_true.1 hany
    obtain ⟨l', hl', hr⟩ := isAt_iff.1 hat
    have hsame : l' = l := by
      have hhead := (reads_one_iff.1 hr).1
      rw [hrest] at hhead
      exact (Option.some.inj hhead).symm
    rw [hsame, hl] at hl'
    cases hl'
    have hlevel := (hops p).1 hq
    cases p <;> simp_all [Punct.ends, Punct.level?]
  unfold operation?
  rw [bind_of_ok (acceptAny_eq_ok_false.2 ⟨hnone, rfl⟩), if_neg Bool.false_ne_true]
  rfl

theorem binaryLevel_reaches (hops : ∀ p, p ∈ operators ↔ p.level? = some k) (hk : k ≠ operatorLevels)
    (hi : Completes operand (.binary (k + 1)) (n + 1) (Stops (k + 1))) (hr : s.Reads ls s')
    (h : Derives (.binary k) ls [t]) (hl : t.levels < n + 1) (hb : Stops (k + 1) s'.ahead) :
    Reaches (binaryLevel operators operand) (operation? operators operand) s t s' := by
  -- along the derivation, which is the order in which the loop takes the operators of the level
  generalize hX : Phrase.binary k = X at h
  generalize hts : [t] = ts at h
  induction h generalizing s' t with
  | operand h =>
    cases hX
    exact absurd rfl hk
  | stronger h =>
    cases hX
    obtain rfl := List.singleton_injective hts
    exact .first (hi hr h hl hb)
  | @operation j ls ms o p a b ha ho hp hd iha _ =>
    cases hX
    obtain rfl := List.singleton_injective hts
    obtain ⟨s₁, h1, h2⟩ := reads_append_iff.1 hr
    have hlevels := Tree.levels_node_lt_iff.1 hl
    have hla : a.levels < n + 1 := hlevels a (by simp)
    have hlb : b.levels < n + 1 := hlevels b (by simp)
    have hends : Stops (k + 1) s₁.ahead := stops_of_reads h2 ho (by simp [Punct.ends, hp])
    exact (iha h1 hla hends rfl rfl).next h2 (by simp)
      (operation?_some ha h2 ho ((hops p).2 hp) fun h3 => hi h3 hd hlb hb)
  | _ => cases hX

theorem binaryLevel_completes (hops : ∀ p, p ∈ operators ↔ p.level? = some k) (hk : k ≠ operatorLevels)
    (hi : Completes operand (.binary (k + 1)) (n + 1) (Stops (k + 1))) :
    Completes (binaryLevel operators operand) (.binary k) (n + 1) (Stops k) := by
  intro s s' ls t hr h hl hb
  exact (binaryLevel_reaches hops hk hi hr h hl (hb.mono (Nat.le_succ k))).stop (operation?_none_of_stops hops hb)

end

/-- There are no levels beyond the operands. -/
theorem level_le_of_derives {k : Nat} (h : Derives (.binary k) ls ts) : k ≤ operatorLevels := by
  generalize hX : Phrase.binary k = X at h
  induction h generalizing k with
  | operand _ =>
    cases hX
    exact Nat.le_refl _
  | stronger _ ih =>
    cases hX
    exact Nat.le_of_succ_le (ih rfl)
  | operation _ _ _ _ iha _ =>
    cases hX
    exact iha rfl
  | _ => cases hX

theorem binary_completes (hi : inner.Complete n) : Completes (binary inner) (.binary 0) (n + 1) (Stops 0) := by
  -- beyond the strongest operators only operands are left
  have hu : Completes (unary inner) (.binary operatorLevels) (n + 1) (Stops operatorLevels) := by
    intro s s' ls t hr h hl hb
    generalize hk : operatorLevels = k at h
    cases h with
    | operand h => exact unary_completes hi hr h hl hb
    | stronger h =>
      subst hk
      exact absurd (level_le_of_derives h) (by decide)
    | @operation _ _ _ _ p _ _ _ _ hp _ =>
      subst hk
      cases p <;> cases hp
  show Completes (binaryOperators.foldr binaryLevel (unary inner)) (.binary 0) (n + 1) (Stops 0)
  simp only [binaryOperators, List.foldr_cons, List.foldr_nil]
  iterate 6 refine binaryLevel_completes (by intro p; cases p <;> decide) (by decide) ?_
  exact hu

theorem expressionBody_completes (hi : inner.Complete n) :
    Completes (expressionBody inner) .expression (n + 1) (Stops 0) := by
  intro s s' ls t hr h hl hb
  unfold expressionBody
  rw [stream_bind, hr.ahead]
  cases h with
  | bareLambda hp ha hbody =>
    rw [List.append_assoc, List.cons_append, if_pos (hp.bareLambda_ahead ha)]
    exact bareLambda_run hi hr hp ha hbody hl hb
  | lambda hp ha hbody =>
    rw [List.append_assoc, List.cons_append]
    obtain ⟨hbare, hparens⟩ := hp.lambda_ahead ha
    rw [hbare, if_neg Bool.false_ne_true, if_pos hparens]
    exact parenthesizedLambda_run hi hr hp ha hbody hl hb
  | noLambda h =>
    have harrow : ∀ l ∈ s'.ahead.head?, l.token ≠ .punct .fatArrow := by
      obtain ⟨l, rest, p, hrest, hpt, hp⟩ := hb
      rw [hrest]
      rintro m ⟨⟩ harrow
      rw [hpt] at harrow
      cases harrow
      cases hp
    -- what ends an expression is no arrow, so neither guess is made
    obtain ⟨hbare, hparens⟩ := h.no_lambda rfl harrow
    rw [hbare, if_neg Bool.false_ne_true, hparens, if_neg Bool.false_ne_true]
    exact binary_completes hi hr h hl hb

/-! ## Statements -/

theorem localDeclaration_run {v e c : Lexeme} {declared value : Tree} (hi : inner.Complete n)
    (hr : s.Reads (v :: (ls ++ e :: (ms ++ [c]))) s') (hn : Derives .name ls [declared])
    (he : e.token = .punct .equal) (hx : Derives .expression ms [value]) (hc : c.token = .punct .semicolon)
    (hl : value.levels < n) : localDeclaration inner s =
      .ok (.node .localDeclaration (cover (v :: (ls ++ e :: (ms ++ [c])))) [declared, value]) s' := by
  obtain ⟨s₁, h1, hrest⟩ := reads_cons_iff.1 hr
  obtain ⟨s₂, h2, hrest⟩ := reads_append_iff.1 hrest
  obtain ⟨s₃, s₄, h3, h4, h5⟩ := reads_enclosed hrest
  have hend : Stops 0 s₄.ahead := stops_of_reads h5 hc rfl
  unfold localDeclaration
  rw [offset_bind, advance_bind_of_reads h1, name_bind .localName h2 hn, expect_bind .localEqual he h3,
    bind_of_ok (hi.expression h4 hx hl hend), expect_bind .localEnd hc h5]
  exact (close_eq_ok_of_reads hr (by simp)).2 ⟨rfl, rfl⟩

theorem returnNothing_run {r c : Lexeme} (hr : s.Reads [r, c] s') (hc : c.token = .punct .semicolon) :
    returnStatement inner s = .ok (.node .returnStatement (cover [r, c]) []) s' := by
  obtain ⟨s₁, h1, h2⟩ := reads_cons_iff.1 hr
  have hat : s₁.isAt .semicolon = true := by rw [h2.isAt, hc]; rfl
  unfold returnStatement
  rw [offset_bind, advance_bind_of_reads h1, isAt_bind, if_pos hat, pure_bind_run]
  show (expect .returnEnd >>= fun _ => close .returnStatement s.place.offset []) s₁ = _
  rw [expect_bind .returnEnd hc h2]
  exact (close_eq_ok_of_reads hr (by simp)).2 ⟨rfl, rfl⟩

theorem returnValue_run {r c : Lexeme} {value : Tree} (hi : inner.Complete n) (hr : s.Reads (r :: (ls ++ [c])) s')
    (hx : Derives .expression ls [value]) (hc : c.token = .punct .semicolon) (hl : value.levels < n) :
    returnStatement inner s = .ok (.node .returnStatement (cover (r :: (ls ++ [c]))) [value]) s' := by
  obtain ⟨s₁, s₂, h1, h2, h3⟩ := reads_enclosed hr
  have hend : Stops 0 s₂.ahead := stops_of_reads h3 hc rfl
  unfold returnStatement
  rw [offset_bind, advance_bind_of_reads h1, isAt_bind, isAt_eq_false_of_opens _ h2 hx rfl,
    if_neg Bool.false_ne_true, bind_of_ok (hi.expression h2 hx hl hend), pure_bind_run]
  show (expect .returnEnd >>= fun _ => close .returnStatement s.place.offset [value]) s₂ = _
  rw [expect_bind .returnEnd hc h3]
  exact (close_eq_ok_of_reads hr (by simp)).2 ⟨rfl, rfl⟩

theorem expressionStatement_run {c : Lexeme} {value : Tree} (hi : inner.Complete n) (hr : s.Reads (ls ++ [c]) s')
    (hx : Derives .expression ls [value]) (hc : c.token = .punct .semicolon) (hl : value.levels < n) :
    expressionStatement inner s = .ok (.node .expressionStatement (cover (ls ++ [c])) [value]) s' := by
  obtain ⟨s₁, h1, h2⟩ := reads_append_iff.1 hr
  have hend : Stops 0 s₁.ahead := stops_of_reads h2 hc rfl
  unfold expressionStatement
  rw [offset_bind, bind_of_ok (hi.expression h1 hx hl hend), expect_bind .statementEnd hc h2]
  exact (close_eq_ok_of_reads hr (by simp)).2 ⟨rfl, rfl⟩

/-- A token that opens an expression opens no other statement. -/
theorem statement_of_opens {token : Token} (hc : s.current? = some token) (h : token.opensExpression = true) :
    statement inner s = expressionStatement inner s := by
  unfold statement
  rw [stream_bind, hc]
  match token, h with
  | .keyword .trueWord, _ | .keyword .falseWord, _ | .keyword .nullWord, _ => rfl
  | .identifier _, _ | .string _, _ | .number _, _ => rfl
  | .punct .leftParen, _ | .punct .bang, _ | .punct .minus, _ => rfl

theorem statement_completes (hi : inner.Complete n) :
    Completes (statement inner) .statement (n + 1) fun _ => True := by
  intro s s' ls t hr h hl _
  cases h with
  | @localDeclaration v e c ls ms declared value hv hn he hx hc =>
    have hlx := (Tree.levels_node_lt_iff.1 hl) value (by simp)
    unfold statement
    rw [stream_bind, hr.current?, hv]
    exact localDeclaration_run hi hr hn he hx hc (by simpa [Kind.enters] using hlx)
  | returnNothing hret hc =>
    unfold statement
    rw [stream_bind, hr.current?, hret]
    exact returnNothing_run hr hc
  | @returnValue r c ls value hret hx hc =>
    have hlx := (Tree.levels_node_lt_iff.1 hl) value (by simp)
    unfold statement
    rw [stream_bind, hr.current?, hret]
    exact returnValue_run hi hr hx hc (by simpa [Kind.enters] using hlx)
  | blockStatement h =>
    obtain ⟨o, os, rfl, ho⟩ := h.exists_head
    have hbrace : o.token = .punct .leftBrace := by simpa [Phrase.opens] using ho
    unfold statement
    rw [stream_bind, hr.current?, hbrace]
    exact hi.block hr h hl trivial
  | @expressionStatement c ls value hx hc =>
    have hlx := (Tree.levels_node_lt_iff.1 hl) value (by simp)
    obtain ⟨l, rest, rfl, hopens⟩ := hx.exists_head
    rw [statement_of_opens hr.current? hopens]
    exact expressionStatement_run hi hr hx hc (by simpa [Kind.enters] using hlx)

theorem blockItem?_some (hi : inner.Complete n) (hr : s.Reads ls s') (h : Derives .statement ls [t])
    (hl : t.levels < n + 1) : blockItem? inner s = .ok (some t) s' := by
  have hat : s.isAt .rightBrace = false := isAt_eq_false_of_opens _ hr h rfl
  have hne : s.ahead.isEmpty = false := by
    rw [hr.ahead]
    simp [h.ne_nil]
  unfold blockItem?
  rw [stream_bind, hat, hne, Bool.or_self, if_neg Bool.false_ne_true,
    bind_of_ok (statement_completes hi hr h hl trivial)]
  rfl

theorem blockItem?_none (h : s.isAt .rightBrace = true) : blockItem? inner s = .ok none s := by
  unfold blockItem?
  rw [stream_bind, h, Bool.true_or, if_pos rfl]
  rfl

theorem many_blockItem?_run (hi : inner.Complete n) (hr : s.Reads ls s') (h : Derives .statements ls ts)
    (hl : ∀ t ∈ ts, t.levels < n + 1) (hat : s'.isAt .rightBrace = true) :
    many (blockItem? inner) s = .ok ts s' := by
  unfold many
  rw [stream_bind]
  have hlen : ls.length ≤ s.ahead.length := by rw [hr.ahead]; simp
  generalize s.ahead = rounds at hlen
  generalize hX : Phrase.statements = X at h
  induction h generalizing s rounds with
  | noStatements =>
    obtain rfl := reads_nil_iff.1 hr
    exact manyFor_none rounds (blockItem?_none hat)
  | @statements ls ms t ts h _ _ ih =>
    obtain ⟨s₁, h1, h2⟩ := reads_append_iff.1 hr
    have hpos := List.length_pos_of_ne_nil (h.ne_nil (by simp))
    rw [List.length_append] at hlen
    obtain ⟨r, rounds, rfl⟩ := List.exists_cons_of_length_pos (by omega : 0 < rounds.length)
    rw [List.length_cons] at hlen
    have hrest := ih h2 (fun u hu => hl u (by simp [hu])) rounds (by omega) rfl
    exact manyFor_some r (blockItem?_some hi h1 h (hl t (by simp))) hrest
  | _ => cases hX

theorem blockBody_completes (hi : inner.Complete n) : Completes (blockBody inner) .block (n + 2) fun _ => True := by
  intro s s' ls t hr h hl _
  cases h with
  | block ho h hc =>
    obtain ⟨s₁, s₂, h1, h2, h3⟩ := reads_enclosed hr
    have hat : s₂.isAt .rightBrace = true := by rw [h3.isAt, hc]; rfl
    unfold blockBody
    rw [offset_bind, expect_bind .blockOpen ho h1,
      bind_of_ok (many_blockItem?_run hi h2 h (Tree.levels_node_lt_iff.1 hl) hat), expect_bind .blockClose hc h3]
    exact (close_eq_ok_of_reads hr (by simp)).2 ⟨rfl, rfl⟩

/-! ## Levels and items -/

/-- The productions of every level are complete. -/
theorem nested_complete (cap : Nat) : ∀ n, (nested cap n).Complete n
  | 0 => by
    refine ⟨?_, ?_, ?_, ?_⟩
    · -- a type opens a level, and so does a block
      intro s s' ls t _ h hl _
      cases h <;> simp [Kind.opensLevel] at hl
    · intro s s' ls t _ h hl _
      cases h
      simp [Kind.opensLevel] at hl
    · intro s s' ls t _ _ hl _
      exact absurd hl (Nat.not_lt_zero _)
    · intro s s' ls t _ _ hl _
      exact absurd hl (Nat.not_lt_zero _)
  | n + 1 =>
    have hi := nested_complete cap n
    ⟨typeBody_completes hi, blockBody_completes hi, expressionBody_completes hi, unary_completes hi⟩

theorem methodDeclaration_run {ps : List Lexeme} {c : Lexeme} {type declared list : Tree} (hi : inner.Complete n)
    (hr : s.Reads (ls ++ (ms ++ (ps ++ [c]))) s') (ht : Derives .type ls [type]) (hn : Derives .name ms [declared])
    (hp : Derives (.parameters true) ps [list]) (hc : c.token = .punct .semicolon) (hlt : type.levels < n + 1)
    (hlp : list.levels < n + 1) :
    methodDeclaration inner s = .ok (.node .method (cover (ls ++ (ms ++ (ps ++ [c])))) [type, declared, list]) s' := by
  obtain ⟨s₁, h1, hrest⟩ := reads_append_iff.1 hr
  obtain ⟨s₂, h2, hrest⟩ := reads_append_iff.1 hrest
  obtain ⟨s₃, h3, h4⟩ := reads_append_iff.1 hrest
  cases hp with
  | parameters ho hps hclose =>
    obtain ⟨s₄, s₅, h5, h6, h7⟩ := reads_enclosed h3
    have hlist := commaSeparatedBefore_run (typedParameter_completes hi) (fun _ => trivial) rfl hps h6
      (Tree.levels_node_lt_iff.1 hlp) hclose h7
    unfold methodDeclaration
    rw [offset_bind, bind_of_ok (hi.type h1 ht hlt (endsType_of_name h2 hn)), name_bind .methodName h2 hn, offset_bind,
      expect_bind .methodOpen ho h5, bind_of_ok hlist, expect_bind .methodClose hclose h7,
      close_bind_of_reads h3 (by simp), expect_bind .methodEnd hc h4]
    exact (close_eq_ok_of_reads hr (by simp [ht.ne_nil])).2 ⟨rfl, rfl⟩

/-- An item is read, unless it is an expression that looks like a method. -/
theorem item_run {cap : Nat} (hr : s.Reads ls s') (h : Derives .item ls [t]) (hl : t.levels < cap + 1)
    (hm : t.kind = .expressionStatement → Lookahead.startsMethod cap ls = false) : item cap s = .ok t s' := by
  have hi := nested_complete cap cap
  unfold item
  rw [stream_bind, hr.ahead]
  cases h with
  | @method ls ms ps c type declared list ht hn hp hc =>
    have hlevels := Tree.levels_node_lt_iff.1 hl
    have hlt : type.levels < cap + 1 := hlevels type (by simp)
    have hlp : list.levels < cap + 1 := hlevels list (by simp)
    have hstarts : Lookahead.startsMethod cap (ls ++ (ms ++ (ps ++ [c])) ++ s'.ahead) = true := by
      obtain ⟨o, os, rfl, ho⟩ := hp.exists_head
      cases hn with
      | name hname =>
        have hopen : o.token = .punct .leftParen := by simpa [Phrase.opens] using ho
        simpa using startsMethod_append ht hlt (by rw [hname]; rfl) hopen
    rw [if_pos hstarts]
    exact methodDeclaration_run hi hr ht hn hp hc hlt hlp
  | itemStatement h =>
    have hstarts : Lookahead.startsMethod cap (ls ++ s'.ahead) = false := by
      cases h with
      | localDeclaration hv _ _ _ _ => exact startsMethod_eq_false (by rw [hv]; rfl)
      | returnNothing hret _ | returnValue hret _ _ => exact startsMethod_eq_false (by rw [hret]; rfl)
      | blockStatement h =>
        obtain ⟨o, os, rfl, ho⟩ := h.exists_head
        have hbrace : o.token = .punct .leftBrace := by simpa [Phrase.opens] using ho
        exact startsMethod_eq_false (by rw [hbrace]; rfl)
      | expressionStatement _ hc =>
        -- the guess never looks beyond the semicolon, so it is about the item alone
        rw [List.append_assoc, List.singleton_append, startsMethod_semicolon cap hc]
        exact hm rfl
    rw [hstarts, if_neg Bool.false_ne_true]
    exact statement_completes hi hr h hl trivial

/-- The item is within the levels, and is no expression that looks like a method. -/
structure Readable (cap : Nat) (i : DerivedItem) : Prop where
  levels : i.tree.levels ≤ cap
  guess : i.tree.kind = .expressionStatement → Lookahead.startsMethod cap i.lexemes = false

/-- An expression that does not open like a method does not look like one. -/
theorem Readable.of_not_opens {cap : Nat} {i : DerivedItem} (hl : i.tree.levels ≤ cap)
    (hm : i.tree.kind = .expressionStatement → ¬ OpensMethod i.lexemes) : Readable cap i := by
  refine ⟨hl, fun hk => ?_⟩
  obtain ⟨ls, c, -, hls, hc, -⟩ := i.derives.exists_semicolon hk
  rw [hls, Bool.eq_false_iff]
  intro hstarts
  exact hm hk (hls ▸ opensMethod_of_startsMethod hc hstarts)

/-- All items that are ahead are read, without a fault. -/
theorem itemsFor_readable {cap : Nat} : ∀ (items : List DerivedItem) (rounds : List Lexeme) (s : TokenStream),
    s.ahead = items.flatMap (·.lexemes) → s.ahead.length ≤ rounds.length → (∀ i ∈ items, Readable cap i) →
    (itemsFor cap rounds s).nodes = items.map (·.tree) ∧ (itemsFor cap rounds s).faults = []
  | [], rounds, s, hahead, _, _ => by
    cases rounds with
    | nil => exact ⟨rfl, rfl⟩
    | cons r rounds =>
      have hempty : s.ahead.isEmpty = true := by rw [hahead]; rfl
      unfold itemsFor
      rw [Builder.stream_eq, if_pos hempty]
      exact ⟨rfl, rfl⟩
  | i :: items, rounds, s, hahead, hlen, hreadable => by
    rw [List.flatMap_cons] at hahead
    obtain ⟨s', hr, hrest⟩ := exists_reads i.lexemes s hahead
    have hpos := List.length_pos_of_ne_nil (i.derives.ne_nil (by simp))
    rw [hr.ahead, List.length_append] at hlen
    obtain ⟨r, rounds, rfl⟩ := List.exists_cons_of_length_pos (by omega : 0 < rounds.length)
    rw [List.length_cons] at hlen
    have hne : s.ahead.isEmpty = false := by
      rw [hr.ahead]
      simp [i.derives.ne_nil]
    obtain ⟨hfirst, hmore⟩ := List.forall_mem_cons.1 hreadable
    have hitem : item cap s = .ok i.tree s' := item_run hr i.derives (Nat.lt_succ_of_le hfirst.levels) hfirst.guess
    obtain ⟨htrees, hfaults⟩ := itemsFor_readable items rounds s' hrest (by omega) hmore
    unfold itemsFor
    rw [Builder.stream_eq, hne, if_neg Bool.false_ne_true, hitem]
    simp only [List.map_cons, htrees, hfaults, and_self]

theorem itemsFor_run {cap : Nat} (items : List DerivedItem) (rounds : List Lexeme) (s : TokenStream)
    (hahead : s.ahead = items.flatMap (·.lexemes)) (hlen : s.ahead.length ≤ rounds.length)
    (hlevels : ∀ i ∈ items, i.tree.levels ≤ cap)
    (hmethods : ∀ i ∈ items, i.tree.kind = .expressionStatement → ¬ OpensMethod i.lexemes) :
    (itemsFor cap rounds s).nodes = items.map (·.tree) ∧ (itemsFor cap rounds s).faults = [] :=
  itemsFor_readable items rounds s hahead hlen fun i hi => .of_not_opens (hlevels i hi) (hmethods i hi)

theorem methodDeclaration_kind (h : methodDeclaration inner s = .ok t s') : t.kind = .method := by
  unfold methodDeclaration at h
  rw [offset_bind] at h
  obtain ⟨_, _, -, h⟩ := bind_eq_ok.1 h
  obtain ⟨_, _, -, h⟩ := bind_eq_ok.1 h
  rw [offset_bind] at h
  obtain ⟨_, _, -, h⟩ := bind_eq_ok.1 h
  obtain ⟨_, _, -, h⟩ := bind_eq_ok.1 h
  obtain ⟨_, _, -, h⟩ := bind_eq_ok.1 h
  obtain ⟨_, _, -, h⟩ := bind_eq_ok.1 h
  obtain ⟨_, _, -, h⟩ := bind_eq_ok.1 h
  obtain ⟨rfl, -⟩ := close_eq_ok.1 h
  rfl

/-- An expression that was read does not look like a method, whatever stood behind it. -/
theorem startsMethod_of_item {cap : Nat} (hr : s.Reads ls s') (hd : Derives .item ls [t]) (h : item cap s = .ok t s')
    (hk : t.kind = .expressionStatement) : Lookahead.startsMethod cap ls = false := by
  obtain ⟨ms, c, -, rfl, hc, -⟩ := hd.exists_semicolon hk
  unfold item at h
  rw [stream_bind] at h
  split at h
  · cases (methodDeclaration_kind h).symm.trans hk
  · rename_i hstarts
    rwa [hr.ahead, List.append_assoc, List.singleton_append, startsMethod_semicolon cap hc, Bool.not_eq_true] at hstarts

/-- Items read to the end without a fault are readable. -/
theorem itemsFor_eq_readable {cap : Nat} {rounds : List Lexeme} {s : TokenStream}
    (hlen : s.ahead.length ≤ rounds.length) (hf : (itemsFor cap rounds s).faults = []) :
    ∃ items : List DerivedItem, s.ahead = items.flatMap (·.lexemes) ∧
      (itemsFor cap rounds s).nodes = items.map (·.tree) ∧ ∀ i ∈ items, Readable cap i := by
  obtain ⟨items, hahead, hnodes, hlevels, hread⟩ := itemsFor_derived rounds s hlen hf
  refine ⟨items, hahead, hnodes, fun i hi => ⟨hlevels i hi, fun hk => ?_⟩⟩
  obtain ⟨s, s', hr, hitem⟩ := hread i hi
  exact startsMethod_of_item hr i.derives hitem hk

end LetLint.Parse

namespace LetLint

/-- Whatever the grammar derives within the cap is read as it is derived and without a fault, unless an
expression at the top opens like a method: the items are given as their lexemes, and come back as
their trees. -/
theorem read_complete (items : List DerivedItem) (source : Source) (finish : Mark) (fileName : String)
    (hlevels : ∀ i ∈ items, i.tree.levels ≤ nestingCap)
    (hmethods : ∀ i ∈ items, i.tree.kind = .expressionStatement → ¬ OpensMethod i.lexemes) :
    (Session.read ⟨source, .ofTokens ⟨items.flatMap (·.lexemes), finish⟩, []⟩ fileName).1 =
        .ok ⟨fileName, source, .node .unit ⟨0, source.size⟩ (items.map (·.tree))⟩ ∧
      (Session.read ⟨source, .ofTokens ⟨items.flatMap (·.lexemes), finish⟩, []⟩ fileName).2.faults = [] := by
  obtain ⟨htrees, hfaults⟩ := @Parse.itemsFor_run nestingCap items _
    (.ofTokens ⟨items.flatMap (·.lexemes), finish⟩) rfl (Nat.le_refl _) hlevels hmethods
  unfold Session.read Session.readWithin Parse.items
  simp only [htrees, hfaults, List.map_nil, List.append_nil, List.isEmpty_nil, if_true, and_self]

/-- A token on the first line, between two offsets. -/
def lexemeAt (token : Token) (start stop : Nat) : Lexeme := ⟨token, ⟨start, 1, start + 1⟩, stop⟩

/-- `T F();` -/
def shortMethod : DerivedItem where
  lexemes := _
  tree := _
  derives := .method (s := lexemeAt (.punct .semicolon) 5 6)
    (.plainType (.last (.name (l := lexemeAt (.identifier "T") 0 1) rfl)))
    (.name (l := lexemeAt (.identifier "F") 2 3) rfl)
    (.parameters (o := lexemeAt (.punct .leftParen) 3 4) (c := lexemeAt (.punct .rightParen) 4 5) rfl .noItems rfl) rfl

/-- `x=>-x;` behind it. -/
def negation : DerivedItem where
  lexemes := _
  tree := _
  derives := .itemStatement <| .expressionStatement (s := lexemeAt (.punct .semicolon) 11 12)
    (.bareLambda (a := lexemeAt (.punct .fatArrow) 7 9)
      (.bareParameter (.name (l := lexemeAt (.identifier "x") 6 7) rfl)) rfl <| .bodyValue <| .noLambda <|
        .stronger <| .stronger <| .stronger <| .stronger <| .stronger <| .stronger <|
        .operand <| .signed (o := lexemeAt (.punct .minus) 9 10) (p := .minus) rfl rfl <| .unsigned <| .callee <|
          .atom (l := lexemeAt (.identifier "x") 10 11) (a := .identifier "x") rfl) rfl

theorem read_complete_negation :
    (Session.read ⟨.ofText "T F();x=>-x;", .ofTokens ⟨[shortMethod, negation].flatMap (·.lexemes), ⟨12, 1, 13⟩⟩, []⟩
      "m.cs").1 =
      .ok ⟨"m.cs", .ofText "T F();x=>-x;", .node .unit ⟨0, 12⟩ [shortMethod.tree, negation.tree]⟩ ∧
    tokenize "T F();x=>-x;" = .ok ⟨[shortMethod, negation].flatMap (·.lexemes), ⟨12, 1, 13⟩⟩ := by
  refine ⟨(read_complete [shortMethod, negation] _ _ _ (by decide +kernel) ?_).1, by decide +kernel⟩
  -- there is no parenthesis in the lambda that could open parameters
  rintro i hi hk ⟨ms, t, n, o, rest, -, -, ho, hls⟩
  have hmem : o ∈ i.lexemes := by rw [hls]; simp
  rcases List.mem_cons.1 hi with rfl | hi
  · cases hk
  · rw [List.mem_singleton.1 hi] at hmem
    simp only [negation, List.cons_append, List.nil_append, List.mem_cons, List.not_mem_nil, or_false] at hmem
    rcases hmem with rfl | rfl | rfl | rfl | rfl <;> cases ho

end LetLint
