/-
The lookahead guesses right. A lambda is told from any other expression by the arrow behind its
parameter or behind the parenthesis that closes its parameters, a parameter without a type by what
stands behind its first token, and a method by a type, a name and a parenthesis: what the lookahead
skips as a type is derived as one, and the other way round. A wrong guess is never taken back, so
each of these facts is needed wherever the guess is made.
-/
import LetLint.Proofs.Grammar.First

namespace LetLint

open Lookahead

/-! ## Lambdas -/

/-- The phrases between an expression and a name or literal. -/
def Phrase.isOperation : Phrase → Bool
  | .binary _ | .unary | .call | .primary => true
  | _ => false

section

variable {X : Phrase} {ls rest : List Lexeme} {ts : List Tree} {t : Tree} {l : Lexeme}

theorem startsBareLambda_eq_false (hl : l.token.isIdentifier = false ∨ ∀ m ∈ rest.head?, m.token ≠ .punct .fatArrow) :
    startsBareLambda (l :: rest) = false := by
  cases rest with
  | nil => rfl
  | cons m ms =>
    rw [startsBareLambda, Bool.and_eq_false_iff]
    rcases hl with hl | hm
    · exact .inl hl
    · exact .inr (by simpa using hm m rfl)

theorem startsParenthesizedLambda_eq_false (hl : l.token ≠ .punct .leftParen) :
    startsParenthesizedLambda (l :: rest) = false := by
  simp [startsParenthesizedLambda, hl]

theorem afterClosing_of_balanced {c : Lexeme} (hl : Balanced ls) (hc : c.token = .punct .rightParen) :
    afterClosing 0 (ls ++ c :: rest) = some rest := by
  rw [hl]
  simp [afterClosing, hc]

/-- What is no lambda does not look like one, if no arrow stands behind it. -/
theorem Derives.no_lambda (h : Derives X ls ts) (hX : X.isOperation = true)
    (hr : ∀ l ∈ rest.head?, l.token ≠ .punct .fatArrow) :
    startsBareLambda (ls ++ rest) = false ∧ startsParenthesizedLambda (ls ++ rest) = false := by
  -- the leftmost operand decides, and what stands behind it is an operator, a dot or a parenthesis
  induction h generalizing rest with
  | operation _ ho hp _ iha _ =>
    rw [List.append_assoc]
    refine iha rfl ?_
    rintro l ⟨⟩ harrow
    rw [ho] at harrow
    cases harrow
    cases hp
  | operand _ ih | stronger _ ih | unsigned _ ih | callee _ ih => exact ih rfl hr
  | @signed o p ms u ho hp _ _ =>
    constructor
    · exact startsBareLambda_eq_false (.inl (by rw [ho]; rfl))
    · refine startsParenthesizedLambda_eq_false ?_
      rw [ho]
      rintro ⟨⟩
      cases hp
  | invocation _ ha ihf _ =>
    rw [List.append_assoc]
    obtain ⟨o, ms, rfl, ho⟩ := ha.exists_head
    refine ihf rfl ?_
    rintro l ⟨⟩ harrow
    simp [Phrase.opens, harrow] at ho
  | access _ hd _ ihr _ =>
    rw [List.append_assoc]
    refine ihr rfl ?_
    rintro l ⟨⟩ harrow
    rw [hd] at harrow
    cases harrow
  | atom hl =>
    constructor
    · exact startsBareLambda_eq_false (.inr hr)
    · exact startsParenthesizedLambda_eq_false (by intro hparen; rw [hparen] at hl; cases hl)
  | @group o c ms u ho h hc _ =>
    constructor
    · exact startsBareLambda_eq_false (.inl (by rw [ho]; rfl))
    · rw [List.cons_append, List.append_assoc, startsParenthesizedLambda, List.singleton_append,
        afterClosing_of_balanced (h.balanced rfl) hc]
      cases rest with
      | nil => simp
      | cons m ms => simpa using fun _ => hr m rfl
  | _ => cases hX

/-- A name and an arrow look like a bare lambda. -/
theorem Derives.bareLambda_ahead {a : Lexeme} (h : Derives .bareParameter ls [t]) (ha : a.token = .punct .fatArrow) :
    startsBareLambda (ls ++ a :: rest) = true := by
  cases h with
  | bareParameter hn =>
    cases hn with
    | name hname => simp [startsBareLambda, hname, Token.isIdentifier, ha]

/-- Parameters and an arrow look like a lambda. -/
theorem Derives.lambda_ahead {a : Lexeme} (h : Derives (.parameters false) ls [t]) (ha : a.token = .punct .fatArrow) :
    startsBareLambda (ls ++ a :: rest) = false ∧ startsParenthesizedLambda (ls ++ a :: rest) = true := by
  cases h with
  | parameters ho h hc =>
    rw [List.cons_append, List.append_assoc, List.singleton_append]
    refine ⟨startsBareLambda_eq_false (.inl (by rw [ho]; rfl)), ?_⟩
    rw [startsParenthesizedLambda, afterClosing_of_balanced (h.balanced rfl) hc]
    simp [ho, ha]

/-! ## Parameters -/

/-- A type and a name do not look like a parameter without a type. -/
theorem Derives.typed_ahead {n : Lexeme} (h : Derives .type ls [t]) (hn : n.token.isIdentifier = true) :
    startsUntypedParameter (ls ++ n :: rest) = false := by
  have second : ∀ {l m : Lexeme} {ms : List Lexeme}, m.token.isIdentifier = true ∨ m.token = .punct .dot ∨
      m.token = .punct .less → startsUntypedParameter (l :: m :: ms) = false := by
    intro l m ms hm
    unfold startsUntypedParameter
    rcases hm with hm | hm | hm
    · obtain ⟨name, hm⟩ := Token.isIdentifier_iff.1 hm
      simp [hm]
    · simp [hm]
    · simp [hm]
  have names : ∀ {ms more : List Lexeme} {us : List Tree}, Derives (.separated .dot .name) ms us →
      (∃ m ns, more = m :: ns ∧ (m.token.isIdentifier = true ∨ m.token = .punct .less)) →
      startsUntypedParameter (ms ++ more) = false := by
    rintro ms more us h ⟨m, ns, rfl, hm⟩
    cases h with
    | last h =>
      cases h
      exact second (hm.imp id .inr)
    | next h hc _ =>
      cases h
      exact second (.inr (.inl hc))
  cases h with
  | plainType h => exact names h ⟨n, rest, rfl, .inl hn⟩
  | genericType h ha =>
    obtain ⟨o, ms, rfl, ho⟩ := ha.exists_head
    rw [List.append_assoc]
    exact names h ⟨o, _, rfl, .inr (by simpa [Phrase.opens] using ho)⟩

end

/-! ## Types that are skipped -/

section

variable {ls ms rest : List Lexeme} {ts : List Tree} {t : Tree} {levels : Nat}

/-- The lexemes hold no semicolon. -/
def NoSemicolon (ls : List Lexeme) : Prop := ∀ l ∈ ls, l.token ≠ .punct .semicolon

theorem NoSemicolon.append (hl : NoSemicolon ls) (hm : NoSemicolon ms) : NoSemicolon (ls ++ ms) := by
  intro l h
  rcases List.mem_append.1 h with h | h
  · exact hl l h
  · exact hm l h

theorem NoSemicolon.cons {l : Lexeme} (hl : l.token ≠ .punct .semicolon) (hm : NoSemicolon ms) :
    NoSemicolon (l :: ms) := by
  have hone : NoSemicolon [l] := by simpa [NoSemicolon] using hl
  exact hone.append hm

theorem ne_semicolon_of_isIdentifier {l : Lexeme} (h : l.token.isIdentifier = true) :
    l.token ≠ .punct .semicolon := by
  intro hl
  rw [hl] at h
  cases h

/-- The segments that are skipped are names with dots before them. -/
theorem afterSegments_derived : ∀ ls : List Lexeme, ∃ ms ts, ls = ms ++ afterSegments ls ∧
    FollowsItem .dot .name ms ts ∧ NoSemicolon ms ∧ ∀ t ∈ ts, t.levels = 0
  | [] => ⟨[], [], rfl, .inl ⟨rfl, rfl⟩, by simp [NoSemicolon], by simp⟩
  | [l] => ⟨[], [], rfl, .inl ⟨rfl, rfl⟩, by simp [NoSemicolon], by simp⟩
  | l :: m :: rest => by
    unfold afterSegments
    by_cases h : l.token = .punct .dot ∧ m.token.isIdentifier = true
    · rw [if_pos h]
      obtain ⟨ms, ts, hrest, hf, hs, hl⟩ := afterSegments_derived rest
      obtain ⟨name, hname⟩ := Token.isIdentifier_iff.1 h.2
      refine ⟨l :: m :: ms, _, by rw [List.cons_append, List.cons_append, ← hrest],
        .inr ⟨l, m :: ms, rfl, h.1, hf.derives (.name hname)⟩, .cons ?_ (.cons ?_ hs), ?_⟩
      · rw [h.1]; simp
      · exact ne_semicolon_of_isIdentifier h.2
      · exact List.forall_mem_cons.2 ⟨Tree.levels_leaf _ _, hl⟩
    · rw [if_neg h]
      exact ⟨[], [], rfl, .inl ⟨rfl, rfl⟩, by simp [NoSemicolon], by simp⟩

/-- What a skip leaves behind it stands behind a derived type of few enough levels. -/
def SkipsTypes (afterItem? : List Lexeme → Option (List Lexeme)) (levels : Nat) : Prop :=
  ∀ {ls rest : List Lexeme}, afterItem? ls = some rest →
    ∃ ms t, ls = ms ++ rest ∧ Derives .type ms [t] ∧ NoSemicolon ms ∧ t.levels < levels + 1

theorem afterCommas_derived {afterItem? : List Lexeme → Option (List Lexeme)} (hi : SkipsTypes afterItem? levels) :
    ∀ (rounds ls : List Lexeme) {rest : List Lexeme}, afterCommas afterItem? rounds ls = some rest →
      ∃ ms ts, ls = ms ++ rest ∧ FollowsItem .comma .type ms ts ∧ NoSemicolon ms ∧ ∀ t ∈ ts, t.levels < levels + 1
  | [], ls, rest, h => by
    cases h
    exact ⟨[], [], rfl, .inl ⟨rfl, rfl⟩, by simp [NoSemicolon], by simp⟩
  | _ :: _, [], rest, h => by
    cases h
    exact ⟨[], [], rfl, .inl ⟨rfl, rfl⟩, by simp [NoSemicolon], by simp⟩
  | _ :: rounds, l :: ls, rest, h => by
    unfold afterCommas at h
    by_cases hl : l.token = .punct .comma
    · rw [if_pos hl, Option.bind_eq_some_iff] at h
      obtain ⟨mid, hitem, h⟩ := h
      obtain ⟨ms, t, rfl, hd, hs, ht⟩ := hi hitem
      obtain ⟨ns, ts, rfl, hf, hs', hts⟩ := afterCommas_derived hi rounds mid h
      refine ⟨l :: (ms ++ ns), t :: ts, by simp, .inr ⟨l, ms ++ ns, rfl, hl, hf.derives hd⟩, .cons ?_ (hs.append hs'),
        List.forall_mem_cons.2 ⟨ht, hts⟩⟩
      rw [hl]; simp
    · rw [if_neg hl] at h
      cases h
      exact ⟨[], [], rfl, .inl ⟨rfl, rfl⟩, by simp [NoSemicolon], by simp⟩

theorem afterTypeArguments_derived {afterItem? : List Lexeme → Option (List Lexeme)}
    (hi : SkipsTypes afterItem? levels) {o : Lexeme} (ho : o.token = .punct .less)
    (h : afterTypeArguments afterItem? ls = some rest) :
    ∃ ms t, o :: ls = ms ++ rest ∧ Derives .typeArguments ms [t] ∧ NoSemicolon ms ∧ t.levels < levels + 1 := by
  simp only [afterTypeArguments, Option.bind_eq_bind, Option.bind_eq_some_iff] at h
  obtain ⟨first, hfirst, behind, hcommas, h⟩ := h
  obtain ⟨ms, t, rfl, hd, hs, ht⟩ := hi hfirst
  obtain ⟨ns, ts, rfl, hf, hs', hts⟩ := afterCommas_derived hi _ _ hcommas
  cases behind with
  | nil => cases h
  | cons c more =>
    by_cases hc : c.token = .punct .greater
    · simp only [if_pos hc, Option.some.injEq] at h
      subst h
      refine ⟨o :: ((ms ++ ns) ++ [c]), _, by simp, .typeArguments ho (hf.derives hd) hc, ?_,
        Tree.levels_node_lt_iff.2 (List.forall_mem_cons.2 ⟨ht, hts⟩)⟩
      refine .cons (by rw [ho]; simp) ((hs.append hs').append (.cons (by rw [hc]; simp) ?_))
      simp [NoSemicolon]
    · simp only [if_neg hc] at h
      cases h

/-- What is skipped as a type is one, of no more levels than are looked at. -/
theorem afterType?_derived (levels : Nat) : SkipsTypes (afterType? levels) levels := by
  induction levels with
  | zero =>
    intro ls rest h
    cases h
  | succ levels ih =>
    intro ls rest h
    cases ls with
    | nil => cases h
    | cons l ls =>
      unfold afterType? at h
      by_cases hl : l.token.isIdentifier = true
      · rw [if_pos hl] at h
        obtain ⟨name, hname⟩ := Token.isIdentifier_iff.1 hl
        obtain ⟨ms, ts, hms, hf, hs, hts⟩ := afterSegments_derived ls
        have hnames := hf.derives (Derives.name hname)
        have hsemi : NoSemicolon (l :: ms) := .cons (ne_semicolon_of_isIdentifier hl) hs
        have hsegments : ∀ t ∈ .leaf (.identifier name) (cover [l]) :: ts, t.levels < levels + 1 :=
          List.forall_mem_cons.2 ⟨by simp, fun t ht => by simp [hts t ht]⟩
        rcases hseg : afterSegments ls with _ | ⟨m, behind⟩
        · rw [hseg] at h hms
          cases h
          exact ⟨l :: ms, _, by rw [hms]; simp, .plainType hnames, hsemi, Tree.levels_node_lt_iff.2 hsegments⟩
        · rw [hseg] at h hms
          by_cases hm : m.token = .punct .less
          · simp only [if_pos hm] at h
            obtain ⟨as, a, has, hda, hsa, ha⟩ := afterTypeArguments_derived ih hm h
            refine ⟨l :: ms ++ as, _, by rw [hms, has]; simp, .genericType hnames hda, hsemi.append hsa,
              Tree.levels_node_lt_iff.2 ?_⟩
            exact List.forall_mem_append.2 ⟨hsegments, List.forall_mem_singleton.2 ha⟩
          · simp only [if_neg hm, Option.some.injEq] at h
            subst h
            exact ⟨l :: ms, _, by rw [hms]; simp, .plainType hnames, hsemi, Tree.levels_node_lt_iff.2 hsegments⟩
      · rw [if_neg hl] at h
        cases h

/-! ## Types that are there -/

/-- No type goes on with the lexemes. -/
def EndsType (rest : List Lexeme) : Prop := ∀ l ∈ rest.head?, l.token ≠ .punct .dot ∧ l.token ≠ .punct .less

theorem EndsType.cons {l : Lexeme} (hd : l.token ≠ .punct .dot) (hl : l.token ≠ .punct .less) :
    EndsType (l :: rest) := by
  rintro m ⟨⟩
  exact ⟨hd, hl⟩

theorem afterSegments_eq_self (hr : ∀ l ∈ rest.head?, l.token ≠ .punct .dot) : afterSegments rest = rest := by
  match rest, hr with
  | [], _ => rfl
  | [l], _ => rfl
  | l :: m :: more, hr =>
    unfold afterSegments
    exact if_neg fun h => hr l rfl h.1

/-- All segments are skipped. -/
theorem afterSegments_append (h : FollowsItem .dot .name ms ts) (hr : ∀ l ∈ rest.head?, l.token ≠ .punct .dot) :
    afterSegments (ms ++ rest) = rest := by
  refine h.induction (P := fun ms _ => afterSegments (ms ++ rest) = rest) (afterSegments_eq_self hr) ?_
  intro c ls ms t ts hc hn _ ih
  cases hn with
  | name hl =>
    simp only [List.cons_append, List.nil_append, afterSegments]
    rw [if_pos ⟨hc, by rw [hl]; rfl⟩]
    exact ih

/-- Every type of few enough levels is skipped by the item that skips them. -/
def SkipsAllTypes (afterItem? : List Lexeme → Option (List Lexeme)) (levels : Nat) : Prop :=
  ∀ {ms rest : List Lexeme} {t : Tree}, Derives .type ms [t] → t.levels < levels + 1 → EndsType rest →
    afterItem? (ms ++ rest) = some rest

theorem afterCommas_append {afterItem? : List Lexeme → Option (List Lexeme)} (hi : SkipsAllTypes afterItem? levels)
    (h : FollowsItem .comma .type ms ts) (hl : ∀ t ∈ ts, t.levels < levels + 1) (hr : EndsType rest)
    (hcomma : ∀ l ∈ rest.head?, l.token ≠ .punct .comma) (rounds : List Lexeme) (hlen : ms.length ≤ rounds.length) :
    afterCommas afterItem? rounds (ms ++ rest) = some rest := by
  refine h.induction (P := fun ms ts => (∀ t ∈ ts, t.levels < levels + 1) → ∀ rounds : List Lexeme,
    ms.length ≤ rounds.length → afterCommas afterItem? rounds (ms ++ rest) = some rest) ?_ ?_ hl rounds hlen
  · intro _ rounds _
    match rounds, rest, hcomma with
    | [], _, _ => rfl
    | _ :: _, [], _ => rfl
    | _ :: _, l :: more, hcomma => simp [afterCommas, hcomma l rfl]
  · intro c ls ms t ts hc ht hf ih hl rounds hlen
    obtain ⟨r, rounds, rfl⟩ := List.exists_cons_of_length_pos (by simp at hlen; omega : 0 < rounds.length)
    have hbehind : EndsType (ms ++ rest) :=
      hf.behind (fun hc => .cons (by rw [hc]; simp) (by rw [hc]; simp)) hr
    simp only [List.cons_append, List.append_assoc, afterCommas, if_pos hc]
    rw [hi ht (hl t (by simp)) hbehind, Option.bind_some]
    refine ih (fun u hu => hl u (by simp [hu])) rounds ?_
    simp only [List.length_cons, List.length_append] at hlen
    omega

theorem afterTypeArguments_append {afterItem? : List Lexeme → Option (List Lexeme)}
    (hi : SkipsAllTypes afterItem? levels) {o : Lexeme} (h : Derives .typeArguments (o :: ms) [t])
    (hl : t.levels < levels + 1) : afterTypeArguments afterItem? (ms ++ rest) = some rest := by
  cases h with
  | @typeArguments _ c ls ts _ h hc =>
    obtain ⟨ls, ns, t, us, rfl, rfl, ht, hf⟩ := h.exists_followsItem
    have hlevels := Tree.levels_node_lt_iff.1 hl
    have hclose : EndsType (c :: rest) := .cons (by rw [hc]; simp) (by rw [hc]; simp)
    have hbehind : EndsType (ns ++ (c :: rest)) :=
      hf.behind (fun hc => .cons (by rw [hc]; simp) (by rw [hc]; simp)) hclose
    have hcommas := afterCommas_append hi hf (fun u hu => hlevels u (by simp [hu])) hclose
      (by rintro l ⟨⟩; rw [hc]; simp) (ns ++ c :: rest) (by simp)
    have hlist : ls ++ ns ++ [c] ++ rest = ls ++ (ns ++ c :: rest) := by simp
    rw [hlist]
    simp only [afterTypeArguments, hi ht (hlevels t (by simp)) hbehind, Option.bind_eq_bind, Option.bind_some]
    rw [hcommas]
    simp [hc]

/-- A type is skipped if its levels are not more than are looked at. -/
theorem afterType?_append (levels : Nat) : SkipsAllTypes (afterType? levels) levels := by
  induction levels with
  | zero =>
    intro ms rest t h hl
    cases h <;> simp [Kind.opensLevel] at hl
  | succ levels ih =>
    intro ms rest t h hl hr
    have hdot : ∀ l ∈ rest.head?, l.token ≠ .punct .dot := fun l hl => (hr l hl).1
    cases h with
    | plainType h =>
      obtain ⟨ls, ns, n, us, rfl, rfl, hn, hf⟩ := h.exists_followsItem
      cases hn with
      | @name l name hname =>
        simp only [List.cons_append, List.nil_append, afterType?, hname, Token.isIdentifier, if_true]
        rw [afterSegments_append hf hdot]
        cases rest with
        | nil => rfl
        | cons m more => simp [(hr m rfl).2]
    | @genericType ls as ts a h ha =>
      obtain ⟨ls, ns, n, us, rfl, rfl, hn, hf⟩ := h.exists_followsItem
      have hla : a.levels < levels + 1 := (Tree.levels_node_lt_iff.1 hl) a (by simp)
      obtain ⟨o, os, rfl, ho⟩ := ha.exists_head
      have hless : o.token = .punct .less := by simpa [Phrase.opens] using ho
      cases hn with
      | @name l name hname =>
        have hlist : [l] ++ ns ++ o :: os ++ rest = l :: (ns ++ (o :: os ++ rest)) := by simp
        rw [hlist]
        simp only [afterType?, hname, Token.isIdentifier, if_true]
        rw [afterSegments_append hf (by rintro m ⟨⟩; rw [hless]; simp)]
        simp only [List.cons_append, if_pos hless]
        exact afterTypeArguments_append ih ha hla

/-! ## Methods -/

/-- The lexemes start like a method: with a type, a name and an opening parenthesis. -/
def OpensMethod (ls : List Lexeme) : Prop :=
  ∃ ms t n o rest, Derives .type ms [t] ∧ n.token.isIdentifier = true ∧ o.token = .punct .leftParen ∧
    ls = ms ++ n :: o :: rest

/-- A method looks like one. -/
theorem startsMethod_append {cap : Nat} {n o : Lexeme} (h : Derives .type ms [t]) (hl : t.levels < cap + 1)
    (hn : n.token.isIdentifier = true) (ho : o.token = .punct .leftParen) :
    startsMethod cap (ms ++ n :: o :: rest) = true := by
  obtain ⟨name, hname⟩ := Token.isIdentifier_iff.1 hn
  unfold startsMethod
  rw [afterType?_append cap h hl (.cons (by rw [hname]; simp) (by rw [hname]; simp))]
  simp [hn, ho]

/-- What looks like a method has, before the first semicolon, a type of few enough levels, a name and a
parenthesis. -/
theorem exists_type_of_startsMethod {cap : Nat} {s : Lexeme} (hs : s.token = .punct .semicolon)
    (h : startsMethod cap (ls ++ s :: rest) = true) :
    ∃ ms t n o behind, ls = ms ++ n :: o :: behind ∧ Derives .type ms [t] ∧ t.levels < cap + 1 ∧
      n.token.isIdentifier = true ∧ o.token = .punct .leftParen := by
  unfold startsMethod at h
  split at h
  · rename_i n o more hafter
    rw [Bool.and_eq_true, beq_iff_eq] at h
    obtain ⟨hn, ho⟩ := h
    obtain ⟨ms, t, hms, hd, hsemi, hl⟩ := afterType?_derived cap hafter
    have hall : NoSemicolon (ms ++ [n, o]) := by
      refine hsemi.append (.cons (ne_semicolon_of_isIdentifier hn) (.cons (by rw [ho]; simp) ?_))
      simp [NoSemicolon]
    have hsplit : ls ++ (s :: rest) = (ms ++ [n, o]) ++ more := by rw [hms]; simp
    rcases List.append_eq_append_iff.1 hsplit with ⟨as, has, hrest⟩ | ⟨bs, rfl, -⟩
    · cases as with
      | nil =>
        rw [List.append_nil] at has
        exact ⟨ms, t, n, o, [], has.symm, hd, hl, hn, ho⟩
      | cons a as =>
        -- the semicolon would stand in the type or be the name or the parenthesis
        obtain ⟨rfl, -⟩ := List.cons.inj hrest
        exact absurd hs (hall s (by rw [has]; simp))
    · exact ⟨ms, t, n, o, bs, by simp, hd, hl, hn, ho⟩
  · cases h

/-- What looks like a method, and ends with a semicolon, opens with a type, a name and a parenthesis
before the semicolon. -/
theorem opensMethod_of_startsMethod {cap : Nat} {s : Lexeme} (hs : s.token = .punct .semicolon)
    (h : startsMethod cap (ls ++ s :: rest) = true) : OpensMethod (ls ++ [s]) := by
  obtain ⟨ms, t, n, o, behind, rfl, hd, -, hn, ho⟩ := exists_type_of_startsMethod hs h
  exact ⟨ms, t, n, o, behind ++ [s], hd, hn, ho, by simp⟩

/-- The guess never looks beyond a semicolon. -/
theorem startsMethod_semicolon (cap : Nat) {s : Lexeme} (hs : s.token = .punct .semicolon) :
    startsMethod cap (ls ++ s :: rest) = startsMethod cap (ls ++ [s]) := by
  have hguess (rest rest' : List Lexeme) (h : startsMethod cap (ls ++ s :: rest) = true) :
      startsMethod cap (ls ++ s :: rest') = true := by
    obtain ⟨ms, t, n, o, behind, rfl, hd, hl, hn, ho⟩ := exists_type_of_startsMethod hs h
    simpa using startsMethod_append hd hl hn ho
  exact Bool.eq_iff_iff.2 ⟨hguess rest [], hguess [] rest⟩

/-- Only a name starts a method. -/
theorem startsMethod_eq_false {cap : Nat} {l : Lexeme} (hl : l.token.isIdentifier = false) :
    startsMethod cap (l :: rest) = false := by
  unfold startsMethod
  cases cap <;> simp [afterType?, hl]

end

end LetLint
