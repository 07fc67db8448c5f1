/-
What the reader accepts is derived by the grammar. Each production, given sound productions for the
next level down, reads lexemes that the grammar derives its tree from, within the levels of nesting
that are left; so the productions of every level are sound, by induction on the levels. Of the
lookahead only the arrow of a bare lambda matters here: whatever else it picks is sound.
-/
import LetLint.Proofs.Parse.Reading
import LetLint.Proofs.Grammar.Shape

namespace LetLint.Parse

open TokenStream

variable {s s' : TokenStream} {t : Tree} {ts : List Tree} {inner : Nested} {n : Nat}

/-- Whatever the production reads is derived by the phrase, with fewer than `n` levels. -/
def Yields (p : Parse Tree) (X : Phrase) (n : Nat) : Prop :=
  ∀ {s s' : TokenStream} {t : Tree}, p s = .ok t s' →
    ∃ ls, s.Reads ls s' ∧ Derives X ls [t] ∧ t.levels < n

/-- The productions of a level are sound with `n` levels left. -/
structure Nested.Sound (inner : Nested) (n : Nat) : Prop where
  type : Yields inner.type .type (n + 1)
  block : Yields inner.block .block (n + 1)
  expression : Yields inner.expression .expression n
  operand : Yields inner.operand .unary n

theorem name_yields {slot : NameSlot} : Yields (name slot) .name (n + 1) := by
  intro s s' t h
  obtain ⟨ls, hr, hd⟩ := name_eq_ok.1 h
  refine ⟨ls, hr, hd, ?_⟩
  cases hd
  simp

/-! ## Loops -/

/-- What a loop reads, from what one round reads. -/
theorem many_reads {item? : Parse (Option Tree)} {P : List Lexeme → List Tree → Prop} (stop : P [] [])
    (last : ∀ {s s' : TokenStream}, item? s = .ok none s' → s' = s)
    (step : ∀ {s s' : TokenStream} {t : Tree}, item? s = .ok (some t) s' →
      ∃ ls, s.Reads ls s' ∧ ∀ {ms : List Lexeme} {us : List Tree}, P ms us → P (ls ++ ms) (t :: us))
    (h : many item? s = .ok ts s') : ∃ ls, s.Reads ls s' ∧ P ls ts := by
  unfold many at h
  rw [stream_bind] at h
  generalize s.ahead = rounds at h
  induction rounds generalizing s ts with
  | nil =>
    obtain ⟨rfl, rfl⟩ := pure_eq_ok.1 h
    exact ⟨[], .nil, stop⟩
  | cons _ rounds ih =>
    obtain ⟨found, s₁, h1, h⟩ := bind_eq_ok.1 h
    cases found with
    | none =>
      obtain ⟨rfl, rfl⟩ := pure_eq_ok.1 h
      exact ⟨[], reads_nil_iff.2 (last h1), stop⟩
    | some t =>
      obtain ⟨us, s₂, h2, h⟩ := bind_eq_ok.1 h
      obtain ⟨rfl, rfl⟩ := pure_eq_ok.1 h
      obtain ⟨ls, hr, hs⟩ := step h1
      obtain ⟨ms, hr', hp⟩ := ih h2
      exact ⟨ls ++ ms, hr.append hr', hs hp⟩

/-- What a growing value is read from, from what one round adds. -/
theorem grow_reads {more? : Tree → Parse (Option Tree)} {P : List Lexeme → Tree → Prop}
    (last : ∀ {s s' : TokenStream} {a : Tree}, more? a s = .ok none s' → s' = s)
    (step : ∀ {s s' : TokenStream} {ls : List Lexeme} {a b : Tree}, P ls a → more? a s = .ok (some b) s' →
      ∃ ms, s.Reads ms s' ∧ P (ls ++ ms) b)
    {ls : List Lexeme} {a b : Tree} (ha : P ls a) (h : grow more? a s = .ok b s') :
    ∃ ms, s.Reads ms s' ∧ P (ls ++ ms) b := by
  unfold grow at h
  rw [stream_bind] at h
  generalize s.ahead = rounds at h
  induction rounds generalizing s ls a with
  | nil =>
    obtain ⟨rfl, rfl⟩ := pure_eq_ok.1 h
    exact ⟨[], .nil, by rwa [List.append_nil]⟩
  | cons _ rounds ih =>
    obtain ⟨found, s₁, h1, h⟩ := bind_eq_ok.1 h
    cases found with
    | none =>
      obtain ⟨rfl, rfl⟩ := pure_eq_ok.1 h
      exact ⟨[], reads_nil_iff.2 (last h1), by rwa [List.append_nil]⟩
    | some c =>
      obtain ⟨ms, hr, hc⟩ := step ha h1
      obtain ⟨ks, hr', hb⟩ := ih hc h
      exact ⟨ms ++ ks, hr.append hr', by rwa [← List.append_assoc]⟩

/-! ## Lists -/

/-- Whatever the production reads is derived by the phrase, each tree with fewer than `n` levels. -/
def YieldsAll (p : Parse (List Tree)) (X : Phrase) (n : Nat) : Prop :=
  ∀ {s s' : TokenStream} {ts : List Tree}, p s = .ok ts s' →
    ∃ ls, s.Reads ls s' ∧ Derives X ls ts ∧ ∀ t ∈ ts, t.levels < n

theorem many_separatedItem?_reads {mark : Punct} {item : Parse Tree} {X : Phrase} (hi : Yields item X n)
    (h : many (separatedItem? mark item) s = .ok ts s') :
    ∃ ls, s.Reads ls s' ∧ FollowsItem mark X ls ts ∧ ∀ t ∈ ts, t.levels < n := by
  refine many_reads (P := fun ls ts => FollowsItem mark X ls ts ∧ ∀ t ∈ ts, t.levels < n)
    ⟨.inl ⟨rfl, rfl⟩, by simp⟩ ?_ ?_ h
  · intro s s' h
    obtain ⟨found, s₁, h1, h⟩ := bind_eq_ok.1 h
    cases found with
    | false =>
      obtain ⟨-, hs⟩ := accept_eq_ok_false.1 h1
      exact (pure_eq_ok.1 h).2.trans hs
    | true =>
      obtain ⟨_, _, -, h⟩ := bind_eq_ok.1 h
      cases (pure_eq_ok.1 h).1
  · intro s s' t h
    obtain ⟨found, s₁, h1, h⟩ := bind_eq_ok.1 h
    cases found with
    | false => cases (pure_eq_ok.1 h).1
    | true =>
      obtain ⟨c, hc, hr⟩ := accept_eq_ok_true.1 h1
      obtain ⟨u, s₂, h2, h⟩ := bind_eq_ok.1 h
      obtain ⟨hu, rfl⟩ := pure_eq_ok.1 h
      cases hu
      obtain ⟨ls, hr', hd, hl⟩ := hi h2
      refine ⟨c :: ls, hr.append hr', fun {ms us} hp => ⟨.inr ⟨c, ls ++ ms, rfl, hc, hp.1.derives hd⟩, ?_⟩⟩
      exact List.forall_mem_cons.2 ⟨hl, hp.2⟩

theorem commaSeparated_yields {item : Parse Tree} {X : Phrase} (hi : Yields item X n) :
    YieldsAll (commaSeparated item) (.separated .comma X) n := by
  intro s s' ts h
  rw [commaSeparated_eq] at h
  obtain ⟨t, s₁, h1, h⟩ := bind_eq_ok.1 h
  obtain ⟨us, s₂, h2, h⟩ := bind_eq_ok.1 h
  obtain ⟨rfl, rfl⟩ := pure_eq_ok.1 h
  obtain ⟨ls, hr, hd, hl⟩ := hi h1
  obtain ⟨ms, hr', hf, hm⟩ := many_separatedItem?_reads hi h2
  exact ⟨ls ++ ms, hr.append hr', hf.derives hd, List.forall_mem_cons.2 ⟨hl, hm⟩⟩

theorem commaSeparatedBefore_yields {closing : Punct} {item : Parse Tree} {X : Phrase} (hi : Yields item X n) :
    YieldsAll (commaSeparatedBefore closing item) (.list X) n := by
  intro s s' ts h
  unfold commaSeparatedBefore at h
  rw [isAt_bind] at h
  split at h
  · obtain ⟨rfl, rfl⟩ := pure_eq_ok.1 h
    exact ⟨[], .nil, .noItems, by simp⟩
  · obtain ⟨ls, hr, hd, hl⟩ := commaSeparated_yields hi h
    exact ⟨ls, hr, .items hd, hl⟩

/-! ## Types and parameters -/

theorem typeArgumentList_yields (hi : inner.Sound n) (hat : s.isAt .less = true)
    (h : typeArgumentList inner s = .ok t s') :
    ∃ ls, s.Reads ls s' ∧ Derives .typeArguments ls [t] ∧ t.levels < n + 1 := by
  obtain ⟨o, ho, hro⟩ := isAt_iff.1 hat
  unfold typeArgumentList at h
  rw [offset_bind, advance_bind] at h
  obtain ⟨ts, s₁, h1, h⟩ := bind_eq_ok.1 h
  obtain ⟨_, s₂, h2, h⟩ := bind_eq_ok.1 h
  obtain ⟨ls, hr, hd, hl⟩ := commaSeparated_yields hi.type h1
  obtain ⟨c, hc, hrc⟩ := expect_eq_ok.1 h2
  have hall := hro.append (hr.append hrc)
  obtain ⟨rfl, rfl⟩ := (close_eq_ok_of_reads hall (by simp)).1 h
  exact ⟨_, hall, .typeArguments ho hd hc, Tree.levels_node_lt_iff.2 hl⟩

theorem typeBody_yields (hi : inner.Sound n) : Yields (typeBody inner) .type (n + 2) := by
  intro s s' t h
  unfold typeBody at h
  rw [offset_bind] at h
  obtain ⟨first, s₁, h1, h⟩ := bind_eq_ok.1 h
  obtain ⟨more, s₂, h2, h⟩ := bind_eq_ok.1 h
  obtain ⟨ls, hr, hd, hl⟩ := name_yields (n := n) h1
  obtain ⟨ms, hr', hf, hm⟩ := many_separatedItem?_reads (n := n + 1) name_yields h2
  have hnames := hf.derives hd
  have hlevels : ∀ t ∈ first :: more, t.levels < n + 1 := List.forall_mem_cons.2 ⟨hl, hm⟩
  rw [isAt_bind] at h
  split at h
  · rename_i hat
    obtain ⟨a, s₃, h3, h⟩ := bind_eq_ok.1 h
    obtain ⟨as, hra, hda, hla⟩ := typeArgumentList_yields hi hat h3
    have hall := (hr.append hr').append hra
    obtain ⟨rfl, rfl⟩ := (close_eq_ok_of_reads hall (by simp [hd.ne_nil])).1 h
    refine ⟨_, hall, .genericType hnames hda, Tree.levels_node_lt_iff.2 fun t ht => ?_⟩
    rcases List.mem_append.1 ht with ht | ht
    · exact hlevels t ht
    · rw [List.mem_singleton.1 ht]; exact hla
  · have hall := hr.append hr'
    obtain ⟨rfl, rfl⟩ := (close_eq_ok_of_reads hall (by simp [hd.ne_nil])).1 h
    exact ⟨_, hall, .plainType hnames, Tree.levels_node_lt_iff.2 hlevels⟩

theorem typedParameter_yields (hi : inner.Sound n) (typed : Bool) :
    Yields (typedParameter inner) (.parameter typed) (n + 1) := by
  intro s s' t h
  unfold typedParameter at h
  rw [offset_bind] at h
  obtain ⟨type, s₁, h1, h⟩ := bind_eq_ok.1 h
  obtain ⟨parameter, s₂, h2, h⟩ := bind_eq_ok.1 h
  obtain ⟨ls, hr, hd, hl⟩ := hi.type h1
  obtain ⟨ms, hr', hd', hl'⟩ := name_yields (n := n) h2
  have hall := hr.append hr'
  obtain ⟨rfl, rfl⟩ := (close_eq_ok_of_reads hall (by simp [hd.ne_nil])).1 h
  refine ⟨_, hall, .typedParameter hd hd', Tree.levels_node_lt_iff.2 ?_⟩
  exact List.forall_mem_cons.2 ⟨hl, List.forall_mem_singleton.2 hl'⟩

theorem lambdaParameter_yields (hi : inner.Sound n) : Yields (lambdaParameter inner) (.parameter false) (n + 1) := by
  intro s s' t h
  unfold lambdaParameter at h
  rw [stream_bind] at h
  split at h
  · rw [offset_bind] at h
    obtain ⟨parameter, s₁, h1, h⟩ := bind_eq_ok.1 h
    obtain ⟨ls, hr, hd, hl⟩ := name_yields (n := n) h1
    obtain ⟨rfl, rfl⟩ := (close_eq_ok_of_reads hr (hd.ne_nil (by simp))).1 h
    exact ⟨_, hr, .untyped (.bareParameter hd), Tree.levels_node_lt_iff.2 (by simpa [Kind.enters] using hl)⟩
  · exact typedParameter_yields hi false h

/-! ## Lambdas -/

theorem lambdaBody_yields (hi : inner.Sound n) (h : lambdaBody inner s = .ok t s') :
    ∃ ls, s.Reads ls s' ∧ Derives .lambdaBody ls [t] ∧
      ∀ {kind : Kind}, kind.isLambda = true → t.levels + (kind.enters t.kind).toNat < n + 1 := by
  unfold lambdaBody at h
  rw [isAt_bind] at h
  split at h
  · obtain ⟨ls, hr, hd, hl⟩ := hi.block h
    refine ⟨ls, hr, .bodyBlock hd, fun {kind} hk => ?_⟩
    have hb : t.kind = .block := by simpa [Phrase.yields] using hd.yields_one
    have he : kind.enters t.kind = false := by rw [hb]; cases kind <;> simp_all [Kind.enters, Kind.isLambda]
    rw [he]; exact hl
  · obtain ⟨ls, hr, hd, hl⟩ := hi.expression h
    refine ⟨ls, hr, .bodyValue hd, fun {kind} _ => ?_⟩
    have := Bool.toNat_le (kind.enters t.kind)
    omega

theorem startsUntypedParameter_of_startsBareLambda {ls : List Lexeme}
    (h : Lookahead.startsBareLambda ls = true) : Lookahead.startsUntypedParameter ls = true := by
  match ls, h with
  | _ :: _ :: _, h =>
    simp only [Lookahead.startsBareLambda, Bool.and_eq_true, beq_iff_eq] at h
    simp [Lookahead.startsUntypedParameter, h.2]

theorem bareLambda_yields (hi : inner.Sound n) (hat : Lookahead.startsBareLambda s.ahead = true)
    (h : bareLambda inner s = .ok t s') : ∃ ls, s.Reads ls s' ∧ Derives .expression ls [t] ∧ t.levels < n + 1 := by
  unfold bareLambda lambdaParameter at h
  rw [offset_bind] at h
  obtain ⟨parameter, s₁, h1, h⟩ := bind_eq_ok.1 h
  -- The arrow behind the name is what makes the parameter one without a type.
  rw [stream_bind, if_pos (startsUntypedParameter_of_startsBareLambda hat), offset_bind] at h1
  obtain ⟨name, s₂, h2, h1⟩ := bind_eq_ok.1 h1
  obtain ⟨_, s₃, h3, h⟩ := bind_eq_ok.1 h
  obtain ⟨body, s₄, h4, h⟩ := bind_eq_ok.1 h
  obtain ⟨ls, hr, hd, hl⟩ := name_yields (n := n) h2
  obtain ⟨rfl, rfl⟩ := (close_eq_ok_of_reads hr (hd.ne_nil (by simp))).1 h1
  obtain ⟨a, ha, hra⟩ := expect_eq_ok.1 h3
  obtain ⟨ms, hrb, hb, hlb⟩ := lambdaBody_yields hi h4
  have hall := hr.append (hra.append hrb)
  obtain ⟨rfl, rfl⟩ := (close_eq_ok_of_reads hall (by simp)).1 h
  have hlp : (Tree.node .parameter (cover ls) [name]).levels < n + 1 :=
    Tree.levels_node_lt_iff.2 (by simpa [Kind.enters] using hl)
  refine ⟨_, hall, .bareLambda (.bareParameter hd) ha hb, Tree.levels_node_lt_iff.2 fun t ht => ?_⟩
  rcases List.mem_cons.1 ht with rfl | ht
  · exact hlp
  · rw [List.mem_singleton.1 ht]; exact hlb rfl

theorem parenthesizedLambda_yields (hi : inner.Sound n) :
    Yields (parenthesizedLambda inner) .expression (n + 1) := by
  intro s s' t h
  unfold parenthesizedLambda at h
  rw [offset_bind] at h
  obtain ⟨_, s₁, h1, h⟩ := bind_eq_ok.1 h
  obtain ⟨parameters, s₂, h2, h⟩ := bind_eq_ok.1 h
  obtain ⟨_, s₃, h3, h⟩ := bind_eq_ok.1 h
  obtain ⟨o, ho, hro⟩ := expect_eq_ok.1 h1
  obtain ⟨ls, hr, hd, hl⟩ := commaSeparatedBefore_yields (lambdaParameter_yields hi) h2
  obtain ⟨c, hc, hrc⟩ := expect_eq_ok.1 h3
  have hlist := hro.append (hr.append hrc)
  rw [close_bind_of_reads hlist (by simp)] at h
  obtain ⟨_, s₄, h4, h⟩ := bind_eq_ok.1 h
  obtain ⟨body, s₅, h5, h⟩ := bind_eq_ok.1 h
  obtain ⟨a, ha, hra⟩ := expect_eq_ok.1 h4
  obtain ⟨ms, hrb, hb, hlb⟩ := lambdaBody_yields hi h5
  have hall := hlist.append (hra.append hrb)
  obtain ⟨rfl, rfl⟩ := (close_eq_ok_of_reads hall (by simp)).1 h
  have hlp : (Tree.node .parameterList (cover ([o] ++ (ls ++ [c]))) parameters).levels < n + 1 :=
    Tree.levels_node_lt_iff.2 hl
  refine ⟨_, hall, .lambda (.parameters ho hd hc) ha hb, Tree.levels_node_lt_iff.2 fun t ht => ?_⟩
  rcases List.mem_cons.1 ht with rfl | ht
  · exact hlp
  · rw [List.mem_singleton.1 ht]; exact hlb rfl

/-! ## Expressions -/

theorem argument_yields (hi : inner.Sound n) : Yields (argument inner) .argument (n + 1) := by
  intro s s' t h
  unfold argument at h
  rw [offset_bind] at h
  obtain ⟨value, s₁, h1, h⟩ := bind_eq_ok.1 h
  obtain ⟨ls, hr, hd, hl⟩ := hi.expression h1
  obtain ⟨rfl, rfl⟩ := (close_eq_ok_of_reads hr (hd.ne_nil (by simp))).1 h
  exact ⟨_, hr, .argument hd, Tree.levels_node_lt_iff.2 (by simpa [Kind.enters] using hl)⟩

theorem argumentList_yields (hi : inner.Sound n) : Yields (argumentList inner) .arguments (n + 1) := by
  intro s s' t h
  unfold argumentList at h
  rw [offset_bind] at h
  obtain ⟨_, s₁, h1, h⟩ := bind_eq_ok.1 h
  obtain ⟨ts, s₂, h2, h⟩ := bind_eq_ok.1 h
  obtain ⟨_, s₃, h3, h⟩ := bind_eq_ok.1 h
  obtain ⟨o, ho, hro⟩ := expect_eq_ok.1 h1
  obtain ⟨ls, hr, hd, hl⟩ := commaSeparatedBefore_yields (argument_yields hi) h2
  obtain ⟨c, hc, hrc⟩ := expect_eq_ok.1 h3
  have hall := hro.append (hr.append hrc)
  obtain ⟨rfl, rfl⟩ := (close_eq_ok_of_reads hall (by simp)).1 h
  exact ⟨_, hall, .arguments ho hd hc, Tree.levels_node_lt_iff.2 hl⟩

theorem group_yields (hi : inner.Sound n) (hat : s.current? = some (.punct .leftParen))
    (h : group inner s = .ok t s') : ∃ ls, s.Reads ls s' ∧ Derives .primary ls [t] ∧ t.levels < n + 1 := by
  obtain ⟨o, ho, hro⟩ := current?_eq_some.1 hat
  unfold group at h
  rw [offset_bind, advance_bind] at h
  obtain ⟨value, s₁, h1, h⟩ := bind_eq_ok.1 h
  obtain ⟨_, s₂, h2, h⟩ := bind_eq_ok.1 h
  obtain ⟨ls, hr, hd, hl⟩ := hi.expression h1
  obtain ⟨c, hc, hrc⟩ := expect_eq_ok.1 h2
  have hall := hro.append (hr.append hrc)
  obtain ⟨rfl, rfl⟩ := (close_eq_ok_of_reads hall (by simp)).1 h
  exact ⟨_, hall, .group ho hd hc, Tree.levels_node_lt_iff.2 (by simpa [Kind.enters] using hl)⟩

theorem primary_yields (hi : inner.Sound n) : Yields (primary inner) .primary (n + 1) := by
  intro s s' t h
  unfold primary at h
  rw [stream_bind] at h
  have atom : ∀ {token : Token} {a : Atom}, s.current? = some token → token.atom? = some a →
      leaf a s = .ok t s' → ∃ ls, s.Reads ls s' ∧ Derives .primary ls [t] ∧ t.levels < n + 1 := by
    intro token a hc ha h
    obtain ⟨l, rfl, hr⟩ := current?_eq_some.1 hc
    rw [leaf_of_reads a hr] at h
    cases h
    exact ⟨[l], hr, .atom ha, by simp⟩
  rcases hc : s.current? with _ | token
  · rw [hc] at h
    exact absurd h fail_ne_ok
  · rw [hc] at h
    match token, hc, h with
    | .number _, hc, h | .string _, hc, h | .identifier _, hc, h => exact atom hc rfl h
    | .keyword .trueWord, hc, h | .keyword .falseWord, hc, h | .keyword .nullWord, hc, h => exact atom hc rfl h
    | .keyword .varWord, _, h | .keyword .returnWord, _, h => exact absurd h fail_ne_ok
    | .punct p, hc, h =>
      cases p with
      | leftParen => exact group_yields hi hc h
      | _ => exact absurd h fail_ne_ok

/-- A trailer closes a node over the value before it and what it takes itself. -/
theorem trailer?_reads (hi : inner.Sound n) {ls : List Lexeme} {a b : Tree} (hd : Derives .call ls [a])
    (hl : a.levels < n + 1) (h : trailer? inner a s = .ok (some b) s') :
    ∃ ms, s.Reads ms s' ∧ Derives .call (ls ++ ms) [b] ∧ b.levels < n + 1 := by
  unfold trailer? at h
  rw [isAt_bind] at h
  split at h
  · obtain ⟨arguments, s₁, h1, h⟩ := bind_eq_ok.1 h
    rw [closeFrom_bind] at h
    obtain ⟨ms, hr, hda, hla⟩ := argumentList_yields hi h1
    obtain ⟨hb, rfl⟩ := pure_eq_ok.1 h
    cases hb
    rw [hd.span_eq, ← hr.cover_append (hd.ne_nil (by simp)) (hda.ne_nil (by simp))]
    refine ⟨ms, hr, .invocation hd hda, Tree.levels_node_lt_iff.2 ?_⟩
    exact List.forall_mem_cons.2 ⟨hl, List.forall_mem_singleton.2 hla⟩
  · obtain ⟨found, s₁, h1, h⟩ := bind_eq_ok.1 h
    cases found with
    | false => cases (pure_eq_ok.1 h).1
    | true =>
      obtain ⟨d, hdot, hrd⟩ := accept_eq_ok_true.1 h1
      obtain ⟨member, s₂, h2, h⟩ := bind_eq_ok.1 h
      rw [closeFrom_bind] at h
      obtain ⟨ms, hr, hdm, hlm⟩ := name_yields (n := n) h2
      obtain ⟨hb, rfl⟩ := pure_eq_ok.1 h
      cases hb
      have hall := hrd.append hr
      rw [hd.span_eq, ← hall.cover_append (hd.ne_nil (by simp)) (by simp)]
      refine ⟨_, hall, .access hd hdot hdm, Tree.levels_node_lt_iff.2 ?_⟩
      exact List.forall_mem_cons.2 ⟨hl, List.forall_mem_singleton.2 hlm⟩

theorem trailer?_none {a : Tree} (h : trailer? inner a s = .ok none s') : s' = s := by
  unfold trailer? at h
  rw [isAt_bind] at h
  split at h
  · obtain ⟨_, _, -, h⟩ := bind_eq_ok.1 h
    rw [closeFrom_bind] at h
    cases (pure_eq_ok.1 h).1
  · obtain ⟨found, s₁, h1, h⟩ := bind_eq_ok.1 h
    cases found with
    | false =>
      obtain ⟨-, hs⟩ := accept_eq_ok_false.1 h1
      exact (pure_eq_ok.1 h).2.trans hs
    | true =>
      obtain ⟨_, _, -, h⟩ := bind_eq_ok.1 h
      rw [closeFrom_bind] at h
      cases (pure_eq_ok.1 h).1

theorem call_yields (hi : inner.Sound n) : Yields (call inner) .call (n + 1) := by
  intro s s' t h
  obtain ⟨first, s₁, h1, h⟩ := bind_eq_ok.1 h
  obtain ⟨ls, hr, hd, hl⟩ := primary_yields hi h1
  obtain ⟨ms, hr', hd', hl'⟩ := grow_reads (P := fun ls t => Derives .call ls [t] ∧ t.levels < n + 1)
    trailer?_none (fun hp h => trailer?_reads hi hp.1 hp.2 h) ⟨.callee hd, hl⟩ h
  exact ⟨ls ++ ms, hr.append hr', hd', hl'⟩

theorem unary_yields (hi : inner.Sound n) : Yields (unary inner) .unary (n + 1) := by
  intro s s' t h
  unfold unary at h
  rw [offset_bind] at h
  obtain ⟨found, s₁, h1, h⟩ := bind_eq_ok.1 h
  cases found with
  | false =>
    obtain ⟨-, rfl⟩ := acceptAny_eq_ok_false.1 h1
    obtain ⟨ls, hr, hd, hl⟩ := call_yields hi h
    exact ⟨ls, hr, .unsigned hd, hl⟩
  | true =>
    obtain ⟨o, p, ho, hp, hro⟩ := acceptAny_eq_ok_true.1 h1
    obtain ⟨operand, s₂, h2, h⟩ := bind_eq_ok.1 h
    obtain ⟨ls, hr, hd, hl⟩ := hi.operand h2
    have hall := hro.append hr
    obtain ⟨rfl, rfl⟩ := (close_eq_ok_of_reads hall (by simp)).1 h
    have hsign : p.isSign = true := by
      simp only [List.mem_cons, List.not_mem_nil, or_false] at hp
      rcases hp with rfl | rfl <;> rfl
    exact ⟨_, hall, .signed ho hsign hd, Tree.levels_node_lt_iff.2 (by simpa [Kind.enters] using hl)⟩

/-! ## Binary operators -/

theorem operation?_none {operators : List Punct} {operand : Parse Tree} {a : Tree}
    (h : operation? operators operand a s = .ok none s') : s' = s := by
  obtain ⟨found, s₁, h1, h⟩ := bind_eq_ok.1 h
  cases found with
  | false =>
    obtain ⟨-, hs⟩ := acceptAny_eq_ok_false.1 h1
    exact (pure_eq_ok.1 h).2.trans hs
  | true =>
    obtain ⟨_, _, -, h⟩ := bind_eq_ok.1 h
    rw [closeFrom_bind] at h
    cases (pure_eq_ok.1 h).1

/-- An operation closes a node over the operand before it and the one that it takes itself. -/
theorem operation?_reads {operators : List Punct} {operand : Parse Tree} {k : Nat} {ls : List Lexeme} {a b : Tree}
    (hops : ∀ p ∈ operators, p.level? = some k) (hi : Yields operand (.binary (k + 1)) (n + 1))
    (hd : Derives (.binary k) ls [a]) (hl : a.levels < n + 1)
    (h : operation? operators operand a s = .ok (some b) s') :
    ∃ ms, s.Reads ms s' ∧ Derives (.binary k) (ls ++ ms) [b] ∧ b.levels < n + 1 := by
  obtain ⟨found, s₁, h1, h⟩ := bind_eq_ok.1 h
  cases found with
  | false => cases (pure_eq_ok.1 h).1
  | true =>
    obtain ⟨o, p, ho, hp, hro⟩ := acceptAny_eq_ok_true.1 h1
    obtain ⟨right, s₂, h2, h⟩ := bind_eq_ok.1 h
    rw [closeFrom_bind] at h
    obtain ⟨ms, hr, hdr, hlr⟩ := hi h2
    obtain ⟨hb, rfl⟩ := pure_eq_ok.1 h
    cases hb
    have hall := hro.append hr
    rw [hd.span_eq, ← hall.cover_append (hd.ne_nil (by simp)) (by simp)]
    refine ⟨_, hall, .operation hd ho (hops p hp) hdr, Tree.levels_node_lt_iff.2 ?_⟩
    exact List.forall_mem_cons.2 ⟨hl, List.forall_mem_singleton.2 hlr⟩

theorem binaryLevel_yields {operators : List Punct} {operand : Parse Tree} {k : Nat}
    (hops : ∀ p ∈ operators, p.level? = some k) (hi : Yields operand (.binary (k + 1)) (n + 1)) :
    Yields (binaryLevel operators operand) (.binary k) (n + 1) := by
  intro s s' t h
  obtain ⟨first, s₁, h1, h⟩ := bind_eq_ok.1 h
  obtain ⟨ls, hr, hd, hl⟩ := hi h1
  obtain ⟨ms, hr', hd', hl'⟩ := grow_reads (P := fun ls t => Derives (.binary k) ls [t] ∧ t.levels < n + 1)
    operation?_none (fun hp h => operation?_reads hops hi hp.1 hp.2 h) ⟨.stronger hd, hl⟩ h
  exact ⟨ls ++ ms, hr.append hr', hd', hl'⟩

theorem binary_yields (hi : inner.Sound n) : Yields (binary inner) (.binary 0) (n + 1) := by
  have hu : Yields (unary inner) (.binary operatorLevels) (n + 1) := by
    intro s s' t h
    obtain ⟨ls, hr, hd, hl⟩ := unary_yields hi h
    exact ⟨ls, hr, .operand hd, hl⟩
  show Yields (binaryOperators.foldr binaryLevel (unary inner)) (.binary 0) (n + 1)
  simp only [binaryOperators, List.foldr_cons, List.foldr_nil]
  iterate 6 refine binaryLevel_yields (by decide) ?_
  exact hu

theorem expressionBody_yields (hi : inner.Sound n) : Yields (expressionBody inner) .expression (n + 1) := by
  intro s s' t h
  unfold expressionBody at h
  rw [stream_bind] at h
  split at h
  · rename_i hat
    exact bareLambda_yields hi hat h
  · split at h
    · exact parenthesizedLambda_yields hi h
    · obtain ⟨ls, hr, hd, hl⟩ := binary_yields hi h
      exact ⟨ls, hr, .noLambda hd, hl⟩

/-! ## Statements -/

theorem localDeclaration_yields (hi : inner.Sound n) (hat : s.current? = some (.keyword .varWord))
    (h : localDeclaration inner s = .ok t s') :
    ∃ ls, s.Reads ls s' ∧ Derives .statement ls [t] ∧ t.levels < n + 1 := by
  obtain ⟨v, hv, hrv⟩ := current?_eq_some.1 hat
  unfold localDeclaration at h
  rw [offset_bind, advance_bind] at h
  obtain ⟨declared, s₁, h1, h⟩ := bind_eq_ok.1 h
  obtain ⟨_, s₂, h2, h⟩ := bind_eq_ok.1 h
  obtain ⟨value, s₃, h3, h⟩ := bind_eq_ok.1 h
  obtain ⟨_, s₄, h4, h⟩ := bind_eq_ok.1 h
  obtain ⟨ls, hr, hd, hl⟩ := name_yields (n := 0) h1
  obtain ⟨e, he, hre⟩ := expect_eq_ok.1 h2
  obtain ⟨ms, hrx, hdx, hlx⟩ := hi.expression h3
  obtain ⟨c, hc, hrc⟩ := expect_eq_ok.1 h4
  have hall := hrv.append (hr.append (hre.append (hrx.append hrc)))
  obtain ⟨rfl, rfl⟩ := (close_eq_ok_of_reads hall (by simp)).1 h
  have hln : declared.levels < n := by omega
  exact ⟨_, hall, .localDeclaration hv hd he hdx hc,
    Tree.levels_node_lt_iff.2 (by simpa [Kind.enters] using ⟨hln, hlx⟩)⟩

theorem returnStatement_yields (hi : inner.Sound n) (hat : s.current? = some (.keyword .returnWord))
    (h : returnStatement inner s = .ok t s') :
    ∃ ls, s.Reads ls s' ∧ Derives .statement ls [t] ∧ t.levels < n + 1 := by
  obtain ⟨r, hret, hrr⟩ := current?_eq_some.1 hat
  unfold returnStatement at h
  rw [offset_bind, advance_bind, isAt_bind] at h
  split at h
  · rw [pure_bind_run] at h
    obtain ⟨_, s₁, h1, h⟩ := bind_eq_ok.1 h
    obtain ⟨c, hc, hrc⟩ := expect_eq_ok.1 h1
    have hall := hrr.append hrc
    obtain ⟨rfl, rfl⟩ := (close_eq_ok_of_reads hall (by simp)).1 h
    exact ⟨_, hall, .returnNothing hret hc, Tree.levels_node_lt_iff.2 (by simp)⟩
  · obtain ⟨x, s₁, h1, h⟩ := bind_eq_ok.1 h
    rw [pure_bind_run] at h
    obtain ⟨_, s₂, h2, h⟩ := bind_eq_ok.1 h
    obtain ⟨ls, hr, hd, hl⟩ := hi.expression h1
    obtain ⟨c, hc, hrc⟩ := expect_eq_ok.1 h2
    have hall := hrr.append (hr.append hrc)
    obtain ⟨rfl, rfl⟩ := (close_eq_ok_of_reads hall (by simp)).1 h
    exact ⟨_, hall, .returnValue hret hd hc, Tree.levels_node_lt_iff.2 (by simpa [Kind.enters] using hl)⟩

theorem expressionStatement_yields (hi : inner.Sound n) :
    Yields (expressionStatement inner) .statement (n + 1) := by
  intro s s' t h
  unfold expressionStatement at h
  rw [offset_bind] at h
  obtain ⟨value, s₁, h1, h⟩ := bind_eq_ok.1 h
  obtain ⟨_, s₂, h2, h⟩ := bind_eq_ok.1 h
  obtain ⟨ls, hr, hd, hl⟩ := hi.expression h1
  obtain ⟨c, hc, hrc⟩ := expect_eq_ok.1 h2
  have hall := hr.append hrc
  obtain ⟨rfl, rfl⟩ := (close_eq_ok_of_reads hall (by simp)).1 h
  exact ⟨_, hall, .expressionStatement hd hc, Tree.levels_node_lt_iff.2 (by simpa [Kind.enters] using hl)⟩

theorem statement_yields (hi : inner.Sound n) : Yields (statement inner) .statement (n + 1) := by
  intro s s' t h
  unfold statement at h
  rw [stream_bind] at h
  rcases hc : s.current? with _ | token
  · rw [hc] at h
    exact expressionStatement_yields hi h
  · rw [hc] at h
    match token, hc, h with
    | .keyword .varWord, hc, h => exact localDeclaration_yields hi hc h
    | .keyword .returnWord, hc, h => exact returnStatement_yields hi hc h
    | .keyword .trueWord, _, h | .keyword .falseWord, _, h | .keyword .nullWord, _, h =>
      exact expressionStatement_yields hi h
    | .number _, _, h | .string _, _, h | .identifier _, _, h => exact expressionStatement_yields hi h
    | .punct p, _, h =>
      cases p with
      | leftBrace =>
        obtain ⟨ls, hr, hd, hl⟩ := hi.block h
        exact ⟨ls, hr, .blockStatement hd, hl⟩
      | _ => exact expressionStatement_yields hi h

theorem many_blockItem?_yields (hi : inner.Sound n) : YieldsAll (many (blockItem? inner)) .statements (n + 1) := by
  intro s s' ts h
  refine many_reads (P := fun ls ts => Derives .statements ls ts ∧ ∀ t ∈ ts, t.levels < n + 1)
    ⟨.noStatements, by simp⟩ ?_ ?_ h
  · intro s s' h
    unfold blockItem? at h
    rw [stream_bind] at h
    split at h
    · exact (pure_eq_ok.1 h).2
    · obtain ⟨_, _, -, h⟩ := bind_eq_ok.1 h
      cases (pure_eq_ok.1 h).1
  · intro s s' t h
    unfold blockItem? at h
    rw [stream_bind] at h
    split at h
    · cases (pure_eq_ok.1 h).1
    · obtain ⟨u, s₁, h1, h⟩ := bind_eq_ok.1 h
      obtain ⟨hu, rfl⟩ := pure_eq_ok.1 h
      cases hu
      obtain ⟨ls, hr, hd, hl⟩ := statement_yields hi h1
      exact ⟨ls, hr, fun hp => ⟨.statements hd hp.1, List.forall_mem_cons.2 ⟨hl, hp.2⟩⟩⟩

theorem blockBody_yields (hi : inner.Sound n) : Yields (blockBody inner) .block (n + 2) := by
  intro s s' t h
  unfold blockBody at h
  rw [offset_bind] at h
  obtain ⟨_, s₁, h1, h⟩ := bind_eq_ok.1 h
  obtain ⟨ts, s₂, h2, h⟩ := bind_eq_ok.1 h
  obtain ⟨_, s₃, h3, h⟩ := bind_eq_ok.1 h
  obtain ⟨o, ho, hro⟩ := expect_eq_ok.1 h1
  obtain ⟨ls, hr, hd, hl⟩ := many_blockItem?_yields hi h2
  obtain ⟨c, hc, hrc⟩ := expect_eq_ok.1 h3
  have hall := hro.append (hr.append hrc)
  obtain ⟨rfl, rfl⟩ := (close_eq_ok_of_reads hall (by simp)).1 h
  exact ⟨_, hall, .block ho hd hc, Tree.levels_node_lt_iff.2 hl⟩

/-! ## Levels and items -/

/-- The productions of every level are sound. -/
theorem nested_sound (cap : Nat) : ∀ n, (nested cap n).Sound n
  | 0 => ⟨fun h => absurd h fail_ne_ok, fun h => absurd h fail_ne_ok, fun h => absurd h fail_ne_ok,
      fun h => absurd h fail_ne_ok⟩
  | n + 1 =>
    have hi := nested_sound cap n
    ⟨typeBody_yields hi, blockBody_yields hi, expressionBody_yields hi, unary_yields hi⟩

theorem methodDeclaration_yields (hi : inner.Sound n) : Yields (methodDeclaration inner) .item (n + 1) := by
  intro s s' t h
  unfold methodDeclaration at h
  rw [offset_bind] at h
  obtain ⟨type, s₁, h1, h⟩ := bind_eq_ok.1 h
  obtain ⟨declared, s₂, h2, h⟩ := bind_eq_ok.1 h
  rw [offset_bind] at h
  obtain ⟨_, s₃, h3, h⟩ := bind_eq_ok.1 h
  obtain ⟨parameters, s₄, h4, h⟩ := bind_eq_ok.1 h
  obtain ⟨_, s₅, h5, h⟩ := bind_eq_ok.1 h
  obtain ⟨ls, hr, hd, hl⟩ := hi.type h1
  obtain ⟨ms, hrn, hdn, hln⟩ := name_yields (n := n) h2
  obtain ⟨o, ho, hro⟩ := expect_eq_ok.1 h3
  obtain ⟨ps, hrp, hdp, hlp⟩ := commaSeparatedBefore_yields (typedParameter_yields hi true) h4
  obtain ⟨c, hc, hrc⟩ := expect_eq_ok.1 h5
  have hlist := hro.append (hrp.append hrc)
  rw [close_bind_of_reads hlist (by simp)] at h
  obtain ⟨_, s₆, h6, h⟩ := bind_eq_ok.1 h
  obtain ⟨e, he, hre⟩ := expect_eq_ok.1 h6
  have hall := hr.append (hrn.append (hlist.append hre))
  obtain ⟨rfl, rfl⟩ := (close_eq_ok_of_reads hall (by simp [hd.ne_nil])).1 h
  have hll : (Tree.node .parameterList (cover ([o] ++ (ps ++ [c]))) parameters).levels < n + 1 :=
    Tree.levels_node_lt_iff.2 hlp
  refine ⟨_, hall, .method hd hdn (.parameters ho hdp hc) he, Tree.levels_node_lt_iff.2 ?_⟩
  simp only [List.mem_cons, List.not_mem_nil, or_false, forall_eq_or_imp, forall_eq]
  exact ⟨hl, hln, hll⟩

theorem item_yields (cap : Nat) : Yields (item cap) .item (cap + 1) := by
  intro s s' t h
  unfold item at h
  rw [stream_bind] at h
  split at h
  · exact methodDeclaration_yields (nested_sound cap cap) h
  · obtain ⟨ls, hr, hd, hl⟩ := statement_yields (nested_sound cap cap) h
    exact ⟨ls, hr, .itemStatement hd, hl⟩

/-- Items read to the end without a fault are derived from all that was ahead, and each was read off its lexemes. -/
theorem itemsFor_derived {cap : Nat} : ∀ (rounds : List Lexeme) (s : TokenStream),
    s.ahead.length ≤ rounds.length → (itemsFor cap rounds s).faults = [] →
    ∃ items : List DerivedItem, s.ahead = items.flatMap (·.lexemes) ∧
      (itemsFor cap rounds s).nodes = items.map (·.tree) ∧ (∀ i ∈ items, i.tree.levels ≤ cap) ∧
      ∀ i ∈ items, ∃ s s' : TokenStream, s.Reads i.lexemes s' ∧ item cap s = .ok i.tree s'
  | [], s, hlen, _ => ⟨[], by simpa using hlen, rfl, by simp, by simp⟩
  | _ :: rounds, s, hlen, hf => by
    unfold itemsFor at hf ⊢
    rw [Builder.stream_eq] at hf ⊢
    by_cases he : s.ahead.isEmpty = true
    · rw [if_pos he]
      exact ⟨[], by simpa using he, rfl, by simp, by simp⟩
    · rw [if_neg he] at hf ⊢
      rcases hi : item cap s with ⟨t, s'⟩ | ⟨fault, s'⟩
      · rw [hi] at hf
        obtain ⟨ls, hr, hd, hl⟩ := item_yields cap hi
        have hlt : 0 < ls.length := List.length_pos_of_ne_nil (hd.ne_nil (by simp))
        have hahead := hr.ahead
        have hshort : s'.ahead.length ≤ rounds.length := by
          rw [hahead, List.length_append, List.length_cons] at hlen
          omega
        obtain ⟨items, h1, h2, h3, h4⟩ := itemsFor_derived rounds s' hshort hf
        refine ⟨⟨ls, t, hd⟩ :: items, ?_, ?_, ?_, List.forall_mem_cons.2 ⟨⟨s, s', hr, hi⟩, h4⟩⟩
        · rw [hahead, h1]; rfl
        · simp [h2]
        · simpa [Nat.lt_succ_iff.1 hl] using h3
      · rw [hi] at hf
        cases hf

end LetLint.Parse
