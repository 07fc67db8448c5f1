/-
Matching parentheses. The lookahead for a lambda counts parentheses and knows nothing of the grammar, and what is
read between two parentheses is read by the grammar and counts nothing. Both come to one parenthesis: the first one
with which as many are closed as were opened from the opening one on. The lookahead finds it because this is what
its count comes to, which therefore never falls below zero, and the readings do because whatever the grammar derives
is balanced.
-/
import LetLint.Proofs.Parse.Progress
import LetLint.Proofs.Parse.Skipping

namespace LetLint

open Parse Lookahead

/-! ## Words that close what is open -/

/-- The words close what is opened among them, and as many parentheses as are open before them. -/
def ClosesAll (opened : Nat) (words : List Token) : Prop :=
  opened + words.count (.punct .leftParen) = words.count (.punct .rightParen)

/-- The first `n` words close all that is open, and no fewer do. -/
structure ClosesFirst (opened : Nat) (words : List Token) (n : Nat) : Prop where
  le : n ≤ words.length
  closes : ClosesAll opened (words.take n)
  first : ∀ k < n, ¬ ClosesAll opened (words.take k)

section

variable {opened opened' n : Nat} {word : Token} {words : List Token} {l : Lexeme} {ls rest : List Lexeme}

theorem closesAll_leftParen : ClosesAll opened (.punct .leftParen :: words) ↔ ClosesAll (opened + 1) words := by
  unfold ClosesAll
  rw [List.count_cons_self, List.count_cons_of_ne (by simp)]
  omega

theorem closesAll_rightParen : ClosesAll (opened + 1) (.punct .rightParen :: words) ↔ ClosesAll opened words := by
  unfold ClosesAll
  rw [List.count_cons_self, List.count_cons_of_ne (by simp)]
  omega

theorem closesAll_of_ne (ho : word ≠ .punct .leftParen) (hc : word ≠ .punct .rightParen) :
    ClosesAll opened (word :: words) ↔ ClosesAll opened words := by
  unfold ClosesAll
  rw [List.count_cons_of_ne ho, List.count_cons_of_ne hc]

theorem not_closesAll_nil : ¬ ClosesAll (opened + 1) [] := fun h => by cases h

theorem ClosesFirst.pos (h : ClosesFirst (opened + 1) words n) : 0 < n := by
  rcases Nat.eq_zero_or_pos n with rfl | hn
  · exact absurd h.closes not_closesAll_nil
  · exact hn

/-- Where nothing is open, no word is needed. -/
theorem closesFirst_zero : ClosesFirst 0 words n ↔ n = 0 := by
  constructor
  · intro h
    by_contra hn
    exact h.first 0 (Nat.pos_of_ne_zero hn) rfl
  · rintro rfl
    exact ⟨Nat.zero_le _, rfl, fun k hk => absurd hk (Nat.not_lt_zero k)⟩

/-- If a word brings what is open to another count, the words behind it close from that count on. -/
theorem closesFirst_cons (hword : ∀ words, ClosesAll (opened + 1) (word :: words) ↔ ClosesAll opened' words) :
    ClosesFirst (opened + 1) (word :: words) (n + 1) ↔ ClosesFirst opened' words n := by
  constructor
  · rintro ⟨hle, hcloses, hfirst⟩
    rw [List.take_succ_cons, hword] at hcloses
    refine ⟨Nat.le_of_succ_le_succ hle, hcloses, fun k hk h => hfirst (k + 1) (Nat.succ_lt_succ hk) ?_⟩
    rw [List.take_succ_cons, hword]
    exact h
  · rintro ⟨hle, hcloses, hfirst⟩
    refine ⟨Nat.succ_le_succ hle, ?_, fun k hk => ?_⟩
    · rw [List.take_succ_cons, hword]
      exact hcloses
    · cases k with
      | zero => exact not_closesAll_nil
      | succ k =>
        rw [List.take_succ_cons, hword]
        exact hfirst k (Nat.lt_of_succ_lt_succ hk)

/-- Lexemes close all that is open where those behind the first one close what is open behind that one. -/
theorem exists_closesFirst_cons (hword : ∀ words, ClosesAll (opened + 1) (l.token :: words) ↔ ClosesAll opened' words) :
    (∃ n, ClosesFirst (opened + 1) ((l :: ls).map (·.token)) n ∧ rest = (l :: ls).drop n) ↔
      ∃ n, ClosesFirst opened' (ls.map (·.token)) n ∧ rest = ls.drop n := by
  constructor
  · rintro ⟨n, h, hrest⟩
    obtain ⟨n, rfl⟩ := Nat.exists_eq_add_one_of_ne_zero (Nat.ne_of_gt h.pos)
    exact ⟨n, (closesFirst_cons hword).1 h, hrest⟩
  · rintro ⟨n, h, hrest⟩
    exact ⟨n + 1, (closesFirst_cons hword).2 h, hrest⟩

/-- The lookahead stops behind the first words that close what is open. -/
theorem afterClosing_eq_some_iff : afterClosing opened ls = some rest ↔
    ∃ n, ClosesFirst (opened + 1) (ls.map (·.token)) n ∧ rest = ls.drop n := by
  induction ls generalizing opened with
  | nil =>
    constructor
    · intro h
      cases h
    · rintro ⟨n, h, -⟩
      exact absurd h.le (Nat.not_le.2 h.pos)
  | cons l ls ih =>
    unfold afterClosing
    by_cases ho : l.token = .punct .leftParen
    · rw [if_pos ho, ih, exists_closesFirst_cons fun _ => ho ▸ closesAll_leftParen]
    rw [if_neg ho]
    by_cases hc : l.token = .punct .rightParen
    · rw [if_pos hc, exists_closesFirst_cons fun _ => hc ▸ closesAll_rightParen]
      cases opened with
      | zero =>
        constructor
        · rintro ⟨⟩
          exact ⟨0, closesFirst_zero.2 rfl, rfl⟩
        · rintro ⟨n, h, rfl⟩
          rw [closesFirst_zero.1 h]
          rfl
      | succ opened => exact ih
    · rw [if_neg hc, ih, exists_closesFirst_cons fun _ => closesAll_of_ne ho hc]

/-- At a parenthesis, the lookahead goes by what stands behind the one that closes it. -/
theorem startsParenthesizedLambda_cons_iff (hl : l.token = .punct .leftParen) :
    startsParenthesizedLambda (l :: ls) = true ↔
      ∃ m behind, afterClosing 0 ls = some (m :: behind) ∧ m.token = .punct .fatArrow := by
  simp only [startsParenthesizedLambda, hl, beq_self_eq_true, Bool.true_and]
  rcases afterClosing 0 ls with _ | _ | _ <;> simp

end

/-! ## Matching indices -/

namespace Tokens

variable {tokens : Tokens} {p j : Nat} {rest : List Lexeme}

/-- The words from the first index through the second. -/
def run (tokens : Tokens) (p j : Nat) : List Token := (tokens.words.drop p).take (j + 1 - p)

/-- The second index is the first one behind the other through which as many parentheses are opened as closed. -/
structure MatchesAt (tokens : Tokens) (p j : Nat) : Prop where
  lt : p < j
  lt_length : j < tokens.words.length
  even : (tokens.run p j).count (.punct .leftParen) = (tokens.run p j).count (.punct .rightParen)
  first : ∀ k, p ≤ k → k < j →
    (tokens.run p k).count (.punct .leftParen) ≠ (tokens.run p k).count (.punct .rightParen)

instance : Decidable (tokens.MatchesAt p j) :=
  decidable_of_iff (p < j ∧ j < tokens.words.length ∧
      (tokens.run p j).count (.punct .leftParen) = (tokens.run p j).count (.punct .rightParen) ∧
      ∀ k < j, p ≤ k → (tokens.run p k).count (.punct .leftParen) ≠ (tokens.run p k).count (.punct .rightParen))
    ⟨fun ⟨hlt, hlength, heven, hfirst⟩ => ⟨hlt, hlength, heven, fun k hk hkj => hfirst k hkj hk⟩,
      fun ⟨hlt, hlength, heven, hfirst⟩ => ⟨hlt, hlength, heven, fun k hkj hk => hfirst k hk hkj⟩⟩

/-- From an opening parenthesis on, a run is even where the words behind the parenthesis close it. -/
theorem run_even_iff (hopen : tokens.words[p]? = some (.punct .leftParen)) (hj : p ≤ j) :
    (tokens.run p j).count (.punct .leftParen) = (tokens.run p j).count (.punct .rightParen) ↔
      ClosesAll 1 ((tokens.words.drop (p + 1)).take (j - p)) := by
  obtain ⟨hp, hword⟩ := List.getElem?_eq_some_iff.1 hopen
  have hrun : tokens.run p j = .punct .leftParen :: (tokens.words.drop (p + 1)).take (j - p) := by
    rw [run, List.drop_eq_getElem_cons hp, hword, Nat.sub_add_comm hj, List.take_succ_cons]
  rw [hrun, ← closesAll_leftParen, ClosesAll, Nat.zero_add]

theorem matchesAt_iff (hopen : tokens.words[p]? = some (.punct .leftParen)) :
    tokens.MatchesAt p j ↔ p < j ∧ ClosesFirst 1 (tokens.words.drop (p + 1)) (j - p) := by
  constructor
  · rintro ⟨hlt, hlength, heven, hfirst⟩
    refine ⟨hlt, ?_, (run_even_iff hopen (Nat.le_of_lt hlt)).1 heven, fun k hk h => ?_⟩
    · rw [List.length_drop]
      omega
    · refine hfirst (p + k) (Nat.le_add_right p k) (by omega) ((run_even_iff hopen (Nat.le_add_right p k)).2 ?_)
      rwa [Nat.add_sub_cancel_left]
  · rintro ⟨hlt, hle, hcloses, hfirst⟩
    rw [List.length_drop] at hle
    refine ⟨hlt, by omega, (run_even_iff hopen (Nat.le_of_lt hlt)).2 hcloses, fun k hk hkj h => ?_⟩
    exact hfirst (k - p) (by omega) ((run_even_iff hopen hk).1 h)

/-- The lookahead stops behind the matching parenthesis. -/
theorem afterClosing_drop_iff (hopen : tokens.words[p]? = some (.punct .leftParen)) :
    afterClosing 0 (tokens.lexemes.drop (p + 1)) = some rest ↔
      ∃ j, tokens.MatchesAt p j ∧ rest = tokens.lexemes.drop (j + 1) := by
  have hwords : (tokens.lexemes.drop (p + 1)).map (·.token) = tokens.words.drop (p + 1) := List.map_drop
  rw [afterClosing_eq_some_iff, hwords]
  constructor
  · rintro ⟨n, h, rfl⟩
    have hn := h.pos
    refine ⟨p + n, (matchesAt_iff hopen).2 ⟨by omega, ?_⟩, ?_⟩
    · rwa [Nat.add_sub_cancel_left]
    · rw [List.drop_drop, Nat.add_right_comm]
  · rintro ⟨j, h, rfl⟩
    obtain ⟨hlt, hfirst⟩ := (matchesAt_iff hopen).1 h
    refine ⟨j - p, hfirst, ?_⟩
    rw [List.drop_drop]
    congr 1
    omega

/-- Where the lookahead stops behind an index, this one matches. -/
theorem matchesAt_of_afterClosing (hopen : tokens.words[p]? = some (.punct .leftParen))
    (hj : j + 1 ≤ tokens.lexemes.length)
    (hafter : afterClosing 0 (tokens.lexemes.drop (p + 1)) = some (tokens.lexemes.drop (j + 1))) :
    tokens.MatchesAt p j := by
  obtain ⟨k, hk, hrest⟩ := (afterClosing_drop_iff hopen).1 hafter
  have hlength := congrArg List.length hrest
  have hlt := hk.lt_length
  rw [words, List.length_map] at hlt
  rw [List.length_drop, List.length_drop] at hlength
  have hkj : k = j := by omega
  exact hkj ▸ hk

/-- The lexeme at an index stands before those from the next index on. -/
theorem exists_drop_eq_cons {word : Token} (h : tokens.words[p]? = some word) :
    ∃ l, l.token = word ∧ tokens.lexemes.drop p = l :: tokens.lexemes.drop (p + 1) := by
  rw [words, List.getElem?_map, Option.map_eq_some_iff] at h
  obtain ⟨l, hl, hword⟩ := h
  obtain ⟨hp, rfl⟩ := List.getElem?_eq_some_iff.1 hl
  exact ⟨_, hword, List.drop_eq_getElem_cons hp⟩

/-- A lambda is guessed where an arrow stands behind the matching parenthesis. -/
theorem startsParenthesizedLambda_drop_iff (hopen : tokens.words[p]? = some (.punct .leftParen)) :
    startsParenthesizedLambda (tokens.lexemes.drop p) = true ↔
      ∃ j, tokens.MatchesAt p j ∧ tokens.words[j + 1]? = some (.punct .fatArrow) := by
  obtain ⟨l, hl, hdrop⟩ := exists_drop_eq_cons hopen
  rw [hdrop, startsParenthesizedLambda_cons_iff hl]
  constructor
  · rintro ⟨m, behind, hafter, hm⟩
    obtain ⟨j, hj, hrest⟩ := (afterClosing_drop_iff hopen).1 hafter
    refine ⟨j, hj, ?_⟩
    rw [words, List.getElem?_map, ← List.head?_drop, ← hrest, List.head?_cons, Option.map_some, hm]
  · rintro ⟨j, hj, harrow⟩
    obtain ⟨m, hm, hbehind⟩ := exists_drop_eq_cons harrow
    exact ⟨m, _, (afterClosing_drop_iff hopen).2 ⟨j, hj, hbehind.symm⟩, hm⟩

end Tokens

/-- In `(()=>` the first parenthesis is not closed. -/
example : startsParenthesizedLambda (Tokens.counted
    [.punct .leftParen, .punct .leftParen, .punct .rightParen, .punct .fatArrow]).lexemes = false := rfl

/-! ## What is read between parentheses -/

section

variable {σ ν α : Type} [Builder σ ν] {tokens : Tokens} {p : Nat} {s : σ}

/-- Where the reading succeeds, it has taken balanced lexemes and stands at an index again. -/
def TakesBalanced (tokens : Tokens) (q : Reading σ α) : Prop :=
  ∀ ⦃i : Nat⦄ ⦃s s' : σ⦄ ⦃a : α⦄, StandsAt tokens i s → q s = .ok a s' → ∃ j ls, StandsAt tokens j s' ∧
    tokens.lexemes.drop i = ls ++ tokens.lexemes.drop j ∧ Balanced ls

variable [LawfulBuilder σ]

/-- What goes in step with a reading of trees takes balanced lexemes if this does. -/
theorem takesBalanced_of_agrees {β : Type} {post : List (Tree × ν) → α → β → Prop} {q : Parse α} {q' : Reading σ β}
    (h : (shadowing tokens 0).Agrees [] post q q')
    (hq : ∀ {s s' : TokenStream} {a : α}, q s = .ok a s' → ∃ ls, s.Reads ls s' ∧ Balanced ls) :
    TakesBalanced tokens q' := by
  intro i s s' b hs hread
  have hrel : (shadowing tokens 0).rel () ([] ++ []) (tokens.streamAt i) s := ⟨i, Nat.zero_le i, rfl, hs⟩
  rcases h hrel with ⟨_, _, _, _, _, hreadTree, hread', -, j, -, rfl, hs'⟩ | ⟨_, _, _, _, -, hread', -⟩
  · cases hread.symm.trans hread'
    obtain ⟨ls, hreads, hbalanced⟩ := hq hreadTree
    exact ⟨j, ls, hs', hreads.ahead, hbalanced⟩
  · cases hread.symm.trans hread'

theorem expression_takesBalanced (cap levels : Nat) :
    TakesBalanced tokens (nestedIn cap levels : NestedIn σ ν).expression := by
  refine takesBalanced_of_agrees (Simulation.nestedIn_agrees cap levels).expression fun hread => ?_
  obtain ⟨ls, hreads, hderives, -⟩ := (nested_sound cap levels).expression hread
  exact ⟨ls, hreads, hderives.balanced rfl⟩

theorem lambdaParameters_takesBalanced (cap levels : Nat) :
    TakesBalanced tokens (commaSeparatedBefore .rightParen (lambdaParameter (nestedIn cap levels : NestedIn σ ν))) := by
  have hagrees : (shadowing tokens 0).NestedAgrees (nested cap levels) (nestedIn cap levels : NestedIn σ ν) :=
    Simulation.nestedIn_agrees cap levels
  refine takesBalanced_of_agrees
    (Simulation.commaSeparatedBefore_agrees (Simulation.lambdaParameter_makes hagrees) .rightParen) fun hread => ?_
  obtain ⟨ls, hreads, hderives, -⟩ :=
    commaSeparatedBefore_yields (lambdaParameter_yields (nested_sound cap levels)) hread
  exact ⟨ls, hreads, hderives.balanced rfl⟩

omit [LawfulBuilder σ] in
/-- What is expected stands at the index, and is taken. -/
theorem StandsAt.of_expect {slot : Slot} {u : Unit} {s' : σ} (h : StandsAt tokens p s)
    (hread : expect slot s = .ok u s') :
    tokens.words[p]? = some (.punct slot.punct) ∧ s' = Builder.advance s := by
  unfold expect at hread
  split at hread
  · rename_i hat
    rw [TokenStream.isAt, h.current?_eq, beq_iff_eq] at hat
    cases hread
    exact ⟨hat, rfl⟩
  · cases hread

/-- Behind an opening parenthesis the content is read to the index of a closing one, and this one is taken. -/
structure ClosesAt (tokens : Tokens) (j : Nat) (content : Reading σ α) (closing : Slot) (s : σ) (a : α) (s₁ s₂ : σ) :
    Prop where
  content : content (Builder.advance s) = .ok a s₁ ∧ StandsAt tokens j s₁
  word : tokens.words[j]? = some (.punct .rightParen)
  closing : expect closing s₁ = .ok () s₂ ∧ StandsAt tokens (j + 1) s₂

/-- Balanced content is closed by the parenthesis that matches the one before it. -/
theorem StandsAt.exists_closesAt {content : Reading σ α} {closing : Slot} {kind : Kind} {start : Nat}
    {parts : α → List ν} {t : ν} {s' : σ} (h : StandsAt tokens p s)
    (hopen : tokens.words[p]? = some (.punct .leftParen)) (hcontent : TakesBalanced tokens content)
    (hclosing : closing.punct = .rightParen)
    (hread : (content >>= fun a => expect closing >>= fun _ => close kind start (parts a)) (Builder.advance s) =
      .ok t s') :
    ∃ j, tokens.MatchesAt p j ∧ ∃ a s₁ s₂, ClosesAt tokens j content closing s a s₁ s₂ ∧
      close kind start (parts a) s₂ = .ok t s' := by
  obtain ⟨a, s₁, h1, hread⟩ := bind_eq_ok.1 hread
  obtain ⟨_, s₂, h2, hclose⟩ := bind_eq_ok.1 hread
  obtain ⟨j, ls, hs₁, hls, hbalanced⟩ := hcontent (h.advance_of_getElem? hopen) h1
  obtain ⟨hword, rfl⟩ := hs₁.of_expect h2
  rw [hclosing] at hword
  obtain ⟨c, hc, hdrop⟩ := Tokens.exists_drop_eq_cons hword
  have hafter : afterClosing 0 (tokens.lexemes.drop (p + 1)) = some (tokens.lexemes.drop (j + 1)) := by
    rw [hls, hdrop, afterClosing_of_balanced hbalanced hc]
  have hnext := hs₁.advance_of_getElem? hword
  have hmatches := Tokens.matchesAt_of_afterClosing hopen hnext.le hafter
  exact ⟨j, hmatches, a, s₁, _, ⟨⟨h1, hs₁⟩, hword, h2, hnext⟩, hclose⟩

/-- A reading that comes to a value succeeds. -/
theorem exists_ok_of_isSome_run' {q : Reading σ α} (h : (q.run' s).isSome = true) : ∃ a s', q s = .ok a s' := by
  unfold EStateM.run' at h
  split at h
  · exact ⟨_, _, ‹_›⟩
  · cases h

/-! ## Groups and parameters -/

/-- What is read of a lambda up to the parenthesis that closes its parameters. -/
def lambdaParameterList (inner : NestedIn σ ν) : Reading σ ν := do
  let start ← offset
  expect .lambdaOpen
  let parameters ← commaSeparatedBefore .rightParen (lambdaParameter inner)
  expect .lambdaClose
  close .parameterList start parameters

/-- What is read of a lambda behind its parameters. -/
def lambdaBehindParameters (inner : NestedIn σ ν) (start : Nat) (list : ν) : Reading σ ν := do
  expect .lambdaArrow
  let body ← lambdaBody inner
  close .parenthesizedLambda start [list, body]

omit [LawfulBuilder σ] in
/-- A lambda is its parameters and what stands behind them. -/
theorem parenthesizedLambda_split (inner : NestedIn σ ν) (s : σ) : parenthesizedLambda inner s =
    (lambdaParameterList inner >>= lambdaBehindParameters inner (Builder.stream s).place.offset) s := by
  unfold parenthesizedLambda lambdaParameterList lambdaBehindParameters
  simp only [bind_assoc]
  rfl

omit [LawfulBuilder σ] in
/-- At a parenthesis, what is primary is a group. -/
theorem StandsAt.primary_eq (inner : NestedIn σ ν) (h : StandsAt tokens p s)
    (hopen : tokens.words[p]? = some (.punct .leftParen)) : primary inner s =
      (inner.expression >>= fun value => expect .groupClose >>= fun _ =>
        close .parenthesized (Builder.stream s).place.offset [value]) (Builder.advance s) := by
  unfold primary
  rw [Simulation.stream_bind_run, h.current?_eq, hopen]
  rfl

omit [LawfulBuilder σ] in
theorem StandsAt.lambdaParameterList_eq (inner : NestedIn σ ν) (h : StandsAt tokens p s)
    (hopen : tokens.words[p]? = some (.punct .leftParen)) : lambdaParameterList inner s =
      (commaSeparatedBefore .rightParen (lambdaParameter inner) >>= fun parameters => expect .lambdaClose >>= fun _ =>
        close .parameterList (Builder.stream s).place.offset parameters) (Builder.advance s) := by
  have hat : (Builder.stream s).isAt Slot.lambdaOpen.punct = true := by
    rw [TokenStream.isAt, h.current?_eq, hopen]
    rfl
  have hexpect : expect .lambdaOpen s = .ok () (Builder.advance s) := if_pos hat
  exact bind_of_ok hexpect

/-- The lookahead for a lambda never counts below zero, and guesses one where an arrow stands behind the matching
parenthesis. Whatever stands behind it, this is the parenthesis that is taken to close a group, or the parameters of
a lambda. -/
theorem closes_as_matched (cap levels : Nat) (h : StandsAt tokens p s)
    (hopen : tokens.words[p]? = some (.punct .leftParen)) :
    scanArrow? 0 (Builder.stream s).ahead = some (startsParenthesizedLambda (Builder.stream s).ahead) ∧
      (startsParenthesizedLambda (Builder.stream s).ahead = true ↔
        ∃ j, tokens.MatchesAt p j ∧ tokens.words[j + 1]? = some (.punct .fatArrow)) ∧
      (∀ t s', primary (nestedIn cap levels) s = .ok t s' → ∃ j, tokens.MatchesAt p j ∧ ∃ value s₁ s₂,
        ClosesAt tokens j (nestedIn cap levels).expression .groupClose s value s₁ s₂ ∧
          close .parenthesized (Builder.stream s).place.offset [value] s₂ = .ok t s') ∧
      (∀ list s', lambdaParameterList (nestedIn cap levels) s = .ok list s' → ∃ j, tokens.MatchesAt p j ∧
        ∃ parameters s₁ s₂, ClosesAt tokens j
            (commaSeparatedBefore .rightParen (lambdaParameter (nestedIn cap levels))) .lambdaClose s parameters s₁ s₂ ∧
          close .parameterList (Builder.stream s).place.offset parameters s₂ = .ok list s' ∧
          parenthesizedLambda (nestedIn cap levels) s =
            lambdaBehindParameters (nestedIn cap levels) (Builder.stream s).place.offset list s') := by
  rw [h.ahead_eq]
  refine ⟨?_, Tokens.startsParenthesizedLambda_drop_iff hopen, fun t s' hread => ?_, fun list s' hread => ?_⟩
  · obtain ⟨l, hl, hdrop⟩ := Tokens.exists_drop_eq_cons hopen
    rw [hdrop]
    exact scanArrow?_eq hl
  · rw [h.primary_eq _ hopen] at hread
    exact h.exists_closesAt hopen (expression_takesBalanced cap levels) rfl hread
  · have hlambda := (parenthesizedLambda_split (nestedIn cap levels) s).trans (bind_of_ok hread)
    rw [h.lambdaParameterList_eq _ hopen] at hread
    obtain ⟨j, hj, parameters, s₁, s₂, hcloses, hclose⟩ :=
      h.exists_closesAt hopen (lambdaParameters_takesBalanced cap levels) rfl hread
    exact ⟨j, hj, parameters, s₁, s₂, hcloses, hclose, hlambda⟩

/-- The tokens of `(x.f((a, B b) => (a)))`. -/
def nestedParens : Tokens :=
  .counted [.punct .leftParen, .identifier "x", .punct .dot, .identifier "f", .punct .leftParen,
    .punct .leftParen, .identifier "a", .punct .comma, .identifier "B", .identifier "b", .punct .rightParen,
    .punct .fatArrow, .punct .leftParen, .identifier "a", .punct .rightParen, .punct .rightParen,
    .punct .rightParen]

/-- Before the token of an index, with no node made. -/
def nestedParensAt (p : Nat) : ArenaStream := ⟨nestedParens.streamAt p, .empty⟩

theorem closes_as_matched_nested :
    (∃ t s', primary (nestedIn 4 4) (nestedParensAt 0) = .ok t s' ∧ ∃ j, nestedParens.MatchesAt 0 j ∧
      ∃ value s₁ s₂, ClosesAt nestedParens j (nestedIn 4 4).expression .groupClose (nestedParensAt 0) value s₁ s₂) ∧
    startsParenthesizedLambda (nestedParensAt 5).stream.ahead = true ∧
    ∃ list s', lambdaParameterList (nestedIn 4 4) (nestedParensAt 5) = .ok list s' ∧ ∃ j, nestedParens.MatchesAt 5 j ∧
      ∃ parameters s₁ s₂, ClosesAt nestedParens j (commaSeparatedBefore .rightParen (lambdaParameter (nestedIn 4 4)))
        .lambdaClose (nestedParensAt 5) parameters s₁ s₂ := by
  have h0 : StandsAt nestedParens 0 (nestedParensAt 0) := ⟨Nat.zero_le _, rfl, rfl⟩
  have h5 : StandsAt nestedParens 5 (nestedParensAt 5) := ⟨by decide, rfl, rfl⟩
  obtain ⟨t, s', hgroup⟩ : ∃ t s', primary (nestedIn 4 4) (nestedParensAt 0) = .ok t s' :=
    exists_ok_of_isSome_run' (by decide +kernel)
  obtain ⟨list, s'', hlist⟩ : ∃ list s', lambdaParameterList (nestedIn 4 4) (nestedParensAt 5) = .ok list s' :=
    exists_ok_of_isSome_run' (by decide +kernel)
  obtain ⟨-, -, hcloses, -⟩ := closes_as_matched 4 4 h0 rfl
  obtain ⟨-, hguess, -, hcloses'⟩ := closes_as_matched 4 4 h5 rfl
  obtain ⟨i, hi, value, s₁, s₂, hvalue, -⟩ := hcloses t s' hgroup
  obtain ⟨j, hj, parameters, s₃, s₄, hparameters, -⟩ := hcloses' list s'' hlist
  exact ⟨⟨t, s', hgroup, i, hi, value, s₁, s₂, hvalue⟩, hguess.2 ⟨10, by decide, rfl⟩,
    list, s'', hlist, j, hj, parameters, s₃, s₄, hparameters⟩

end

end LetLint
