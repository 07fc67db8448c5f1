/-
Skipping a type and reading one. The lookahead skips types by one recursion and the reader reads them by another,
and the two part in one case only: behind a name, a dot without a name is left ahead by the lookahead, and is a
fault to the reader. Between the angles of a type nothing but a comma or the closing angle can stand behind a type,
so there the two always agree, and a difference is left at the end of the outermost type alone. A method is only
guessed where a name stands at that end, so the reader gets at least as far as the guess has looked.
-/
import LetLint.Proofs.Parse.Completeness
import LetLint.Proofs.Parse.Recovery

namespace LetLint

open Lookahead

namespace Parse

variable {α β : Type} {s s' : TokenStream} {ls rest : List Lexeme}

/-! ## What is left ahead -/

/-- The reading succeeds and leaves these lexemes ahead. -/
def Leaves (p : Parse α) (s : TokenStream) (rest : List Lexeme) : Prop := ∃ a s', p s = .ok a s' ∧ s'.ahead = rest

theorem leaves_pure {a : α} : Leaves (pure a) s rest ↔ s.ahead = rest := by
  constructor
  · rintro ⟨_, _, h, rfl⟩
    rw [(pure_eq_ok.1 h).2]
  · exact fun h => ⟨a, s, rfl, h⟩

theorem leaves_close {kind : Kind} {start : Nat} {ts : List Tree} :
    Leaves (close kind start ts) s rest ↔ s.ahead = rest := by
  constructor
  · rintro ⟨_, _, h, rfl⟩
    rw [(close_eq_ok.1 h).2]
  · exact fun h => ⟨_, s, rfl, h⟩

theorem leaves_bind {p : Parse α} {f : α → Parse β} :
    Leaves (p >>= f) s rest ↔ ∃ a s', p s = .ok a s' ∧ Leaves (f a) s' rest := by
  constructor
  · rintro ⟨b, s'', h, hrest⟩
    obtain ⟨a, s', hp, hf⟩ := bind_eq_ok.1 h
    exact ⟨a, s', hp, b, s'', hf, hrest⟩
  · rintro ⟨a, s', hp, b, s'', hf, hrest⟩
    exact ⟨b, s'', bind_eq_ok.2 ⟨a, s', hp, hf⟩, hrest⟩

theorem leaves_offset {f : Nat → Parse α} : Leaves (offset >>= f) s rest ↔ Leaves (f s.place.offset) s rest := Iff.rfl

theorem leaves_isAt {mark : Punct} {f : Bool → Parse α} :
    Leaves (isAt mark >>= f) s rest ↔ Leaves (f (s.isAt mark)) s rest := Iff.rfl

/-- If what follows depends on what is left ahead only, then it is all that matters of the first reading. -/
theorem leaves_bind_of {p : Parse α} {f : α → Parse β} (P : List Lexeme → Prop)
    (hf : ∀ a s', Leaves (f a) s' rest ↔ P s'.ahead) : Leaves (p >>= f) s rest ↔ ∃ mid, Leaves p s mid ∧ P mid := by
  rw [leaves_bind]
  constructor
  · rintro ⟨a, s', hp, h⟩
    exact ⟨s'.ahead, ⟨a, s', hp, rfl⟩, (hf a s').1 h⟩
  · rintro ⟨_, ⟨a, s', hp, rfl⟩, h⟩
    exact ⟨a, s', hp, (hf a s').2 h⟩

theorem leaves_bind_pure {p : Parse α} {f : α → β} : Leaves (p >>= fun a => pure (f a)) s rest ↔ Leaves p s rest := by
  rw [leaves_bind_of (· = rest) fun _ _ => leaves_pure]
  exact exists_eq_right

theorem leaves_expect {slot : Slot} :
    Leaves (expect slot) s rest ↔ ∃ l, l.token = .punct slot.punct ∧ s.ahead = l :: rest := by
  constructor
  · rintro ⟨_, s', h, rfl⟩
    obtain ⟨l, hl, hr⟩ := expect_eq_ok.1 h
    exact ⟨l, hl, hr.ahead⟩
  · rintro ⟨l, hl, h⟩
    obtain ⟨s', hr, hs'⟩ := TokenStream.exists_reads [l] s h
    exact ⟨(), s', expect_eq_ok.2 ⟨l, hl, hr⟩, hs'⟩

theorem leaves_name {slot : NameSlot} :
    Leaves (name slot) s rest ↔ ∃ l, l.token.isIdentifier = true ∧ s.ahead = l :: rest := by
  constructor
  · rintro ⟨_, s', h, rfl⟩
    obtain ⟨_, hr, hd⟩ := name_eq_ok.1 h
    cases hd with
    | @name l n hl => exact ⟨l, by rw [hl]; rfl, hr.ahead⟩
  · rintro ⟨l, hl, h⟩
    obtain ⟨n, hn⟩ := Token.isIdentifier_iff.1 hl
    obtain ⟨s', hr, hs'⟩ := TokenStream.exists_reads [l] s h
    exact ⟨_, s', name_eq_ok.2 ⟨[l], hr, .name hn⟩, hs'⟩

theorem isAt_iff_head {mark : Punct} :
    s.isAt mark = true ↔ ∃ l, l.token = .punct mark ∧ s.ahead = l :: s.advance.ahead := by
  rw [TokenStream.isAt_iff]
  constructor
  · rintro ⟨l, hl, hr⟩
    exact ⟨l, hl, hr.ahead⟩
  · rintro ⟨l, hl, h⟩
    refine ⟨l, hl, TokenStream.reads_one_iff.2 ⟨?_, rfl⟩⟩
    rw [h]
    rfl

theorem isAt_eq_false_iff {mark : Punct} : s.isAt mark = false ↔ ∀ l ∈ s.ahead.head?, l.token ≠ .punct mark := by
  refine ⟨fun hat l hl htoken => ?_, isAt_eq_false_of_head⟩
  have hnext : s.isAt mark = true := TokenStream.isAt_iff.2 ⟨l, htoken, TokenStream.reads_one_iff.2 ⟨hl, rfl⟩⟩
  rw [hat] at hnext
  cases hnext

/-- A loop over separated items ends where the mark is not next. -/
theorem leaves_manyFor_of_not_isAt {mark : Punct} {item : Parse Tree} (rounds : List Lexeme)
    (hat : s.isAt mark = false) :
    Leaves (manyFor (separatedItem? mark item) rounds) s rest ↔ s.ahead = rest := by
  have hnone : separatedItem? mark item s = .ok none s := separatedItem?_none hat
  have hrun := manyFor_none rounds hnone
  constructor
  · rintro ⟨_, _, h, rfl⟩
    cases hrun.symm.trans h
    rfl
  · exact fun h => ⟨[], s, hrun, h⟩

/-- Where the mark is next, the loop goes on behind one item more. -/
theorem leaves_manyFor_of_isAt {mark : Punct} {item : Parse Tree} {r : Lexeme} {rounds : List Lexeme}
    (hat : s.isAt mark = true) : Leaves (manyFor (separatedItem? mark item) (r :: rounds)) s rest ↔
      Leaves (item >>= fun _ => manyFor (separatedItem? mark item) rounds) s.advance rest := by
  obtain ⟨l, hl, hr⟩ := TokenStream.isAt_iff.1 hat
  have hitem : separatedItem? mark item s = (item >>= fun t => pure (some t)) s.advance := by
    unfold separatedItem?
    rw [bind_of_ok (accept_eq_ok_true.2 ⟨l, hl, hr⟩), if_pos rfl]
  rw [manyFor, leaves_bind, leaves_bind]
  constructor
  · rintro ⟨found, s₁, h, hrest⟩
    rw [hitem] at h
    obtain ⟨t, s', ht, h⟩ := bind_eq_ok.1 h
    obtain ⟨rfl, rfl⟩ := pure_eq_ok.1 h
    exact ⟨t, _, ht, leaves_bind_pure.1 hrest⟩
  · rintro ⟨t, s', ht, hrest⟩
    refine ⟨some t, s', ?_, leaves_bind_pure.2 hrest⟩
    rw [hitem, bind_of_ok ht]
    rfl

/-! ## Segments -/

/-- No dot is next. -/
def NoDot (rest : List Lexeme) : Prop := ∀ l ∈ rest.head?, l.token ≠ .punct .dot

theorem not_noDot {d : Lexeme} (hd : d.token = .punct .dot) : ¬ NoDot (d :: ls) := fun h => h d rfl hd

theorem noDot_of_greater {g : Lexeme} (hg : g.token = .punct .greater) : NoDot (g :: ls) := by
  rintro _ ⟨⟩ hd
  rw [hg] at hd
  cases hd

theorem noDot_or_exists (ls : List Lexeme) : NoDot ls ∨ ∃ d rest, d.token = .punct .dot ∧ ls = d :: rest := by
  cases ls with
  | nil => exact .inl fun _ h => by cases h
  | cons d rest =>
    by_cases hd : d.token = .punct .dot
    · exact .inr ⟨d, rest, hd, rfl⟩
    · exact .inl fun _ h => by cases h; exact hd

/-- The segments behind a name are read where they are skipped up to something that is no dot. -/
theorem leaves_segments {rounds : List Lexeme} (hlen : s.ahead.length ≤ rounds.length) :
    Leaves (manyFor (separatedItem? .dot (name .typeSegment)) rounds) s rest ↔
      afterSegments s.ahead = rest ∧ NoDot rest := by
  induction rounds generalizing s with
  | nil =>
    have hnil : s.ahead = [] := List.length_eq_zero_iff.1 (Nat.le_zero.1 hlen)
    rw [manyFor, leaves_pure, hnil]
    exact ⟨fun h => ⟨h, h ▸ fun _ hl => by cases hl⟩, And.left⟩
  | cons r rounds ih =>
    rcases noDot_or_exists s.ahead with hdot | ⟨d, tail, hd, hahead⟩
    · rw [leaves_manyFor_of_not_isAt _ (isAt_eq_false_iff.2 hdot), afterSegments_eq_self hdot]
      exact ⟨fun h => ⟨h, h ▸ hdot⟩, And.left⟩
    · have hat : s.isAt .dot = true := by
        rw [← Bool.not_eq_false, isAt_eq_false_iff, hahead]
        exact not_noDot hd
      have hadvance : s.advance.ahead = tail := by rw [TokenStream.ahead_advance, hahead, List.tail_cons]
      rw [leaves_manyFor_of_isAt hat, leaves_bind]
      by_cases hname : ∃ n more, n.token.isIdentifier = true ∧ tail = n :: more
      · obtain ⟨n, more, hn, rfl⟩ := hname
        rw [hahead, List.length_cons, List.length_cons, List.length_cons] at hlen
        rw [hahead, afterSegments, if_pos ⟨hd, hn⟩]
        constructor
        · rintro ⟨t, s', h, hrest⟩
          obtain ⟨_, -, hsplit⟩ := leaves_name.1 ⟨t, s', h, rfl⟩
          have hmore : s'.ahead = more := (List.cons.inj (hadvance.symm.trans hsplit)).2.symm
          rw [← hmore]
          exact (ih (by rw [hmore]; omega)).1 hrest
        · intro h
          obtain ⟨t, s', hread, rfl⟩ := (leaves_name (s := s.advance)).2 ⟨n, hn, hadvance⟩
          exact ⟨t, s', hread, (ih (by omega)).2 h⟩
      · constructor
        · rintro ⟨t, s', h, -⟩
          obtain ⟨n, hn, hsplit⟩ := leaves_name.1 ⟨t, s', h, rfl⟩
          exact absurd ⟨n, _, hn, hadvance.symm.trans hsplit⟩ hname
        · rintro ⟨rfl, hrest⟩
          have hself : afterSegments s.ahead = d :: tail := by
            rw [hahead]
            cases tail with
            | nil => rfl
            | cons n more => exact if_neg fun h => hname ⟨n, more, h.2, rfl⟩
          exact absurd (hself ▸ hrest) (not_noDot hd)

/-! ## Types between angles -/

/-- Where no dot is next, the reading leaves what the skip leaves. -/
def SkippedBy (p : Parse Tree) (after? : List Lexeme → Option (List Lexeme)) : Prop :=
  ∀ {s : TokenStream} {rest : List Lexeme}, NoDot rest → (Leaves p s rest ↔ after? s.ahead = some rest)

section

variable {p : Parse Tree} {after? : List Lexeme → Option (List Lexeme)}

theorem afterCommas_eq_self {rounds : List Lexeme} (h : ∀ l ∈ ls.head?, l.token ≠ .punct .comma) :
    afterCommas after? rounds ls = some ls := by
  match rounds, ls, h with
  | [], _, _ => rfl
  | _ :: _, [], _ => rfl
  | _ :: _, l :: rest, h => exact if_neg (h l rfl)

/-- A list of items ends at a dot. -/
theorem noDot_of_afterCommas {rounds : List Lexeme} (h : afterCommas after? rounds ls = some rest) (hr : NoDot rest) :
    NoDot ls := by
  rcases noDot_or_exists ls with hdot | ⟨d, behind, hd, rfl⟩
  · exact hdot
  · have hcomma : ∀ l ∈ (d :: behind).head?, l.token ≠ .punct .comma := by
      rintro _ ⟨⟩ hl
      rw [hd] at hl
      cases hl
    rw [afterCommas_eq_self hcomma, Option.some_inj] at h
    exact h ▸ hr

/-- What can only stand where no dot is next stands behind the reading if it stands behind the skip. -/
theorem SkippedBy.exists_iff (hp : SkippedBy p after?) {P : List Lexeme → Prop} (hP : ∀ mid, P mid → NoDot mid) :
    (∃ mid, Leaves p s mid ∧ P mid) ↔ ∃ mid, after? s.ahead = some mid ∧ P mid :=
  exists_congr fun mid => and_congr_left fun h => hp (hP mid h)

theorem leaves_commas (hp : SkippedBy p after?) (hr : NoDot rest) {rounds : List Lexeme} :
    Leaves (manyFor (separatedItem? .comma p) rounds) s rest ↔ afterCommas after? rounds s.ahead = some rest := by
  induction rounds generalizing s with
  | nil => rw [manyFor, leaves_pure, afterCommas, Option.some_inj]
  | cons r rounds ih =>
    cases hat : s.isAt .comma with
    | false => rw [leaves_manyFor_of_not_isAt _ hat, afterCommas_eq_self (isAt_eq_false_iff.1 hat), Option.some_inj]
    | true =>
      obtain ⟨c, hc, hahead⟩ := isAt_iff_head.1 hat
      rw [leaves_manyFor_of_isAt hat, leaves_bind_of (afterCommas after? rounds · = some rest) fun _ _ => ih,
        hp.exists_iff fun _ h => noDot_of_afterCommas h hr, hahead, afterCommas, if_pos hc, Option.bind_eq_some_iff]

theorem leaves_commaSeparated (hp : SkippedBy p after?) (hr : NoDot rest) : Leaves (commaSeparated p) s rest ↔
    ∃ first, after? s.ahead = some first ∧ afterCommas after? first first = some rest := by
  have hmore (t : Tree) (s' : TokenStream) :
      Leaves (many (separatedItem? .comma p) >>= fun more => pure (t :: more)) s' rest ↔
        afterCommas after? s'.ahead s'.ahead = some rest := leaves_bind_pure.trans (leaves_commas hp hr)
  rw [commaSeparated_eq, leaves_bind_of (fun mid => afterCommas after? mid mid = some rest) hmore]
  exact hp.exists_iff fun _ h => noDot_of_afterCommas h hr

end

/-! ## Types -/

variable {inner : Nested} {after? : List Lexeme → Option (List Lexeme)} {levels : Nat}

theorem afterTypeArguments_eq_some_iff : afterTypeArguments after? ls = some rest ↔
    ∃ g, g.token = .punct .greater ∧
      ∃ first, after? ls = some first ∧ afterCommas after? first first = some (g :: rest) := by
  simp only [afterTypeArguments, Option.bind_eq_bind, Option.bind_eq_some_iff]
  constructor
  · rintro ⟨first, hfirst, behind, hcommas, h⟩
    cases behind with
    | nil => cases h
    | cons g more =>
      by_cases hg : g.token = .punct .greater
      · simp only [if_pos hg, Option.some_inj] at h
        exact ⟨g, hg, first, hfirst, h ▸ hcommas⟩
      · simp only [if_neg hg, reduceCtorEq] at h
  · rintro ⟨g, hg, first, hfirst, hcommas⟩
    exact ⟨first, hfirst, _, hcommas, if_pos hg⟩

/-- Type arguments are read where they are skipped, whatever stands behind them. -/
theorem leaves_typeArgumentList (hi : SkippedBy inner.type after?) :
    Leaves (typeArgumentList inner) s rest ↔ afterTypeArguments after? s.ahead.tail = some rest := by
  have hclose (ts : List Tree) (s' : TokenStream) :
      Leaves (expect .typeArgumentsClose >>= fun _ => close .typeArgumentList s.place.offset ts) s' rest ↔
        ∃ g, g.token = .punct .greater ∧ s'.ahead = g :: rest := by
    rw [leaves_bind_of (· = rest) fun _ _ => leaves_close, exists_eq_right]
    exact leaves_expect
  have hlist : Leaves (typeArgumentList inner) s rest ↔
      Leaves (commaSeparated inner.type >>= fun ts => expect .typeArgumentsClose >>= fun _ =>
        close .typeArgumentList s.place.offset ts) s.advance rest := Iff.rfl
  rw [hlist, leaves_bind_of (fun mid => ∃ g, g.token = .punct .greater ∧ mid = g :: rest) hclose,
    afterTypeArguments_eq_some_iff, ← TokenStream.ahead_advance]
  constructor
  · rintro ⟨_, h, g, hg, rfl⟩
    exact ⟨g, hg, (leaves_commaSeparated hi (noDot_of_greater hg)).1 h⟩
  · rintro ⟨g, hg, h⟩
    exact ⟨_, (leaves_commaSeparated hi (noDot_of_greater hg)).2 h, g, hg, rfl⟩

/-- What follows a type behind its names: its arguments are skipped if it has any. -/
def afterNames (after? : List Lexeme → Option (List Lexeme)) : List Lexeme → Option (List Lexeme)
  | [] => some []
  | l :: rest => if l.token = .punct .less then afterTypeArguments after? rest else some (l :: rest)

theorem afterType?_succ {l : Lexeme} : afterType? (levels + 1) (l :: ls) =
    if l.token.isIdentifier then afterNames (afterType? levels) (afterSegments ls) else none := by
  rw [afterType?]
  split
  · unfold afterNames
    rfl
  · rfl

theorem leaves_behind_names (hi : SkippedBy inner.type after?) {start : Nat} {names : List Tree} :
    Leaves (isAt .less >>= fun generic =>
      if generic then typeArgumentList inner >>= fun a => close .qualifiedType start (names ++ [a])
      else close .qualifiedType start names) s rest ↔ afterNames after? s.ahead = some rest := by
  rw [leaves_isAt]
  cases hat : s.isAt .less with
  | true =>
    obtain ⟨o, ho, hahead⟩ := isAt_iff_head.1 hat
    rw [if_pos rfl, leaves_bind_of (· = rest) fun _ _ => leaves_close, exists_eq_right, leaves_typeArgumentList hi,
      hahead, afterNames, if_pos ho, List.tail_cons]
  | false =>
    have hself : afterNames after? s.ahead = some s.ahead := by
      cases hahead : s.ahead with
      | nil => rfl
      | cons l more => exact if_neg (isAt_eq_false_iff.1 hat l (by rw [hahead]; rfl))
    rw [if_neg Bool.false_ne_true, leaves_close, hself, Option.some_inj]

/-- A type is read where it is skipped, if no dot is left behind its names. -/
theorem leaves_typeBody (hi : SkippedBy inner.type (afterType? levels)) : Leaves (typeBody inner) s rest ↔
    afterType? (levels + 1) s.ahead = some rest ∧ NoDot (afterSegments s.ahead.tail) := by
  have hnames (first : Tree) (s₁ : TokenStream) :
      Leaves (many (separatedItem? .dot (name .typeSegment)) >>= fun more => isAt .less >>= fun generic =>
        if generic then typeArgumentList inner >>= fun a => close .qualifiedType s.place.offset (first :: more ++ [a])
        else close .qualifiedType s.place.offset (first :: more)) s₁ rest ↔
      afterNames (afterType? levels) (afterSegments s₁.ahead) = some rest ∧ NoDot (afterSegments s₁.ahead) := by
    rw [leaves_bind_of (afterNames (afterType? levels) · = some rest) fun _ _ => leaves_behind_names hi]
    constructor
    · rintro ⟨mid, h, hmid⟩
      obtain ⟨rfl, hdot⟩ := (leaves_segments (Nat.le_refl _)).1 h
      exact ⟨hmid, hdot⟩
    · rintro ⟨hmid, hdot⟩
      exact ⟨_, (leaves_segments (Nat.le_refl _)).2 ⟨rfl, hdot⟩, hmid⟩
  rw [typeBody_eq, leaves_offset, leaves_bind_of
    (fun mid => afterNames (afterType? levels) (afterSegments mid) = some rest ∧ NoDot (afterSegments mid)) hnames]
  constructor
  · rintro ⟨tail, h, hrest, hdot⟩
    obtain ⟨l, hl, hahead⟩ := leaves_name.1 h
    rw [hahead, afterType?_succ, if_pos hl]
    exact ⟨hrest, hdot⟩
  · rintro ⟨hrest, hdot⟩
    cases hahead : s.ahead with
    | nil =>
      rw [hahead] at hrest
      cases hrest
    | cons l tail =>
      rw [hahead, afterType?_succ] at hrest
      rw [hahead] at hdot
      by_cases hl : l.token.isIdentifier = true
      · rw [if_pos hl] at hrest
        exact ⟨tail, leaves_name.2 ⟨l, hl, hahead⟩, hrest, hdot⟩
      · rw [if_neg hl] at hrest
        cases hrest

/-- A skip behind which no dot is next left no dot behind the names of the type. -/
theorem noDot_of_afterType? (h : afterType? (levels + 1) ls = some rest) (hr : NoDot rest) :
    NoDot (afterSegments ls.tail) := by
  rcases noDot_or_exists (afterSegments ls.tail) with hdot | ⟨d, behind, hd, hsegments⟩
  · exact hdot
  · cases ls with
    | nil => cases h
    | cons l tail =>
      rw [afterType?_succ] at h
      rw [List.tail_cons] at hsegments ⊢
      by_cases hl : l.token.isIdentifier = true
      · have hless : d.token ≠ .punct .less := by rw [hd]; rintro ⟨⟩
        rw [if_pos hl, hsegments, afterNames, if_neg hless, Option.some_inj] at h
        rw [hsegments, h]
        exact hr
      · rw [if_neg hl] at h
        cases h

/-- The types of every level are skipped where they are read. -/
theorem skippedBy_nested (cap : Nat) : ∀ levels, SkippedBy (nested cap levels).type (afterType? levels)
  | 0 => by
    intro _
    constructor
    · rintro ⟨_, _, h, _⟩
      cases h
    · intro h
      cases h
  | levels + 1 => by
    intro hr
    exact (leaves_typeBody (skippedBy_nested cap levels)).trans
      (and_iff_left_of_imp fun h => noDot_of_afterType? h hr)

/-- A type is read where it is skipped, but not where a dot is left behind its names. -/
theorem leaves_type (cap levels : Nat) : Leaves (nested cap levels).type s rest ↔
    afterType? levels s.ahead = some rest ∧ NoDot (afterSegments s.ahead.tail) := by
  cases levels with
  | zero =>
    constructor
    · rintro ⟨_, _, h, _⟩
      cases h
    · rintro ⟨h, _⟩
      cases h
  | succ levels => exact leaves_typeBody (skippedBy_nested cap levels)

/-! ## Dangling dots -/

/-- The segments of a name are skipped up to a name. -/
theorem exists_name_before_segments : ∀ {l : Lexeme} (ls : List Lexeme), l.token.isIdentifier = true →
    ∃ before n, n.token.isIdentifier = true ∧ l :: ls = before ++ n :: afterSegments ls
  | l, [], hl => ⟨[], l, hl, rfl⟩
  | l, [d], hl => ⟨[], l, hl, rfl⟩
  | l, d :: m :: more, hl => by
    unfold afterSegments
    by_cases h : d.token = .punct .dot ∧ m.token.isIdentifier = true
    · obtain ⟨before, n, hn, hmore⟩ := exists_name_before_segments more h.2
      rw [if_pos h, hmore]
      exact ⟨l :: d :: before, n, hn, rfl⟩
    · rw [if_neg h]
      exact ⟨[], l, hl, rfl⟩

/-- The last token of a type that is skipped is a name if the type has no arguments, and an angle if it has. -/
theorem exists_last_of_afterType? (h : afterType? levels ls = some rest) : ∃ before last, ls = before ++ last :: rest ∧
    (last.token.isIdentifier = true ∧ afterSegments ls.tail = rest ∨
      last.token = .punct .greater ∧ NoDot (afterSegments ls.tail)) := by
  match levels, ls, h with
  | levels + 1, l :: tail, h =>
    rw [afterType?_succ] at h
    by_cases hl : l.token.isIdentifier = true
    · obtain ⟨before, n, hn, hsplit⟩ := exists_name_before_segments tail hl
      rw [if_pos hl] at h
      rw [List.tail_cons]
      rcases hbehind : afterSegments tail with _ | ⟨m, inner⟩
      · rw [hbehind] at h hsplit
        cases h
        exact ⟨before, n, hsplit, .inl ⟨hn, rfl⟩⟩
      · rw [hbehind] at h hsplit
        by_cases hm : m.token = .punct .less
        · rw [afterNames, if_pos hm] at h
          obtain ⟨ms, t, hms, hd, -, -⟩ := afterTypeArguments_derived (afterType?_derived levels) hm h
          cases hd with
          | @typeArguments o g ns ts _ _ hg =>
            refine ⟨before ++ n :: o :: ns, g, ?_, .inr ⟨hg, fun _ h => by cases h; rw [hm]; rintro ⟨⟩⟩⟩
            rw [hsplit, hms]
            simp
        · rw [afterNames, if_neg hm, Option.some_inj] at h
          exact ⟨before, n, h ▸ hsplit, .inl ⟨hn, h⟩⟩
    · rw [if_neg hl] at h
      cases h

/-- A dot is left behind the names of a type where one is next behind a name. -/
theorem not_noDot_iff_of_afterType? (h : afterType? levels ls = some rest) : ¬ NoDot (afterSegments ls.tail) ↔
    ∃ before n, ls = before ++ n :: rest ∧ n.token.isIdentifier = true ∧ ¬ NoDot rest := by
  obtain ⟨before, last, hsplit, ⟨hlast, hrest⟩ | ⟨hlast, hdot⟩⟩ := exists_last_of_afterType? h
  · rw [hrest]
    exact ⟨fun hdot => ⟨before, last, hsplit, hlast, hdot⟩, fun ⟨_, _, _, _, hdot⟩ => hdot⟩
  · refine ⟨fun h => absurd hdot h, ?_⟩
    rintro ⟨before', n, hsplit', hn, -⟩
    obtain ⟨rfl, -⟩ := List.cons.inj (List.append_inj' (hsplit.symm.trans hsplit') rfl).2
    rw [hlast] at hn
    cases hn

end Parse

/-! ## Indices -/

open Parse

/-- The index behind the type that is skipped from an index on, if one is. -/
def Tokens.skipType? (tokens : Tokens) (cap p : Nat) : Option Nat :=
  (afterType? cap (tokens.lexemes.drop p)).map (tokens.lexemes.length - ·.length)

/-- Behind the tokens of a reading, which ends at an index. -/
def EndsAt {σ ν α : Type} [Builder σ ν] (tokens : Tokens) (p : Reading σ α) (s : σ) (q : Nat) : Prop :=
  ∃ a s', p s = .ok a s' ∧ StandsAt tokens q s'

/-- A name stands before the index, and a dot at it. -/
def Tokens.DanglesAt (tokens : Tokens) (q : Nat) : Prop :=
  (∃ n, tokens.words[q - 1]? = some (.identifier n)) ∧ tokens.words[q]? = some (.punct .dot)

section

variable {tokens : Tokens} {cap p q : Nat}

theorem Tokens.skipType?_eq_some_iff : tokens.skipType? cap p = some q ↔
    q ≤ tokens.lexemes.length ∧ afterType? cap (tokens.lexemes.drop p) = some (tokens.lexemes.drop q) := by
  rw [skipType?, Option.map_eq_some_iff]
  constructor
  · rintro ⟨rest, hskip, rfl⟩
    obtain ⟨before, last, hsplit, -⟩ := exists_last_of_afterType? hskip
    have hsuffix : rest <:+ tokens.lexemes.drop p := ⟨before ++ [last], by rw [hsplit]; simp⟩
    rw [← List.suffix_iff_eq_drop.1 (hsuffix.trans (List.drop_suffix _ _))]
    exact ⟨Nat.sub_le _ _, hskip⟩
  · rintro ⟨hq, hskip⟩
    exact ⟨_, hskip, by rw [List.length_drop]; omega⟩

theorem not_noDot_drop_iff : ¬ NoDot (tokens.lexemes.drop q) ↔ tokens.words[q]? = some (.punct .dot) := by
  unfold NoDot Tokens.words
  rw [List.head?_drop, List.getElem?_map, Option.map_eq_some_iff]
  simp

/-- The token before the index at which a skip ends is the last one that it skips. -/
theorem exists_name_before_iff (hskip : tokens.skipType? cap p = some q) :
    (∃ before n, tokens.lexemes.drop p = before ++ n :: tokens.lexemes.drop q ∧ n.token.isIdentifier = true) ↔
      ∃ n, tokens.words[q - 1]? = some (.identifier n) := by
  obtain ⟨hq, hskip⟩ := Tokens.skipType?_eq_some_iff.1 hskip
  obtain ⟨before, last, hsplit, -⟩ := exists_last_of_afterType? hskip
  have hlength := congrArg List.length hsplit
  rw [List.length_append, List.length_cons, List.length_drop, List.length_drop] at hlength
  have hlast : tokens.words[q - 1]? = some last.token := by
    have hindex : q - 1 = p + before.length := by omega
    rw [hindex, Tokens.words, List.getElem?_map, ← List.getElem?_drop, hsplit]
    simp
  rw [hlast]
  constructor
  · rintro ⟨before', n, hsplit', hn⟩
    obtain ⟨rfl, -⟩ := List.cons.inj (List.append_inj' (hsplit.symm.trans hsplit') rfl).2
    obtain ⟨m, hm⟩ := Token.isIdentifier_iff.1 hn
    exact ⟨m, congrArg some hm⟩
  · rintro ⟨m, hm⟩
    exact ⟨before, last, hsplit, Token.isIdentifier_iff.2 ⟨m, Option.some_inj.1 hm⟩⟩

theorem not_dangling_iff (hskip : tokens.skipType? cap p = some q) :
    NoDot (afterSegments (tokens.lexemes.drop p).tail) ↔ ¬ tokens.DanglesAt q := by
  have hdangling := not_noDot_iff_of_afterType? (Tokens.skipType?_eq_some_iff.1 hskip).2
  rw [Tokens.DanglesAt, ← exists_name_before_iff hskip, ← not_noDot_drop_iff, ← not_iff_not, hdangling, not_not]
  constructor
  · rintro ⟨before, n, hsplit, hn, hdot⟩
    exact ⟨⟨before, n, hsplit, hn⟩, hdot⟩
  · rintro ⟨⟨before, n, hsplit, hn⟩, hdot⟩
    exact ⟨before, n, hsplit, hn, hdot⟩

variable {σ ν : Type} [Builder σ ν] [LawfulBuilder σ] {s : σ}

/-- What stands at an index reads a type to where it is read from the tokens of this index on. -/
theorem StandsAt.endsAt_type_iff (h : StandsAt tokens p s) : EndsAt tokens (nestedIn cap cap).type s q ↔
    q ≤ tokens.lexemes.length ∧ Leaves (nested cap cap).type (tokens.streamAt p) (tokens.lexemes.drop q) := by
  have hrel : (shadowing tokens p).rel () ([] ++ []) (tokens.streamAt p) s := ⟨p, Nat.le_refl p, rfl, h⟩
  rcases (Simulation.nestedIn_agrees cap cap).type hrel with
    ⟨a, _, b, s', _, hread, hread', -, j, -, rfl, hs'⟩ | ⟨cause, _, s', _, hread, hread', -⟩
  · constructor
    · rintro ⟨_, _, h', hq⟩
      cases hread'.symm.trans h'
      rw [hq.index_unique hs']
      exact ⟨hs'.le, a, _, hread, rfl⟩
    · rintro ⟨hq, _, _, h', hahead⟩
      cases hread.symm.trans h'
      exact ⟨b, s', hread', hq, hahead ▸ hs'.ahead_eq, hs'.finish_eq⟩
  · constructor
    · rintro ⟨_, _, h', -⟩
      cases hread'.symm.trans h'
    · rintro ⟨-, _, _, h', -⟩
      cases hread.symm.trans h'

/-- A type is read to where it is skipped, but not to a dot behind a name. -/
theorem StandsAt.endsAt_type_iff_skipType? (h : StandsAt tokens p s) :
    EndsAt tokens (nestedIn cap cap).type s q ↔ tokens.skipType? cap p = some q ∧ ¬ tokens.DanglesAt q := by
  have hahead : (tokens.streamAt p).ahead = tokens.lexemes.drop p := rfl
  rw [h.endsAt_type_iff, leaves_type, ← and_assoc, hahead, ← Tokens.skipType?_eq_some_iff]
  exact and_congr_right not_dangling_iff

/-! ## Methods -/

omit [LawfulBuilder σ] in
theorem StandsAt.current?_eq (h : StandsAt tokens p s) : (Builder.stream s).current? = tokens.words[p]? := by
  rw [TokenStream.current?, h.ahead_eq, List.head?_drop, Tokens.words, List.getElem?_map]

theorem StandsAt.advance_of_getElem? {x : Token} (h : StandsAt tokens p s) (hx : tokens.words[p]? = some x) :
    StandsAt tokens (p + 1) (Builder.advance s) := by
  have hp := (List.getElem?_eq_some_iff.1 hx).1
  rw [Tokens.words, List.length_map] at hp
  have hnext := h.advance
  rwa [Tokens.after, Nat.min_eq_left hp] at hnext

theorem StandsAt.endsAt_name {n : String} (h : StandsAt tokens p s) (slot : NameSlot)
    (hn : tokens.words[p]? = some (.identifier n)) : EndsAt tokens (name slot) s (p + 1) := by
  have hcurrent := h.current?_eq.trans hn
  have hread : name slot s = leaf (.identifier n) s := by
    unfold name
    rw [Simulation.stream_bind_run, hcurrent]
  exact ⟨_, _, hread.trans rfl, (h.advance_of_getElem? hn).of_stream_eq (LawfulBuilder.stream_makeLeaf _ _ _)⟩

theorem StandsAt.endsAt_expect {slot : Slot} (h : StandsAt tokens p s)
    (hx : tokens.words[p]? = some (.punct slot.punct)) : EndsAt tokens (expect slot) s (p + 1) := by
  have hat : (Builder.stream s).isAt slot.punct = true := by
    rw [TokenStream.isAt, h.current?_eq, hx, beq_self_eq_true]
  exact ⟨(), _, if_pos hat, h.advance_of_getElem? hx⟩

omit [LawfulBuilder σ] in
/-- A method is guessed where a name and a parenthesis stand behind what is skipped as a type. -/
theorem StandsAt.exists_skipType?_of_startsMethod (h : StandsAt tokens p s)
    (hstarts : startsMethod cap (Builder.stream s).ahead = true) : ∃ q, tokens.skipType? cap p = some q ∧
      (∃ n, tokens.words[q]? = some (.identifier n)) ∧ tokens.words[q + 1]? = some (.punct .leftParen) := by
  rw [h.ahead_eq] at hstarts
  unfold startsMethod at hstarts
  split at hstarts
  · rename_i l m rest hskip
    rw [Bool.and_eq_true, beq_iff_eq, Token.isIdentifier_iff] at hstarts
    obtain ⟨⟨n, hn⟩, hm⟩ := hstarts
    have hindex : tokens.skipType? cap p = some (tokens.lexemes.length - (l :: m :: rest).length) := by
      rw [Tokens.skipType?, hskip, Option.map_some]
    have hdrop := Option.some_inj.1 (hskip.symm.trans (Tokens.skipType?_eq_some_iff.1 hindex).2)
    refine ⟨_, hindex, ⟨n, ?_⟩, ?_⟩
    · rw [Tokens.words, List.getElem?_map, ← List.head?_drop, ← hdrop, List.head?_cons, Option.map_some, hn]
    · rw [Tokens.words, List.getElem?_map, ← List.getElem?_drop, ← hdrop, List.getElem?_cons_succ,
        List.getElem?_cons_zero, Option.map_some, hm]
  · cases hstarts

/-- What is read of a method declaration behind the parenthesis that opens its parameters. -/
def methodBehindOpening (inner : NestedIn σ ν) (start listStart : Nat) (type declared : ν) : Reading σ ν := do
  let parameters ← commaSeparatedBefore .rightParen (typedParameter inner)
  expect .methodClose
  let list ← close .parameterList listStart parameters
  expect .methodEnd
  close .method start [type, declared, list]

omit [LawfulBuilder σ] in
theorem methodDeclaration_eq (inner : NestedIn σ ν) : methodDeclaration inner =
    offset >>= fun start => inner.type >>= fun type => name .methodName >>= fun declared =>
      offset >>= fun listStart => expect .methodOpen >>= fun _ =>
        methodBehindOpening inner start listStart type declared := rfl

/-- The type, the name and the parenthesis of a method are read, to an index and to the two behind it, and the item
comes to what the rest of the declaration comes to from there on. -/
structure OpensMethodAt (tokens : Tokens) (cap q : Nat) (s : σ) (t n : ν) (s₁ s₂ s₃ : σ) : Prop where
  type : (nestedIn cap cap).type s = .ok t s₁ ∧ StandsAt tokens q s₁
  name : name .methodName s₁ = .ok n s₂ ∧ StandsAt tokens (q + 1) s₂
  opening : expect .methodOpen s₂ = .ok () s₃ ∧ StandsAt tokens (q + 2) s₃
  item : item cap s = methodBehindOpening (nestedIn cap cap) (Builder.stream s).place.offset
    (Builder.stream s₂).place.offset t n s₃

theorem StandsAt.exists_opensMethodAt (h : StandsAt tokens p s)
    (hstarts : startsMethod cap (Builder.stream s).ahead = true) :
    ∃ q, tokens.skipType? cap p = some q ∧ ∃ t n s₁ s₂ s₃, OpensMethodAt tokens cap q s t n s₁ s₂ s₃ := by
  obtain ⟨q, hskip, ⟨word, hname⟩, hopen⟩ := h.exists_skipType?_of_startsMethod hstarts
  have hdangles : ¬ tokens.DanglesAt q := by
    rintro ⟨-, hdot⟩
    cases hname.symm.trans hdot
  obtain ⟨t, s₁, h1, hs₁⟩ := h.endsAt_type_iff_skipType?.2 ⟨hskip, hdangles⟩
  obtain ⟨n, s₂, h2, hs₂⟩ := hs₁.endsAt_name .methodName hname
  have hopened : EndsAt tokens (expect .methodOpen) s₂ (q + 2) := hs₂.endsAt_expect hopen
  obtain ⟨_, s₃, h3, hs₃⟩ := hopened
  refine ⟨q, hskip, t, n, s₁, s₂, s₃, ⟨h1, hs₁⟩, ⟨h2, hs₂⟩, ⟨h3, hs₃⟩, ?_⟩
  have hitem : Parse.item cap s = methodDeclaration (nestedIn cap cap) s := by
    unfold Parse.item
    rw [Simulation.stream_bind_run, if_pos hstarts]
  rw [hitem, methodDeclaration_eq]
  exact (bind_of_ok h1).trans ((bind_of_ok h2).trans (bind_of_ok h3))

/-- Skipping a type and reading one agree on where it ends, up to a dot behind a name. So where a method is
guessed, its type is read to where it was skipped, and the name and the parenthesis that were seen behind it
are read as well. -/
theorem skips_as_read (cap : Nat) (h : StandsAt tokens p s) :
    (∀ q, EndsAt tokens (nestedIn cap cap).type s q ↔ tokens.skipType? cap p = some q ∧ ¬ tokens.DanglesAt q) ∧
      (startsMethod cap (Builder.stream s).ahead = true → ∃ q, tokens.skipType? cap p = some q ∧
        ∃ t n s₁ s₂ s₃, OpensMethodAt tokens cap q s t n s₁ s₂ s₃) :=
  ⟨fun _ => h.endsAt_type_iff_skipType?, h.exists_opensMethodAt⟩

/-- The tokens of `A.B<C> D(`. -/
def genericMethod : Tokens :=
  .counted [.identifier "A", .punct .dot, .identifier "B", .punct .less, .identifier "C", .punct .greater,
    .identifier "D", .punct .leftParen]

theorem skips_as_read_genericMethod : StandsAt genericMethod 0 (ArenaStream.mk (genericMethod.streamAt 0) .empty) ∧
    EndsAt genericMethod (nestedIn 2 2).type (ArenaStream.mk (genericMethod.streamAt 0) .empty) 6 ∧
    ∃ q, genericMethod.skipType? 2 0 = some q ∧ ∃ t n s₁ s₂ s₃,
      OpensMethodAt genericMethod 2 q (ArenaStream.mk (genericMethod.streamAt 0) .empty) t n s₁ s₂ s₃ :=
  have h : StandsAt genericMethod 0 (ArenaStream.mk (genericMethod.streamAt 0) .empty) := ⟨Nat.zero_le _, rfl, rfl⟩
  ⟨h, ((skips_as_read 2 h).1 6).2 ⟨by decide, fun hd => absurd hd.2 (by decide)⟩, (skips_as_read 2 h).2 (by decide)⟩

end

end LetLint
