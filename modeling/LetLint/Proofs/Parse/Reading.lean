/-
What it is to read lexemes off a stream. `s.Reads ls s'` says that taking the lexemes `ls` one by
one leads from the stream `s` to the stream `s'`; the streams and the lexemes fix each other. Each
primitive of the reader is described once, by the lexemes it takes; the productions are then taken
apart and put together through these descriptions alone.
-/
import LetLint.Parse.Session
import LetLint.Proofs.Grammar.Derivation

namespace LetLint

/-- Taking the lexemes one by one leads from the one stream to the other. -/
inductive TokenStream.Reads : TokenStream → List Lexeme → TokenStream → Prop
  | nil {s : TokenStream} : Reads s [] s
  | cons {s s' : TokenStream} {l : Lexeme} {ls : List Lexeme} (hl : s.ahead.head? = some l)
      (h : Reads s.advance ls s') : Reads s (l :: ls) s'

namespace TokenStream

variable {s s' s'' : TokenStream} {l : Lexeme} {ls ms rest : List Lexeme}

@[simp] theorem reads_nil_iff : s.Reads [] s' ↔ s' = s :=
  ⟨fun h => by cases h; rfl, fun h => h ▸ .nil⟩

theorem reads_one_iff : s.Reads [l] s' ↔ s.ahead.head? = some l ∧ s' = s.advance := by
  constructor
  · intro h
    cases h with
    | cons hl h => exact ⟨hl, reads_nil_iff.1 h⟩
  · rintro ⟨hl, rfl⟩
    exact .cons hl .nil

theorem Reads.append (h : s.Reads ls s') (h' : s'.Reads ms s'') : s.Reads (ls ++ ms) s'' := by
  induction h with
  | nil => exact h'
  | cons hl _ ih => exact .cons hl (ih h')

theorem reads_append_iff : s.Reads (ls ++ ms) s'' ↔ ∃ s', s.Reads ls s' ∧ s'.Reads ms s'' := by
  constructor
  · intro h
    induction ls generalizing s with
    | nil => exact ⟨s, .nil, h⟩
    | cons l ls ih =>
      cases h with
      | cons hl h =>
        obtain ⟨s', h1, h2⟩ := ih h
        exact ⟨s', .cons hl h1, h2⟩
  · rintro ⟨s', h1, h2⟩
    exact h1.append h2

theorem reads_cons_iff : s.Reads (l :: ls) s'' ↔ ∃ s', s.Reads [l] s' ∧ s'.Reads ls s'' :=
  @reads_append_iff s s'' [l] ls

/-- What was ahead is what was read and what is ahead now. -/
theorem Reads.ahead (h : s.Reads ls s') : s.ahead = ls ++ s'.ahead := by
  induction h with
  | nil => rfl
  | @cons s s' l ls hl _ ih =>
    rw [ahead_advance] at ih
    obtain ⟨rest, hs⟩ := List.head?_eq_some_iff.1 hl
    rw [hs] at ih ⊢
    rw [List.cons_append, ← ih, List.tail_cons]

theorem advance_of_ahead (h : s.ahead = l :: rest) : s.advance = ⟨rest, s.finish, l.stop⟩ := by
  unfold advance; rw [h]

/-- Whatever is ahead can be read. -/
theorem exists_reads : ∀ (ls : List Lexeme) (s : TokenStream), s.ahead = ls ++ rest →
    ∃ s', s.Reads ls s' ∧ s'.ahead = rest
  | [], s, h => ⟨s, .nil, h⟩
  | l :: ls, s, h => by
    have hl : s.ahead.head? = some l := by rw [h]; rfl
    obtain ⟨s', h1, h2⟩ := exists_reads ls s.advance (by rw [ahead_advance, h]; rfl)
    exact ⟨s', .cons hl h1, h2⟩

theorem Reads.lastEnd (h : s.Reads ls s') : s'.lastEnd = lastStop s.lastEnd ls := by
  induction h with
  | nil => rfl
  | @cons s s' l ls hl _ ih =>
    obtain ⟨rest, hs⟩ := List.head?_eq_some_iff.1 hl
    rw [ih, advance_of_ahead hs]
    rfl

theorem Reads.place (h : s.Reads (l :: ls) s') : s.place = l.start := by
  cases h with
  | cons hl _ =>
    obtain ⟨rest, hs⟩ := List.head?_eq_some_iff.1 hl
    unfold TokenStream.place; rw [hs]

/-- Lexemes that were read cover the bytes from the place before them to the end behind them. -/
theorem Reads.cover (h : s.Reads ls s') (hne : ls ≠ []) :
    cover ls = ⟨s.place.offset, max s'.lastEnd s.place.offset⟩ := by
  obtain ⟨l, ls, rfl⟩ := List.exists_cons_of_ne_nil hne
  rw [h.lastEnd, h.place]
  rfl

theorem Reads.cover_append (h : s.Reads ms s') (hl : ls ≠ []) (hm : ms ≠ []) :
    LetLint.cover (ls ++ ms) = ⟨(LetLint.cover ls).start, max s'.lastEnd (LetLint.cover ls).start⟩ := by
  obtain ⟨l, ls, rfl⟩ := List.exists_cons_of_ne_nil hl
  obtain ⟨m, ms, rfl⟩ := List.exists_cons_of_ne_nil hm
  have hstop : ∀ (stop : Nat) (ks : List Lexeme), lastStop stop (ks ++ m :: ms) = lastStop m.stop ms := by
    intro stop ks
    induction ks generalizing stop with
    | nil => rfl
    | cons k ks ih => exact ih _
  rw [h.lastEnd]
  simp only [LetLint.cover, List.cons_append, hstop]
  rfl

theorem Reads.isAt (h : s.Reads (l :: ls) s') (mark : Punct) : s.isAt mark = (l.token == .punct mark) := by
  cases h with
  | cons hl _ => simp [TokenStream.isAt, current?, hl]

theorem Reads.current? (h : s.Reads (l :: ls) s') : s.current? = some l.token := by
  cases h with
  | cons hl _ => simp [TokenStream.current?, hl]

theorem isAt_iff {mark : Punct} : s.isAt mark = true ↔ ∃ l, l.token = .punct mark ∧ s.Reads [l] s.advance := by
  simp only [isAt, TokenStream.current?, beq_iff_eq, Option.map_eq_some_iff, reads_one_iff, and_true]
  exact ⟨fun ⟨l, h1, h2⟩ => ⟨l, h2, h1⟩, fun ⟨l, h1, h2⟩ => ⟨l, h2, h1⟩⟩

theorem current?_eq_some {token : Token} :
    s.current? = some token ↔ ∃ l, l.token = token ∧ s.Reads [l] s.advance := by
  simp only [TokenStream.current?, Option.map_eq_some_iff, reads_one_iff, and_true]
  exact ⟨fun ⟨l, h1, h2⟩ => ⟨l, h2, h1⟩, fun ⟨l, h1, h2⟩ => ⟨l, h2, h1⟩⟩

end TokenStream

namespace Parse

open TokenStream

variable {α β : Type} {s s' s'' : TokenStream}

/-! ## Sequences -/

section

variable {σ : Type} {x x' x'' : σ} {p : Reading σ α} {f : α → Reading σ β}

theorem bind_eq_ok {b : β} : (p >>= f) x = .ok b x'' ↔ ∃ a x', p x = .ok a x' ∧ f a x' = .ok b x'' := by
  show EStateM.bind p f x = .ok b x'' ↔ _
  unfold EStateM.bind
  rcases hp : p x with ⟨a, s'⟩ | ⟨e, s'⟩
  · constructor
    · intro h; exact ⟨a, s', rfl, h⟩
    · rintro ⟨a', s₁, h1, h2⟩; cases h1; exact h2
  · constructor
    · intro h; cases h
    · rintro ⟨a', s₁, h1, -⟩; cases h1

theorem bind_of_ok {a : α} (h : p x = .ok a x') : (p >>= f) x = f a x' := by
  show EStateM.bind p f x = _
  unfold EStateM.bind; rw [h]

theorem bind_of_error {fault : ParseFault} (h : p x = .error fault x') : (p >>= f) x = .error fault x' := by
  show EStateM.bind p f x = _
  unfold EStateM.bind; rw [h]

end

@[simp] theorem pure_eq_ok {a b : α} : (pure a : Parse α) s = .ok b s' ↔ b = a ∧ s' = s := by
  show EStateM.Result.ok a s = .ok b s' ↔ _
  constructor
  · intro h; cases h; exact ⟨rfl, rfl⟩
  · rintro ⟨rfl, rfl⟩; rfl

theorem pure_bind_run (a : α) (f : α → Parse β) : ((pure a : Parse α) >>= f) s = f a s := rfl

/-! ## Single tokens -/

theorem stream_bind (f : TokenStream → Parse β) : (stream >>= f) s = f s s := rfl

theorem offset_bind (f : Nat → Parse β) : (offset >>= f) s = f s.place.offset s := rfl

theorem isAt_bind (mark : Punct) (f : Bool → Parse β) : (isAt mark >>= f) s = f (s.isAt mark) s := rfl

theorem advance_bind (f : Unit → Parse β) : (advance >>= f) s = f () s.advance := rfl

theorem closeFrom_bind (kind : Kind) (first : Tree) (ts : List Tree) (f : Tree → Parse β) :
    (closeFrom kind first ts >>= f) s =
      f (.node kind ⟨first.span.start, max s.lastEnd first.span.start⟩ ts) s := rfl

@[simp] theorem fail_ne_ok {cause : ParseCause} {a : α} : fail cause s ≠ .ok a s' := by
  intro h; cases h

@[simp] theorem close_eq_ok {kind : Kind} {start : Nat} {ts : List Tree} {t : Tree} :
    close kind start ts s = .ok t s' ↔ t = .node kind ⟨start, max s.lastEnd start⟩ ts ∧ s' = s := by
  constructor
  · intro h; cases h; exact ⟨rfl, rfl⟩
  · rintro ⟨rfl, rfl⟩; rfl

/-- A node closed behind some lexemes covers them. -/
theorem close_eq_ok_of_reads {kind : Kind} {ls : List Lexeme} {ts : List Tree} {t : Tree}
    (hr : s.Reads ls s') (hne : ls ≠ []) :
    close kind s.place.offset ts s' = .ok t s'' ↔ t = .node kind (cover ls) ts ∧ s'' = s' := by
  rw [close_eq_ok, hr.cover hne]

theorem close_bind_of_reads {kind : Kind} {ls : List Lexeme} {ts : List Tree} {f : Tree → Parse β}
    (hr : s.Reads ls s') (hne : ls ≠ []) :
    (close kind s.place.offset ts >>= f) s' = f (.node kind (cover ls) ts) s' :=
  bind_of_ok ((close_eq_ok_of_reads hr hne).2 ⟨rfl, rfl⟩)

/-- Expected punctuation is taken. -/
theorem expect_eq_ok {slot : Slot} {u : Unit} :
    expect slot s = .ok u s' ↔ ∃ l, l.token = .punct slot.punct ∧ s.Reads [l] s' := by
  simp only [expect, Builder.stream_eq, Builder.advance_eq]
  split
  · rename_i h
    obtain ⟨l, hl, hr⟩ := isAt_iff.1 h
    constructor
    · intro h'; cases h'; exact ⟨l, hl, hr⟩
    · rintro ⟨l', -, hr'⟩
      rw [(reads_one_iff.1 hr').2]
  · rename_i h
    constructor
    · intro h'; cases h'
    · rintro ⟨l, hl, hr⟩
      rw [hr.isAt, hl] at h
      simp at h

/-- Punctuation of several kinds is taken if it is there. -/
theorem acceptAny_eq_ok_true {marks : List Punct} :
    acceptAny marks s = .ok true s' ↔ ∃ l mark, l.token = .punct mark ∧ mark ∈ marks ∧ s.Reads [l] s' := by
  simp only [acceptAny, Builder.stream_eq, Builder.advance_eq]
  split
  · rename_i h
    obtain ⟨mark, hm, hat⟩ := List.any_eq_true.1 h
    obtain ⟨l, hl, hr⟩ := isAt_iff.1 hat
    constructor
    · intro h'; cases h'; exact ⟨l, mark, hl, hm, hr⟩
    · rintro ⟨l', -, -, -, hr'⟩
      rw [(reads_one_iff.1 hr').2]
  · rename_i h
    constructor
    · intro h'; cases h'
    · rintro ⟨l, mark, hl, hm, hr⟩
      exact absurd (List.any_eq_true.2 ⟨mark, hm, by rw [hr.isAt, hl]; simp⟩) h

theorem acceptAny_eq_ok_false {marks : List Punct} :
    acceptAny marks s = .ok false s' ↔ marks.any s.isAt = false ∧ s' = s := by
  simp only [acceptAny, Builder.stream_eq, Builder.advance_eq]
  split
  · rename_i h
    rw [h]
    exact ⟨fun h' => (by cases h'), fun h' => (by cases h'.1)⟩
  · rename_i h
    rw [Bool.not_eq_true] at h
    rw [h]
    exact ⟨fun h' => (by cases h'; exact ⟨rfl, rfl⟩), fun h' => (by rw [h'.2])⟩

theorem accept_eq_ok_true {mark : Punct} :
    accept mark s = .ok true s' ↔ ∃ l, l.token = .punct mark ∧ s.Reads [l] s' := by
  unfold accept
  rw [acceptAny_eq_ok_true]
  constructor
  · rintro ⟨l, _, hl, hm, hr⟩
    cases List.mem_singleton.1 hm
    exact ⟨l, hl, hr⟩
  · rintro ⟨l, hl, hr⟩; exact ⟨l, mark, hl, List.mem_singleton_self mark, hr⟩

theorem accept_eq_ok_false {mark : Punct} : accept mark s = .ok false s' ↔ s.isAt mark = false ∧ s' = s := by
  unfold accept
  rw [acceptAny_eq_ok_false]
  simp

theorem leaf_of_reads {l : Lexeme} (atom : Atom) (h : s.Reads [l] s') :
    leaf atom s = .ok (.leaf atom (cover [l])) s' := by
  rw [h.cover (by simp)]
  obtain ⟨-, rfl⟩ := reads_one_iff.1 h
  rfl

/-- A name is taken as its leaf. -/
theorem name_eq_ok {slot : NameSlot} {t : Tree} :
    name slot s = .ok t s' ↔ ∃ ls, s.Reads ls s' ∧ Derives .name ls [t] := by
  unfold name
  rw [stream_bind]
  constructor
  · intro h
    rcases hc : s.current? with _ | token
    · rw [hc] at h
      exact absurd h fail_ne_ok
    · rw [hc] at h
      cases token with
      | identifier n =>
        obtain ⟨l, hl, hr⟩ := current?_eq_some.1 hc
        have h := (leaf_of_reads (.identifier n) hr).symm.trans h
        cases h
        exact ⟨[l], hr, .name hl⟩
      | _ => exact absurd h fail_ne_ok
  · rintro ⟨ls, hr, hd⟩
    cases hd with
    | name hl =>
      rw [hr.current?, hl]
      exact leaf_of_reads _ hr

/-! ## Lists -/

/-- One item more behind the punctuation between items. -/
def separatedItem? {σ ν : Type} [Builder σ ν] (mark : Punct) (item : Reading σ ν) : Reading σ (Option ν) := do
  if ← accept mark then
    return some (← item)
  else
    return none

theorem commaSeparated_eq (item : Parse Tree) :
    commaSeparated item = item >>= fun first => many (separatedItem? .comma item) >>= fun more =>
      pure (first :: more) := rfl

end Parse

end LetLint
