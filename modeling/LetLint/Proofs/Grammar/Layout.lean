/-
How derived trees lie in the text. The leaves of a tree are, in order, the names and literals among
its lexemes. If the lexemes stand one behind the other, as those of a text do, then so do the parts
of every node, each inside its parent and none empty: `Nests lo hi ts` says this of trees between
two offsets. From it: what is below a node starts no earlier and ends no later, and leaves start one
behind the other in the order of the text.
-/
import LetLint.Proofs.Grammar.Derivation
import LetLint.Proofs.Tree.Preorder

namespace LetLint

/-- The lexemes stand one behind the other between two offsets, and none is empty. -/
inductive Laid : Nat → Nat → List Lexeme → Prop
  | nil {lo hi : Nat} (h : lo ≤ hi) : Laid lo hi []
  | cons {lo hi : Nat} {l : Lexeme} {ls : List Lexeme} (hlo : lo ≤ l.start.offset) (hl : l.start.offset < l.stop)
      (h : Laid l.stop hi ls) : Laid lo hi (l :: ls)

/-- The trees stand one behind the other between two offsets, none is empty, and so do the parts of
each of them between its own ends. -/
inductive Nests : Nat → Nat → List Tree → Prop
  | nil {lo hi : Nat} (h : lo ≤ hi) : Nests lo hi []
  | cons {lo hi : Nat} {t : Tree} {ts : List Tree} (hlo : lo ≤ t.span.start) (ht : t.span.start < t.span.stop)
      (hc : Nests t.span.start t.span.stop t.children) (h : Nests t.span.stop hi ts) : Nests lo hi (t :: ts)

/-- A single lexeme covers its bytes. -/
theorem Lexeme.cover_eq_span {l : Lexeme} (h : l.start.offset < l.stop) : cover [l] = l.span := by
  show (⟨l.start.offset, max l.stop l.start.offset⟩ : Span) = _
  rw [Nat.max_eq_left (Nat.le_of_lt h)]
  rfl

namespace Laid

variable {lo mid hi : Nat} {ls ms : List Lexeme}

theorem le (h : Laid lo hi ls) : lo ≤ hi := by
  induction h with
  | nil h => exact h
  | cons hlo hl _ ih => omega

theorem append_iff : Laid lo hi (ls ++ ms) ↔ ∃ mid, Laid lo mid ls ∧ Laid mid hi ms := by
  constructor
  · intro h
    induction ls generalizing lo with
    | nil => exact ⟨lo, .nil (Nat.le_refl lo), h⟩
    | cons l ls ih =>
      cases h with
      | cons hlo hl h =>
        obtain ⟨mid, h1, h2⟩ := ih h
        exact ⟨mid, .cons hlo hl h1, h2⟩
  · rintro ⟨mid, h1, h2⟩
    induction h1 with
    | nil h =>
      cases h2 with
      | nil h' => exact .nil (Nat.le_trans h h')
      | cons hlo hl h' => exact .cons (Nat.le_trans h hlo) hl h'
    | cons hlo hl _ ih => exact .cons hlo hl (ih h2)

/-- The lexemes that stand one behind the other lie between the offsets. -/
theorem of_mem {l : Lexeme} (h : Laid lo hi ls) (hl : l ∈ ls) : lo ≤ l.start.offset ∧ l.start.offset < l.stop := by
  obtain ⟨before, after, rfl⟩ := List.append_of_mem hl
  obtain ⟨mid, hbefore, hrest⟩ := append_iff.1 h
  cases hrest with
  | cons hlo hlt _ => exact ⟨Nat.le_trans hbefore.le hlo, hlt⟩

theorem le_lastStop {stop : Nat} (h : Laid stop hi ls) : stop ≤ lastStop stop ls ∧ lastStop stop ls ≤ hi ∧
    Laid stop (lastStop stop ls) ls := by
  induction ls generalizing stop with
  | nil => exact ⟨Nat.le_refl _, h.le, .nil (Nat.le_refl _)⟩
  | cons l ls ih =>
    cases h with
    | cons hlo hl h =>
      obtain ⟨h1, h2, h3⟩ := ih h
      simp only [lastStop]
      exact ⟨by omega, h2, .cons hlo hl h3⟩

/-- Lexemes one behind the other lie in what they cover. -/
theorem cover (h : Laid lo hi ls) (hne : ls ≠ []) : lo ≤ (cover ls).start ∧ (cover ls).start < (cover ls).stop ∧
    (cover ls).stop ≤ hi ∧ Laid (cover ls).start (cover ls).stop ls := by
  cases h with
  | nil => exact absurd rfl hne
  | cons hlo hl h =>
    obtain ⟨h1, h2, h3⟩ := h.le_lastStop
    simp only [LetLint.cover]
    rw [Nat.max_eq_left (by omega)]
    exact ⟨hlo, by omega, h2, .cons (Nat.le_refl _) hl h3⟩

end Laid

namespace Nests

variable {lo mid hi : Nat} {ts us : List Tree} {t : Tree}

theorem le (h : Nests lo hi ts) : lo ≤ hi := by
  induction h with
  | nil h => exact h
  | cons hlo ht _ _ _ ih => omega

theorem append (h : Nests lo mid ts) (h' : Nests mid hi us) : Nests lo hi (ts ++ us) := by
  induction h with
  | nil h =>
    cases h' with
    | nil h' => exact .nil (Nat.le_trans h h')
    | cons hlo ht hc h' => exact .cons (Nat.le_trans h hlo) ht hc h'
  | cons hlo ht hc _ _ ih => exact .cons hlo ht hc (ih h')

/-- What is below trees that nest lies between the same offsets, is not empty, and nests again. -/
theorem of_mem (h : Nests lo hi ts) (ht : t ∈ Tree.preorderAll ts) :
    lo ≤ t.span.start ∧ t.span.start < t.span.stop ∧ t.span.stop ≤ hi ∧
      Nests t.span.start t.span.stop t.children := by
  induction h with
  | nil => simp [Tree.preorderAll] at ht
  | @cons lo hi u ts hlo hu hc h ihc ih =>
    have hle := h.le
    rw [Tree.preorderAll, Tree.preorder_eq, List.cons_append, List.mem_cons, List.mem_append] at ht
    rcases ht with rfl | ht | ht
    · exact ⟨hlo, hu, hle, hc⟩
    · obtain ⟨h1, h2, h3, h4⟩ := ihc ht
      exact ⟨by omega, h2, by omega, h4⟩
    · obtain ⟨h1, h2, h3, h4⟩ := ih ht
      exact ⟨by omega, h2, h3, h4⟩

/-- Of trees that nest, those that end before an offset inside one of them are those before that one. -/
theorem filter_stop_le {c : Tree} {offset : Nat} : ∀ {lo hi i : Nat} {ts : List Tree}, Nests lo hi ts →
    ts[i]? = some c → c.span.start ≤ offset → offset < c.span.stop →
    ts.filter (fun t => t.span.stop ≤ offset) = ts.take i
  | _, _, _, [], _, hc, _, _ => by cases hc
  | lo, hi, 0, t :: ts, h, hc, hlo, hhi => by
    -- the offset lies in the first tree, and all others end later
    cases hc
    cases h with
    | cons _ _ _ h =>
      rw [List.take_zero, List.filter_eq_nil_iff]
      intro u hu
      rcases List.mem_cons.1 hu with rfl | hu
      · simpa using hhi
      · have hlater := h.of_mem (Tree.mem_preorderAll hu)
        simp only [decide_eq_true_eq]
        omega
  | lo, hi, i + 1, t :: ts, h, hc, hlo, hhi => by
    rw [List.getElem?_cons_succ] at hc
    cases h with
    | cons _ _ _ h =>
      have hbefore := (h.of_mem (Tree.mem_preorderAll (List.mem_of_getElem? hc))).1
      rw [List.filter_cons_of_pos (by simp only [decide_eq_true_eq]; omega), filter_stop_le h hc hlo hhi,
        List.take_succ_cons]

end Nests

namespace Derives

variable {X : Phrase} {ls : List Lexeme} {ts : List Tree}

/-- Trees derived from lexemes that stand one behind the other nest. -/
theorem nests (h : Derives X ls ts) {lo hi : Nat} (hl : Laid lo hi ls) : Nests lo hi ts := by
  refine h.compositional (P := fun ls ts => ∀ {lo hi : Nat}, Laid lo hi ls → Nests lo hi ts)
    ?_ ?_ ?_ ?_ ?_ hl
  · intro lo hi h
    exact .nil h.le
  · intro l _ lo hi h
    exact .nil h.le
  · intro l a _ lo hi h
    obtain ⟨h1, h2, h3, -⟩ := h.cover (by simp)
    exact .cons h1 h2 (.nil (Nat.le_of_lt h2)) (.nil h3)
  · intro ls ms ts us ih ihm lo hi h
    obtain ⟨mid, h1, h2⟩ := Laid.append_iff.1 h
    exact (ih h1).append (ihm h2)
  · intro Y kind ls ts _ hd ih lo hi h
    obtain ⟨h1, h2, h3, h4⟩ := h.cover (hd.ne_nil (by simp))
    exact .cons h1 h2 (ih h4) (.nil h3)

/-- The names and literals of derived trees are, in order, those among the lexemes. -/
theorem leaves (h : Derives X ls ts) :
    (Tree.preorderAll ts).filter (·.kind.isAtomic) = ls.filterMap Lexeme.leaf? := by
  refine h.compositional
    (P := fun ls ts => (Tree.preorderAll ts).filter (·.kind.isAtomic) = ls.filterMap Lexeme.leaf?)
    ?_ ?_ ?_ ?_ ?_
  · simp [Tree.preorderAll]
  · intro l hl
    simp [Tree.preorderAll, Lexeme.leaf?, hl]
  · intro l a hl
    simp [Tree.preorderAll, Tree.preorder, Lexeme.leaf?, hl, Atom.isAtomic_kind]
  · intro ls ms ts us ih ihm
    rw [Tree.preorderAll_append, List.filter_append, List.filterMap_append, ih, ihm]
  · intro Y kind ls ts hk _ ih
    simp [Tree.preorderAll, Tree.preorder, hk, ih]

end Derives

end LetLint
