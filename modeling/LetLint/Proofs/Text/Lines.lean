/-
Lines, cut in two ways. The printer cuts a text at its line ends, where a carriage return before a line feed
belongs to the end, and has no line behind the last line feed; the table of a source cuts at line feeds only.
The lines have the same indices, and at most a carriage return at the end of a line tells the two apart,
which is trimmed away with other blanks.
-/
import LetLint.Proofs.Source.Positions
import Mathlib.Data.List.DropRight

namespace LetLint

namespace Text

variable {chars cs rest first kept more : List Char} {p : Char → Bool}

/-! ## Lines -/

theorem lines_line (h : '\n' ∉ chars) (hne : chars ≠ []) : lines chars = [chars] := by
  induction chars with
  | nil => exact absurd rfl hne
  | cons c chars ih =>
    rw [List.mem_cons, not_or] at h
    have hreturn : ¬ (c = '\r' ∧ chars.head? = some '\n') := fun hboth => h.2 (List.mem_of_head? hboth.2)
    rw [lines, if_neg (Ne.symm h.1), if_neg hreturn]
    cases chars with
    | nil => rfl
    | cons d chars => rw [ih h.2 (by simp)]

/-- A line is cut off at its line feed, with a carriage return before that. -/
theorem lines_append_line (h : '\n' ∉ chars) (rest : List Char) :
    ∃ line, lines (chars ++ '\n' :: rest) = line :: lines rest ∧ (chars = line ∨ chars = line ++ ['\r']) := by
  induction chars with
  | nil => exact ⟨[], rfl, .inl rfl⟩
  | cons c chars ih =>
    rw [List.mem_cons, not_or] at h
    obtain ⟨line, hline, hchars⟩ := ih h.2
    rw [List.cons_append, lines, if_neg (Ne.symm h.1)]
    by_cases hreturn : c = '\r' ∧ (chars ++ '\n' :: rest).head? = some '\n'
    · obtain ⟨rfl, hhead⟩ := hreturn
      have hnil : chars = [] := by
        cases chars with
        | nil => rfl
        | cons d chars => exact absurd (List.mem_of_head? hhead) (by simp_all)
      subst hnil
      exact ⟨[], by simp [lines], .inr rfl⟩
    · rw [if_neg hreturn, hline]
      refine ⟨c :: line, rfl, ?_⟩
      rcases hchars with rfl | rfl
      · exact .inl rfl
      · exact .inr rfl

/-- Whole lines are cut off one by one. -/
theorem exists_lines_append (h : ∀ c ∈ first.getLast?, c = '\n') (rest : List Char) :
    ∃ before, lines (first ++ rest) = before ++ lines rest ∧ before.length = first.count '\n' := by
  induction hlength : first.length using Nat.strongRecOn generalizing first with
  | ind length ih =>
    cases hlast : first.getLast? with
    | none =>
      rw [List.getLast?_eq_none_iff.1 hlast]
      exact ⟨[], rfl, rfl⟩
    | some c =>
      have hfeed : '\n' ∈ first := h c hlast ▸ List.mem_of_getLast? hlast
      obtain ⟨chars, later, rfl, hchars⟩ := List.eq_append_cons_of_mem hfeed
      obtain ⟨line, hline, -⟩ := lines_append_line hchars (later ++ rest)
      have hlater : ∀ c ∈ later.getLast?, c = '\n' := by
        intro d hd
        refine h d ?_
        cases later with
        | nil => cases hd
        | cons e later => simpa using hd
      obtain ⟨before, hbefore, hcount⟩ := ih later.length (by simp at hlength; omega) hlater rfl
      refine ⟨line :: before, ?_, ?_⟩
      · rw [List.append_assoc, List.cons_append, hline, hbefore, List.cons_append]
      · rw [List.length_cons, hcount, List.count_append, List.count_cons_self, List.count_eq_zero.2 hchars,
          Nat.zero_add]

/-- The line of the table at an index, if it is not empty, is the line of that index, but for a carriage
return at its end. -/
theorem exists_getElem?_lines {line : Line} {i : Nat} {behind : List Char} (h : line.CutFrom 0 cs i first behind)
    (hne : line.chars ≠ []) :
    ∃ printed, (lines cs)[i]? = some printed ∧ (line.chars = printed ∨ line.chars = printed ++ ['\r']) := by
  obtain ⟨before, hbefore, hcount⟩ := exists_lines_append h.first_ends (line.chars ++ behind)
  rw [h.count_eq] at hcount
  rw [h.eq_append, hbefore, List.getElem?_append_right (Nat.le_of_eq hcount), hcount, Nat.sub_self]
  cases behind with
  | nil =>
    rw [List.append_nil, lines_line h.plain hne]
    exact ⟨line.chars, rfl, .inl rfl⟩
  | cons c behind =>
    obtain rfl := h.behind_starts c rfl
    obtain ⟨printed, hline, hchars⟩ := lines_append_line h.plain behind
    exact ⟨printed, by rw [hline]; rfl, hchars⟩

/-! ## Blanks at the end -/

theorem dropTrailing_concat {c : Char} (hc : p c = true) (cs : List Char) :
    dropTrailing p (cs ++ [c]) = dropTrailing p cs := List.rdropWhile_concat_pos p cs c hc

theorem dropTrailing_concat_of_not {c : Char} (hc : ¬ p c = true) (cs : List Char) :
    dropTrailing p (cs ++ [c]) = cs ++ [c] := List.rdropWhile_concat_neg p cs c hc

/-- What is dropped at the end ends at the last character that is kept. -/
theorem dropTrailing_append (hlast : ∀ c ∈ kept.getLast?, p c = false) (more : List Char) :
    dropTrailing p (kept ++ more) = kept ++ dropTrailing p more := by
  induction more using List.reverseRecOn with
  | nil =>
    rw [List.append_nil, show dropTrailing p [] = [] from rfl, List.append_nil]
    refine List.rdropWhile_eq_self_iff.2 fun hne hc => ?_
    rw [hlast _ (List.getLast?_eq_getLast_of_ne_nil hne)] at hc
    cases hc
  | append_singleton more c ih =>
    rw [← List.append_assoc]
    by_cases hc : p c = true
    · rw [dropTrailing_concat hc, dropTrailing_concat hc, ih]
    · rw [dropTrailing_concat_of_not hc, dropTrailing_concat_of_not hc, List.append_assoc]

theorem isBlank_feed : isBlank '\n' = true := by decide +kernel

theorem isBlank_return : isBlank '\r' = true := by decide +kernel

/-- Up to a carriage return at its end a text has what it keeps, and it has the same once it is trimmed. -/
theorem exists_trail {tail printed : List Char} (h : kept ++ tail = printed ∨ kept ++ tail = printed ++ ['\r'])
    (hlast : ∀ c ∈ kept.getLast?, c ≠ '\r') : ∃ trail, printed = kept ++ trail ∧ trimEnd tail = trimEnd trail := by
  rcases h with rfl | h
  · exact ⟨tail, rfl, rfl⟩
  · rcases List.eq_nil_or_concat' tail with rfl | ⟨trail, c, rfl⟩
    · rw [List.append_nil] at h
      exact absurd rfl (hlast '\r' (by simp [h]))
    · rw [← List.append_assoc] at h
      obtain ⟨rfl, hc⟩ := List.append_inj' h rfl
      obtain rfl : c = '\r' := List.head_eq_of_cons_eq hc
      exact ⟨trail, rfl, dropTrailing_concat isBlank_return trail⟩

/-- Blanks at the end are trimmed away, whatever else was dropped there before. -/
theorem trimEnd_dropTrailing {c : Char} (hc : isBlank c = true) (cs : List Char) :
    trimEnd (dropTrailing (· == c) cs) = trimEnd cs := by
  induction cs using List.reverseRecOn with
  | nil => rfl
  | append_singleton cs d ih =>
    by_cases hd : (d == c) = true
    · rw [dropTrailing_concat (p := (· == c)) hd, ih, trimEnd, trimEnd, dropTrailing_concat (beq_iff_eq.1 hd ▸ hc)]
    · rw [dropTrailing_concat_of_not (p := (· == c)) hd]

end Text

end LetLint
