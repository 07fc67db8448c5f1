/-
Lines and columns. The table of lines cuts a text at its line feeds, and the search finds the line that
holds a place. So a place has the position in the table that it has when the text is read from its
beginning, counting line feeds and, from the last of them on, characters.
-/
import LetLint.Proofs.Source.Slices
import LetLint.Proofs.Token.Renaming

namespace LetLint

theorem takeBytes_prefix (bytes : Nat) (cs : List Char) : takeBytes bytes cs <+: cs := by
  induction cs generalizing bytes with
  | nil => exact List.prefix_rfl
  | cons c cs ih =>
    unfold takeBytes
    split
    · exact List.nil_prefix
    · exact (List.cons_prefix_cons).2 ⟨rfl, ih _⟩

/-- Up to a number of bytes there is only one way to split characters. -/
theorem eq_of_byteLength_eq {before after before' after' : List Char} (h : before ++ after = before' ++ after')
    (hlength : byteLength before = byteLength before') : before = before' := by
  obtain ⟨mid, rfl, rfl⟩ := split_of_byteLength_le h (Nat.le_of_eq hlength)
  rw [byteLength_append] at hlength
  rw [eq_nil_of_byteLength (by omega : byteLength mid = 0), List.append_nil]

/-! ## Lines by their index -/

namespace Line

variable {start i : Nat} {cs chars rest first behind : List Char} {line : Line}

theorem split_line (h : '\n' ∉ chars) (start : Nat) : split start chars = [⟨start, chars⟩] := by
  induction chars generalizing start with
  | nil => rfl
  | cons c chars ih =>
    rw [List.mem_cons, not_or] at h
    rw [split, if_neg (Ne.symm h.1), ih h.2]

theorem split_append_line (h : '\n' ∉ chars) (start : Nat) (rest : List Char) :
    split start (chars ++ '\n' :: rest) = ⟨start, chars⟩ :: split (start + byteLength chars + 1) rest := by
  induction chars generalizing start with
  | nil => rfl
  | cons c chars ih =>
    rw [List.mem_cons, not_or] at h
    rw [List.cons_append, split, if_neg (Ne.symm h.1), ih h.2, byteLength, Nat.add_assoc start]

/-- The line is cut out of the characters, the first of which stands at the offset: between lines that
stand before it, as many as its index says, and a line feed or the end. -/
structure CutFrom (start : Nat) (cs : List Char) (i : Nat) (line : Line) (first behind : List Char) : Prop where
  eq_append : cs = first ++ (line.chars ++ behind)
  plain : '\n' ∉ line.chars
  count_eq : first.count '\n' = i
  first_ends : ∀ c ∈ first.getLast?, c = '\n'
  behind_starts : ∀ c ∈ behind.head?, c = '\n'
  start_eq : line.start = start + byteLength first

theorem CutFrom.behind_line (h : CutFrom (start + byteLength chars + 1) rest i line first behind)
    (hchars : '\n' ∉ chars) :
    CutFrom start (chars ++ '\n' :: rest) (i + 1) line (chars ++ '\n' :: first) behind where
  eq_append := by rw [h.eq_append, List.append_assoc, List.cons_append]
  plain := h.plain
  count_eq := by rw [List.count_append, List.count_cons_self, List.count_eq_zero.2 hchars, h.count_eq, Nat.zero_add]
  first_ends := by
    intro c hc
    cases first with
    | nil => simpa using hc.symm
    | cons d first => exact h.first_ends c (by simpa using hc)
  behind_starts := h.behind_starts
  start_eq := by
    have hfeed : '\n'.utf8Size = 1 := rfl
    rw [h.start_eq, byteLength_append, byteLength, hfeed]
    omega

theorem exists_cutFrom (h : (split start cs)[i]? = some line) :
    ∃ first behind, CutFrom start cs i line first behind := by
  induction i generalizing start cs with
  | zero =>
    by_cases hfeed : '\n' ∈ cs
    · obtain ⟨chars, rest, rfl, hchars⟩ := List.eq_append_cons_of_mem hfeed
      rw [split_append_line hchars] at h
      cases h
      exact ⟨[], '\n' :: rest, rfl, hchars, rfl, by simp, by simp, rfl⟩
    · rw [split_line hfeed] at h
      cases h
      exact ⟨[], [], by simp, hfeed, rfl, by simp, by simp, rfl⟩
  | succ i ih =>
    by_cases hfeed : '\n' ∈ cs
    · obtain ⟨chars, rest, rfl, hchars⟩ := List.eq_append_cons_of_mem hfeed
      rw [split_append_line hchars, List.getElem?_cons_succ] at h
      obtain ⟨first, behind, hline⟩ := ih h
      exact ⟨_, behind, hline.behind_line hchars⟩
    · rw [split_line hfeed] at h
      cases h

/-- What stands at a place without a line feed stands in the line of the place. -/
theorem exists_append_of_plain {chars more : List Char} (h : chars ++ rest = more ++ behind) (hplain : '\n' ∉ chars)
    (hbehind : ∀ c ∈ behind.head?, c = '\n') : ∃ tail, more = chars ++ tail := by
  rcases List.append_eq_append_iff.1 h with ⟨tail, htail, -⟩ | ⟨cut, hchars, hcut⟩
  · exact ⟨tail, htail⟩
  · cases cut with
    | nil => exact ⟨[], by simp [hchars]⟩
    | cons c cut =>
      rw [hbehind c (by simp [hcut])] at hchars
      exact absurd (by simp [hchars]) hplain

end Line

/-! ## The line of a place -/

namespace Source

variable {source : Source} {before after : List Char}

theorem getElem?_lines (source : Source) (i : Nat) : source.lines[i]? = (Line.split 0 source.text.toList)[i]? := by
  rw [source.lines_eq, Line.table, List.getElem?_toArray]

/-- The line that the search finds for a place holds it: what stands before the place in its line ends
what stands before the place, and the line goes on with what stands behind it. -/
theorem exists_line (h : source.text.toList = before ++ after) :
    ∃ line first rest more behind, source.lines[source.lineIndex (byteLength before)]? = some line ∧
      line.CutFrom 0 source.text.toList (source.lineIndex (byteLength before)) first behind ∧
      before = first ++ rest ∧ line.chars = rest ++ more ∧ after = more ++ behind := by
  obtain ⟨line, hline, -, -⟩ := lineIndex_spec source (byteLength before)
  obtain ⟨first, behind, hcut⟩ := Line.exists_cutFrom hline
  obtain ⟨first', rest, hbefore, hstart, htake⟩ := line_of_boundary h
  rw [getD_lines, hline, Option.getD_some] at hstart htake
  have hsame := h.symm.trans hcut.eq_append
  rw [hbefore, List.append_assoc] at hsame
  have hfirst : first' = first := eq_of_byteLength_eq hsame (by rw [← hstart, hcut.start_eq, Nat.zero_add])
  obtain ⟨more, hmore⟩ := htake ▸ takeBytes_prefix (byteLength rest) line.chars
  rw [hfirst, ← hmore, List.append_assoc, List.append_cancel_left_eq, List.append_cancel_left_eq] at hsame
  exact ⟨line, first, rest, more, behind, by rw [getElem?_lines, hline], hcut, hfirst ▸ hbefore, hmore.symm, hsame⟩

/-- The column of a place counts what stands before it in its line. -/
theorem position_of_line {line : Line} {i : Nat} {first rest more behind : List Char}
    (hindex : source.lineIndex (byteLength (first ++ rest)) = i) (hline : source.lines[i]? = some line)
    (hcut : line.CutFrom 0 source.text.toList i first behind) (hchars : line.chars = rest ++ more) :
    source.position (byteLength (first ++ rest)) = ⟨i + 1, rest.length + 1⟩ := by
  have hoffset : byteLength (first ++ rest) - line.start = byteLength rest := by
    rw [hcut.start_eq, byteLength_append]
    omega
  unfold position
  simp only [hindex, Array.getD_eq_getD_getElem?, hline, Option.getD_some, hoffset, countWithin_eq, hchars,
    takeBytes_byteLength, Nat.add_comm]

/-- The line of a place is counted by the line feeds before it, and its column by the characters from the
last of these on. -/
theorem position_byteLength (h : source.text.toList = before ++ after) :
    source.position (byteLength before) =
      ⟨1 + before.count '\n', 1 + (before.reverse.takeWhile (· ≠ '\n')).length⟩ := by
  obtain ⟨line, first, rest, more, behind, hline, hcut, rfl, hchars, -⟩ := exists_line h
  have hplain : '\n' ∉ rest := fun hmem => hcut.plain (hchars ▸ List.mem_append_left more hmem)
  have hlast : (first ++ rest).reverse.takeWhile (· ≠ '\n') = rest.reverse := by
    rw [List.reverse_append]
    refine takeWhile_run (fun c hc => ?_) ?_
    · have hne : c ≠ '\n' := fun heq => hplain (heq ▸ List.mem_reverse.1 hc)
      simpa using hne
    · rw [List.head?_reverse]
      cases hend : first.getLast? with
      | none => rfl
      | some c => simp [hcut.first_ends c hend]
  rw [position_of_line rfl hline hcut hchars, hlast, List.length_reverse, List.count_append,
    List.count_eq_zero.2 hplain, hcut.count_eq]
  congr 1 <;> omega

/-- A place has the position in the table that it has when the text is read up to it. -/
theorem position_of_placed {text : String} {mark : Mark} (h : mark.PlacedIn text) :
    (ofText text).position mark.offset = mark.position := by
  obtain ⟨before, after, htext, hoffset⟩ := exists_of_isBoundaryOf h.boundary
  have htake : takeBytes mark.offset text.toList = before := by
    rw [hoffset, show text.toList = before ++ after from htext, takeBytes_byteLength]
  rw [hoffset, position_byteLength htext, Mark.position, h.line_eq, h.column_eq, htake]

end Source

/-! ## Lexemes -/

/-- A lexeme is read at its place, and what was read before it leads there. -/
theorem Spelled.exists_read {ps : List Piece} {tail : List Char} (h : Spelled ps tail) {mark : Mark} {l : Lexeme}
    (hl : l ∈ lexemesFrom mark ps) : ∃ before chars rest, spell ps tail = before ++ (chars ++ rest) ∧
      l.start = mark.advance before ∧ ReadsAs chars rest l.token := by
  induction ps generalizing mark with
  | nil => cases hl
  | cons p ps ih =>
    obtain ⟨-, hread, hps⟩ := h
    rcases List.mem_cons.1 hl with rfl | hl
    · exact ⟨p.gap, p.chars, _, rfl, rfl, hread⟩
    · obtain ⟨before, chars, rest, hspell, hstart, hl⟩ := ih hps hl
      refine ⟨p.gap ++ (p.chars ++ before), chars, rest, ?_, ?_, hl⟩
      · rw [spell, hspell, List.append_assoc, List.append_assoc]
      · rw [hstart, Mark.advance_append, Mark.advance_append]

/-- An identifier stands in the text at the place where it starts, and is a name. -/
theorem exists_name_of_mem_tokenize {text name : String} {tokens : Tokens} (h : tokenize text = .ok tokens) {l : Lexeme}
    (hl : l ∈ tokens.lexemes) (hname : l.token = .identifier name) : ∃ before rest,
      text.toList = before ++ (name.toList ++ rest) ∧ l.start = Mark.origin.advance before ∧ isName name = true := by
  obtain ⟨ps, tail, htext, hspelled, rfl⟩ := tokenize_eq_ok_iff.1 h
  obtain ⟨before, chars, rest, hspell, hstart, hread⟩ := hspelled.exists_read hl
  rw [hname] at hread
  obtain ⟨hword, rfl, -⟩ := readsAs_identifier_iff.1 hread
  exact ⟨before, rest, htext.trans hspell, hstart, hword⟩

/-- The table gives a lexeme the line and the column that were counted when it was read. -/
theorem position_of_mem_tokenize {text : String} {tokens : Tokens} (h : tokenize text = .ok tokens) {l : Lexeme}
    (hl : l ∈ tokens.lexemes) : (Source.ofText text).position l.start.offset = l.start.position := by
  obtain ⟨ps, tail, htext, hspelled, rfl⟩ := tokenize_eq_ok_iff.1 h
  obtain ⟨before, chars, rest, hspell, hstart, -⟩ := hspelled.exists_read hl
  exact Source.position_of_placed (hstart ▸ Mark.placedIn_advance_origin (htext.trans hspell))

end LetLint
