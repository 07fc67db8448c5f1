/-
Cutting a source text. A slice exists only between two boundaries in their order, and a position is
found by cutting out what stands before it in its line. The search through the table of lines ends
at the line that holds the offset, so that for a boundary this slice exists as well; what is
computed with slices that may fail is then what is computed without.
-/
import LetLint.Diagnostic.Basic

namespace LetLint

/-! ## Boundaries -/

theorem exists_of_isBoundaryOf {bytes : Nat} {cs : List Char} (h : isBoundaryOf bytes cs = true) :
    ∃ before after, cs = before ++ after ∧ bytes = byteLength before := by
  induction cs generalizing bytes with
  | nil => exact ⟨[], [], rfl, of_decide_eq_true h⟩
  | cons c cs ih =>
    simp only [isBoundaryOf, Bool.or_eq_true, decide_eq_true_eq, Bool.and_eq_true] at h
    rcases h with rfl | ⟨hc, hrest⟩
    · exact ⟨[], c :: cs, rfl, rfl⟩
    · obtain ⟨before, after, rfl, hbytes⟩ := ih hrest
      refine ⟨c :: before, after, rfl, ?_⟩
      rw [byteLength]
      omega

theorem eq_nil_of_byteLength {cs : List Char} (h : byteLength cs = 0) : cs = [] := by
  cases cs with
  | nil => rfl
  | cons c cs =>
    have hc := c.utf8Size_pos
    simp only [byteLength] at h
    omega

/-- Of two ways to split characters, the one with the shorter first part splits the other's. -/
theorem split_of_byteLength_le {before after before' after' : List Char} (h : before ++ after = before' ++ after')
    (hle : byteLength before ≤ byteLength before') : ∃ mid, before' = before ++ mid ∧ after = mid ++ after' := by
  rcases List.append_eq_append_iff.1 h with ⟨mid, hb, ha⟩ | ⟨mid, hb, ha⟩
  · exact ⟨mid, hb, ha⟩
  · have hmid : mid = [] := by
      apply eq_nil_of_byteLength
      rw [hb, byteLength_append] at hle
      omega
    subst hmid
    exact ⟨[], by simpa using hb.symm, by simpa using ha.symm⟩

/-! ## The table of lines -/

namespace Line

/-- The line stands in the characters, the first of which stands at the offset, and it reaches up
to the line behind it or to the end. -/
def StandsIn (start : Nat) (cs : List Char) (line : Line) (next? : Option Line) : Prop :=
  ∃ before after, cs = before ++ (line.chars ++ after) ∧ line.start = start + byteLength before ∧
    (next? = none ∧ after = [] ∨
      ∃ next, next? = some next ∧ next.start = line.start + byteLength line.chars + 1)

theorem StandsIn.cons {start : Nat} {cs : List Char} {line : Line} {next? : Option Line} {c : Char}
    (h : StandsIn (start + c.utf8Size) cs line next?) : StandsIn start (c :: cs) line next? := by
  obtain ⟨before, after, hcs, hstart, hnext⟩ := h
  refine ⟨c :: before, after, by rw [hcs]; rfl, ?_, hnext⟩
  rw [hstart, byteLength]
  omega

theorem split_ne_nil (start : Nat) (cs : List Char) : split start cs ≠ [] := by
  induction cs generalizing start with
  | nil => simp [split]
  | cons c cs ih =>
    unfold split
    split
    · simp
    · split
      · rename_i h
        exact absurd h (ih _)
      · simp

theorem start_head?_split (start : Nat) (cs : List Char) : (split start cs).head?.map Line.start = some start := by
  cases cs with
  | nil => rfl
  | cons c cs =>
    unfold split
    split
    · rfl
    · split
      · rename_i h
        exact absurd h (split_ne_nil _ _)
      · rfl

/-- Every line stands in the text up to the next one. -/
theorem standsIn_of_split {start i : Nat} {cs : List Char} {line : Line} (h : (split start cs)[i]? = some line) :
    StandsIn start cs line (split start cs)[i + 1]? := by
  induction cs generalizing start i line with
  | nil =>
    cases i with
    | zero =>
      cases h
      exact ⟨[], [], rfl, rfl, .inl ⟨rfl, rfl⟩⟩
    | succ i => cases h
  | cons c cs ih =>
    unfold split at h ⊢
    by_cases hc : c = '\n'
    · subst hc
      simp only [if_true] at h ⊢
      cases i with
      | zero =>
        cases h
        obtain ⟨next, hnext, hstart⟩ := Option.map_eq_some_iff.1 (start_head?_split (start + 1) cs)
        refine ⟨[], '\n' :: cs, rfl, rfl, .inr ⟨next, ?_, hstart⟩⟩
        rwa [List.getElem?_cons_succ, ← List.head?_eq_getElem?]
      | succ i => exact (ih h).cons
    · simp only [if_neg hc] at h ⊢
      have hne := split_ne_nil (start + c.utf8Size) cs
      rcases hsplit : split (start + c.utf8Size) cs with _ | ⟨first, rest⟩
      · exact absurd hsplit hne
      rw [hsplit] at h
      cases i with
      | zero =>
        -- the first line of the rest gets one more character
        cases h
        have hfirst : StandsIn (start + c.utf8Size) cs first (split (start + c.utf8Size) cs)[0 + 1]? :=
          ih (by rw [hsplit]; rfl)
        rw [hsplit] at hfirst
        obtain ⟨before, after, hcs, hstart, hnext⟩ := hfirst
        have hhead := start_head?_split (start + c.utf8Size) cs
        rw [hsplit, List.head?_cons, Option.map_some, Option.some.injEq] at hhead
        have hbefore : before = [] := eq_nil_of_byteLength (by omega)
        subst hbefore
        refine ⟨[], after, by rw [hcs]; rfl, rfl, ?_⟩
        rcases hnext with hend | ⟨next, hsome, hn⟩
        · exact .inl hend
        · refine .inr ⟨next, hsome, ?_⟩
          rw [hn, hhead]
          show _ = start + (c.utf8Size + byteLength first.chars) + 1
          omega
      | succ i =>
        have hrest : StandsIn (start + c.utf8Size) cs line (split (start + c.utf8Size) cs)[i + 1 + 1]? :=
          ih (by rw [hsplit]; exact h)
        rw [hsplit] at hrest
        exact hrest.cons

end Line

namespace Source

/-- The search keeps a line at or before the offset at its lower end, and every line behind its
upper end is later. -/
theorem search_spec {lines : Array Line} {offset : Nat} : ∀ {rounds low high : Nat}, low < high →
    high ≤ low + rounds + 1 → (lines.getD low default).start ≤ offset →
    search lines offset rounds low high < high ∧
      (lines.getD (search lines offset rounds low high) default).start ≤ offset ∧
      (search lines offset rounds low high + 1 = high ∨
        offset < (lines.getD (search lines offset rounds low high + 1) default).start)
  | 0, low, high, hlt, hr, hlow => ⟨hlt, hlow, .inl (by show low + 1 = high; omega)⟩
  | rounds + 1, low, high, hlt, hr, hlow => by
    unfold search
    split
    · exact ⟨hlt, hlow, .inl (by omega)⟩
    · dsimp only
      split
      · rename_i hmid
        exact search_spec (by omega) (by omega) hmid
      · rename_i hmid
        have hhalf : low < (low + high) / 2 := by omega
        obtain ⟨h1, h2, h3⟩ := @search_spec lines offset rounds low _ hhalf (by omega) hlow
        refine ⟨by omega, h2, .inr ?_⟩
        rcases h3 with h3 | h3
        · rw [h3]
          omega
        · exact h3

theorem getD_lines (source : Source) (i : Nat) :
    source.lines.getD i default = ((Line.split 0 source.text.toList)[i]?).getD default := by
  rw [source.lines_eq]
  simp [Line.table, Array.getD_eq_getD_getElem?]

/-- The search finds the last line that starts at or before the offset. -/
theorem lineIndex_spec (source : Source) (offset : Nat) :
    ∃ line, (Line.split 0 source.text.toList)[source.lineIndex offset]? = some line ∧ line.start ≤ offset ∧
      ∀ next, (Line.split 0 source.text.toList)[source.lineIndex offset + 1]? = some next → offset < next.start := by
  have hsize : source.lines.size = (Line.split 0 source.text.toList).length := by
    rw [source.lines_eq]
    rfl
  have hpos : 0 < source.lines.size := hsize ▸ List.length_pos_iff.2 (Line.split_ne_nil _ _)
  have hfirst : (source.lines.getD 0 default).start ≤ offset := by
    obtain ⟨line, hline, hstart⟩ := Option.map_eq_some_iff.1 (Line.start_head?_split 0 source.text.toList)
    rw [getD_lines, ← List.head?_eq_getElem?, hline, Option.getD_some, hstart]
    exact Nat.zero_le _
  obtain ⟨hlt, hle, hnext⟩ : source.lineIndex offset < source.lines.size ∧
      (source.lines.getD (source.lineIndex offset) default).start ≤ offset ∧
      (source.lineIndex offset + 1 = source.lines.size ∨
        offset < (source.lines.getD (source.lineIndex offset + 1) default).start) :=
    search_spec hpos (by omega) hfirst
  have hline := List.getElem?_eq_getElem (hsize ▸ hlt)
  rw [getD_lines, hline] at hle
  refine ⟨_, hline, hle, fun next hn => ?_⟩
  rcases hnext with hlast | hlater
  · rw [List.getElem?_eq_none (by omega)] at hn
    cases hn
  · rwa [getD_lines, hn] at hlater

/-- The line that holds a boundary starts at a boundary, and what it holds before the offset is what
stands between the two. -/
theorem line_of_boundary {source : Source} {before after : List Char} (h : source.text.toList = before ++ after) :
    ∃ first rest, before = first ++ rest ∧
      (source.lines.getD (source.lineIndex (byteLength before)) default).start = byteLength first ∧
      takeBytes (byteLength rest) (source.lines.getD (source.lineIndex (byteLength before)) default).chars = rest := by
  obtain ⟨line, hline, hle, hlater⟩ := lineIndex_spec source (byteLength before)
  rw [getD_lines, hline, Option.getD_some]
  obtain ⟨first, behind, htext, hstart, hbehind⟩ := Line.standsIn_of_split hline
  rw [Nat.zero_add] at hstart
  rw [hstart] at hle ⊢
  obtain ⟨rest, hrest, hchars⟩ := split_of_byteLength_le (htext.symm.trans h) hle
  refine ⟨first, rest, hrest, rfl, ?_⟩
  -- the offset lies before the next line, and so no further than the last character of this one
  have hwithin : byteLength rest ≤ byteLength line.chars := by
    have hsum := congrArg byteLength hrest
    have hall := congrArg byteLength hchars
    rw [byteLength_append] at hsum
    rw [byteLength_append, byteLength_append] at hall
    rcases hbehind with ⟨-, rfl⟩ | ⟨next, hsome, hnext⟩
    · simp only [byteLength] at hall
      omega
    · have := hlater next hsome
      omega
  obtain ⟨more, hmore, -⟩ := split_of_byteLength_le hchars.symm hwithin
  rw [hmore, takeBytes_byteLength]

/-! ## Slices that may fail -/

/-- The text between two boundaries in their order; there is no other slice. -/
def slice? (source : Source) (span : Span) : Option String :=
  if span.start ≤ span.stop ∧ source.isBoundary span.start = true ∧ source.isBoundary span.stop = true then
    some (source.slice span)
  else none

/-- The line and the column of an offset, by cutting out what stands before it in its line. -/
def slicedPosition? (source : Source) (offset : Nat) : Option Position := do
  let index := source.lineIndex offset
  let before ← source.slice? ⟨(source.lines.getD index default).start, offset⟩
  return ⟨index + 1, before.toList.length + 1⟩

/-- The positions at which a span starts and ends, by cutting. -/
def slicedExtent? (source : Source) (span : Span) : Option Extent := do
  return ⟨← source.slicedPosition? span.start, ← source.slicedPosition? span.stop⟩

theorem slicedPosition?_eq {source : Source} {offset : Nat} (h : source.isBoundary offset = true) :
    source.slicedPosition? offset = some (source.position offset) := by
  obtain ⟨before, after, htext, rfl⟩ := exists_of_isBoundaryOf h
  obtain ⟨first, rest, rfl, hstart, hrest⟩ := line_of_boundary htext
  have hsub : byteLength (first ++ rest) - byteLength first = byteLength rest := by
    rw [byteLength_append, Nat.add_sub_cancel_left]
  have hboundary : source.isBoundary (byteLength first) = true := by
    show isBoundaryOf _ source.text.toList = true
    rw [htext, List.append_assoc, isBoundaryOf_byteLength]
  have hslice : source.slice? ⟨byteLength first, byteLength (first ++ rest)⟩ = some (String.ofList rest) := by
    unfold slice? slice
    rw [if_pos ⟨byteLength_append first rest ▸ Nat.le_add_right _ _, hboundary, h⟩]
    simp only [hsub]
    rw [htext, List.append_assoc, dropBytes_byteLength, takeBytes_byteLength]
  unfold slicedPosition? position
  simp only [hstart, hslice, hsub, countWithin_eq, hrest]
  simp [Nat.add_comm]

end Source

namespace Document

/-- The text that a tree covers, by cutting. -/
def slicedText? (doc : Document) (t : Tree) : Option String := doc.source.slice? t.span

/-- A tree as messages name it, by cutting. -/
def slicedDescription? (doc : Document) (t : Tree) : Option String := do
  return t.kind.label ++ "@" ++ toString t.span.start ++ ".." ++ toString t.span.stop ++ " " ++
    Text.quoted (← doc.slicedText? t)

/-- The location of some bytes, by cutting. -/
def slicedLocation? (doc : Document) (span : Span) : Option Location := do
  return ⟨doc.fileName, ← doc.source.slicedExtent? span, span⟩

/-- Every slice that is cut for a tree exists. -/
structure Slices (doc : Document) (t : Tree) : Prop where
  text : doc.slicedText? t = some (doc.textOf t)
  extent : doc.source.slicedExtent? t.span = some (doc.source.extent t.span)
  location : doc.slicedLocation? t.span = some (doc.location t.span)
  description : doc.slicedDescription? t = some (doc.describe t)

theorem slices_of_boundaries {doc : Document} {t : Tree} (hle : t.span.start ≤ t.span.stop)
    (hstart : doc.source.isBoundary t.span.start = true) (hstop : doc.source.isBoundary t.span.stop = true) :
    doc.Slices t := by
  have htext : doc.slicedText? t = some (doc.textOf t) := if_pos ⟨hle, hstart, hstop⟩
  have hextent : doc.source.slicedExtent? t.span = some (doc.source.extent t.span) := by
    unfold Source.slicedExtent?
    rw [Source.slicedPosition?_eq hstart, Source.slicedPosition?_eq hstop]
    rfl
  refine ⟨htext, hextent, ?_, ?_⟩
  · unfold slicedLocation?
    rw [hextent]
    rfl
  · unfold slicedDescription?
    rw [htext]
    rfl

end Document

end LetLint
