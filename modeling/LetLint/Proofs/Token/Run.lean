/-
The run of a cursor over a text, step after step, through faults as well. What is behind a cursor
and what is still ahead of it always make up the text, and its mark counts what is behind: the
bytes, the line feeds, and the characters since the last of these. A step that does not find the
end skips filler and takes at least one character behind it; the end, once found, is found again
for ever. Reading all tokens is such a run, up to the end or to the first fault.
-/
import LetLint.Proofs.Token.Placement
import Mathlib.Data.List.Induction

namespace LetLint

/-! ## Marks -/

/-- The place lies on a boundary of the text. Its line counts the line feeds before it, and its
column the characters since the last of them. -/
structure Mark.PlacedIn (text : String) (mark : Mark) : Prop where
  boundary : (Source.ofText text).isBoundary mark.offset = true
  line_eq : mark.line = 1 + (takeBytes mark.offset text.toList).count '\n'
  column_eq : mark.column = 1 + ((takeBytes mark.offset text.toList).reverse.takeWhile (· ≠ '\n')).length

namespace Mark

theorem line_advance_origin (cs : List Char) : (origin.advance cs).line = 1 + cs.count '\n' := by
  induction cs using List.reverseRecOn with
  | nil => rfl
  | append_singleton cs c ih =>
    rw [advance_append, List.count_append]
    show ((origin.advance cs).step c).line = _
    by_cases hc : c = '\n'
    · subst hc
      simp only [step, if_true, ih, List.count_singleton_self]
      omega
    · simp only [step, if_neg hc, ih, List.count_singleton, beq_iff_eq]
      omega

theorem column_advance_origin (cs : List Char) :
    (origin.advance cs).column = 1 + (cs.reverse.takeWhile (· ≠ '\n')).length := by
  induction cs using List.reverseRecOn with
  | nil => rfl
  | append_singleton cs c ih =>
    rw [advance_append, List.reverse_append, List.reverse_singleton, List.singleton_append]
    show ((origin.advance cs).step c).column = _
    by_cases hc : c = '\n'
    · simp [step, hc]
    · rw [List.takeWhile_cons_of_pos (by simpa using hc), List.length_cons]
      simp only [step, if_neg hc, ih]
      omega

theorem offset_advance_origin (cs : List Char) : (origin.advance cs).offset = byteLength cs :=
  (offset_advance origin cs).trans (Nat.zero_add _)

/-- A mark that was led over the first characters of a text is placed behind them. -/
theorem placedIn_advance_origin {text : String} {before after : List Char} (h : text.toList = before ++ after) :
    (origin.advance before).PlacedIn text := by
  have htake : takeBytes (origin.advance before).offset text.toList = before := by
    rw [offset_advance_origin, h, takeBytes_byteLength]
  refine ⟨?_, ?_, ?_⟩
  · show isBoundaryOf _ text.toList = true
    rw [offset_advance_origin, h, isBoundaryOf_byteLength]
  · rw [htake, line_advance_origin]
  · rw [htake, column_advance_origin]

end Mark

/-! ## Filler -/

/-- Blanks, and comments from two slashes through the end of the line. At the end of a text the
last comment may be left open. -/
inductive Filler (atEnd : Bool) : List Char → Prop
  | nil : Filler atEnd []
  | blank {c : Char} {cs : List Char} (hc : Text.isBlank c = true) (h : Filler atEnd cs) : Filler atEnd (c :: cs)
  | comment {body cs : List Char} (hb : '\n' ∉ body) (h : Filler atEnd cs) :
      Filler atEnd ('/' :: '/' :: body ++ '\n' :: cs)
  | unclosed {body : List Char} (he : atEnd = true) (hb : '\n' ∉ body) : Filler atEnd ('/' :: '/' :: body)

/-- No filler starts here. -/
def Solid (cs : List Char) : Prop :=
  ∃ c rest, cs = c :: rest ∧ Text.isBlank c = false ∧ ¬ (c = '/' ∧ rest.head? = some '/')

/-- Inside a comment, the rest of it is skipped and then filler, if the comment is closed. -/
def CommentRest (atEnd : Bool) (cs : List Char) : Prop :=
  (∃ body rest, cs = body ++ '\n' :: rest ∧ '\n' ∉ body ∧ Filler atEnd rest) ∨ atEnd = true ∧ '\n' ∉ cs

theorem CommentRest.cons {atEnd : Bool} {c : Char} {cs : List Char} (hc : c ≠ '\n') (h : CommentRest atEnd cs) :
    CommentRest atEnd (c :: cs) := by
  rcases h with ⟨body, rest, rfl, hb, hrest⟩ | ⟨he, hcs⟩
  · exact .inl ⟨c :: body, rest, rfl, by simp [hb, hc.symm], hrest⟩
  · exact .inr ⟨he, by simp [hcs, hc.symm]⟩

theorem CommentRest.filler {atEnd : Bool} {cs : List Char} (h : CommentRest atEnd ('/' :: cs)) :
    Filler atEnd ('/' :: '/' :: cs) := by
  rcases h with ⟨body, rest, heq, hb, hrest⟩ | ⟨he, hcs⟩
  · obtain ⟨_, hbody⟩ | ⟨body, rfl, rfl⟩ := List.cons_eq_append_iff.1 heq
    · simp at hbody
    · exact .comment (by simp_all) hrest
  · exact .unclosed he (by simp_all)

/-- What is skipped is filler. -/
theorem filler_take_trivia (cs : List Char) :
    CommentRest (cs.drop (trivia true cs)).isEmpty (cs.take (trivia true cs)) ∧
      Filler (cs.drop (trivia false cs)).isEmpty (cs.take (trivia false cs)) := by
  induction cs with
  | nil => exact ⟨.inr ⟨rfl, by simp⟩, .nil⟩
  | cons c cs ih =>
    obtain ⟨ihc, ihf⟩ := ih
    have hcomment : CommentRest ((c :: cs).drop (trivia true (c :: cs))).isEmpty
        ((c :: cs).take (trivia true (c :: cs))) := by
      by_cases hc : c = '\n'
      · subst hc
        exact .inl ⟨[], _, rfl, by simp, ihf⟩
      · have hstep : trivia true (c :: cs) = trivia true cs + 1 := by
          have hne : (c != '\n') = true := by simpa using hc
          simp [trivia, hne]
        rw [hstep, List.take_succ_cons, List.drop_succ_cons]
        exact ihc.cons hc
    refine ⟨hcomment, ?_⟩
    unfold trivia
    simp only [Bool.false_eq_true, if_false]
    by_cases hb : Text.isBlank c = true
    · rw [if_pos hb, List.take_succ_cons, List.drop_succ_cons]
      exact .blank hb ihf
    rw [if_neg hb]
    by_cases hs : c = '/' ∧ cs.head? = some '/'
    · obtain ⟨rfl, hhead⟩ := hs
      obtain ⟨more, rfl⟩ := List.head?_eq_some_iff.1 hhead
      rw [if_pos ⟨rfl, rfl⟩, List.take_succ_cons, List.drop_succ_cons]
      have hstep : trivia true ('/' :: more) = trivia true more + 1 := by
        simp [trivia]
      rw [hstep, List.take_succ_cons] at ihc ⊢
      exact ihc.filler
    · rw [if_neg hs]
      exact .nil

theorem solid_drop_trivia {inComment : Bool} {cs : List Char} (h : cs.drop (trivia inComment cs) ≠ []) :
    Solid (cs.drop (trivia inComment cs)) := by
  fun_induction trivia inComment cs with
  | case1 => simp at h
  | case2 c cs ih => exact ih h
  | case3 _ c cs _ _ ih => exact ih h
  | case4 _ c cs _ _ _ ih => exact ih h
  | case5 _ c cs _ hb hs => exact ⟨c, cs, rfl, by simpa using hb, hs⟩

/-! ## Steps -/

namespace Cursor

/-- From one cursor, filler was skipped up to a place, and at least one character taken there. -/
structure Takes (text : String) (before : Cursor) (start : Mark) (after : Cursor) : Prop where
  behind : before.mark.offset ≤ start.offset
  filler : Filler false ((Source.ofText text).slice ⟨before.mark.offset, start.offset⟩).toList
  solid : Solid (dropBytes start.offset text.toList)
  start_placed : start.PlacedIn text
  progress : start.offset < after.mark.offset
  after_placed : after.mark.PlacedIn text

/-- What is behind the cursor and what is ahead of it make up the text. -/
structure Over (text : String) (consumed : List Char) (cursor : Cursor) : Prop where
  text_eq : text.toList = consumed ++ cursor.rest
  mark_eq : cursor.mark = Mark.origin.advance consumed

namespace Over

variable {text : String} {consumed : List Char} {cursor : Cursor}

theorem placed (h : cursor.Over text consumed) : cursor.mark.PlacedIn text :=
  h.mark_eq ▸ Mark.placedIn_advance_origin h.text_eq

theorem offset_eq (h : cursor.Over text consumed) : cursor.mark.offset = byteLength consumed := by
  rw [h.mark_eq, Mark.offset_advance_origin]

theorem rest_eq (h : cursor.Over text consumed) : cursor.rest = dropBytes cursor.mark.offset text.toList := by
  rw [h.offset_eq, h.text_eq, dropBytes_byteLength]

theorem advance (h : cursor.Over text consumed) (count : Nat) :
    (cursor.advance count).Over text (consumed ++ cursor.rest.take count) := by
  constructor
  · rw [h.text_eq, List.append_assoc, ← rest_advance]
  · rw [Mark.advance_append, ← h.mark_eq]
    rfl

/-- The text between a cursor and the same one further on. -/
theorem slice_advance (h : cursor.Over text consumed) (count : Nat) :
    ((Source.ofText text).slice ⟨cursor.mark.offset, (cursor.advance count).mark.offset⟩).toList =
      cursor.rest.take count := by
  have hrest : dropBytes cursor.mark.offset text.toList = cursor.rest := h.rest_eq.symm
  show (String.ofList (takeBytes _ (dropBytes _ text.toList))).toList = _
  rw [String.toList_ofList, hrest, offset_advance, Nat.add_sub_cancel_left]
  nth_rewrite 2 [rest_advance count cursor]
  exact takeBytes_byteLength _ _

end Over

theorem offset_lt_advance {count : Nat} {cursor : Cursor} (hc : 0 < count) (hr : cursor.rest ≠ []) :
    cursor.mark.offset < (cursor.advance count).mark.offset := by
  have hne : cursor.rest.take count ≠ [] := by
    simp only [ne_eq, List.take_eq_nil_iff, hr, or_false]
    omega
  have hpos := byteLength_pos hne
  rw [offset_advance]
  omega

/-- A step that finds the end has skipped filler to the end of the text. -/
structure Ends (text : String) (before after : Cursor) : Prop where
  filler : Filler true ((Source.ofText text).slice ⟨before.mark.offset, after.mark.offset⟩).toList
  placed : after.mark.PlacedIn text
  offset_eq : after.mark.offset = (Source.ofText text).size
  /-- The end is found again by every further step. -/
  stays : ∀ more, (after.skip more).next = .finish after

theorem next_of_rest_nil {cursor : Cursor} (h : cursor.rest = []) : cursor.next = .finish cursor := by
  obtain ⟨rest, mark⟩ := cursor
  cases h
  rfl

theorem skip_of_rest_nil {cursor : Cursor} (h : cursor.rest = []) (more : Nat) : cursor.skip more = cursor := by
  induction more with
  | zero => rfl
  | succ more ih =>
    show skip more cursor.next.cursor = cursor
    rw [next_of_rest_nil h]
    exact ih

end Cursor

/-- What a step found lies in the text where the step says, behind nothing but filler. -/
def Step.Follows (text : String) (before : Cursor) : Step → Prop
  | .lexeme l after => before.Takes text l.start after ∧ l.stop = after.mark.offset
  | .fault f after => before.Takes text f.start after ∧
      f.message = f.cause.message ++ " at " ++ toString f.start.line ++ ":" ++ toString f.start.column
  | .finish after => before.Ends text after

namespace Cursor

variable {text : String} {consumed : List Char} {cursor : Cursor}

/-- The step of a cursor follows it, and what is behind the cursor still makes up the text with what
is ahead. -/
theorem Over.next (h : cursor.Over text consumed) :
    (∃ more, cursor.next.cursor.Over text more) ∧ cursor.next.Follows text cursor := by
  have hfiller := (filler_take_trivia cursor.rest).2
  have hsolid : (cursor.advance (trivia false cursor.rest)).rest ≠ [] →
      Solid (cursor.advance (trivia false cursor.rest)).rest := solid_drop_trivia
  have hslice := h.slice_advance (trivia false cursor.rest)
  have hhere := h.advance (trivia false cursor.rest)
  unfold Cursor.next
  generalize trivia false cursor.rest = blanks at hfiller hslice hhere hsolid ⊢
  rw [← hslice] at hfiller
  change Filler (cursor.advance blanks).rest.isEmpty _ at hfiller
  dsimp only
  split
  · rename_i hrest
    rw [hrest] at hfiller
    refine ⟨⟨_, hhere⟩, hfiller, hhere.placed, ?_, fun more => ?_⟩
    · rw [hhere.offset_eq]
      show _ = byteLength text.toList
      rw [hhere.text_eq, hrest, List.append_nil]
    · rw [skip_of_rest_nil hrest]
      exact next_of_rest_nil hrest
  · rename_i c cs hrest
    have hne : (cursor.advance blanks).rest ≠ [] := by simp [hrest]
    have htakes : cursor.Takes text (cursor.advance blanks).mark
        ((cursor.advance blanks).advance (scanToken c cs).taken) := by
      refine ⟨?_, by rwa [hrest] at hfiller, ?_, hhere.placed, ?_, (hhere.advance _).placed⟩
      · rw [offset_advance]
        exact Nat.le_add_right _ _
      · rw [← hhere.rest_eq]
        exact hsolid hne
      · exact offset_lt_advance (scanToken_taken_pos c cs) hne
    split
    · exact ⟨⟨_, hhere.advance _⟩, htakes, rfl⟩
    · exact ⟨⟨_, hhere.advance _⟩, htakes, by simp [LexFault.message, Mark.suffix, String.append_assoc]⟩

/-! ## Runs -/

theorem skip_succ (calls : Nat) (cursor : Cursor) : cursor.skip (calls + 1) = (cursor.skip calls).next.cursor := by
  induction calls generalizing cursor with
  | zero => rfl
  | succ calls ih => exact ih cursor.next.cursor

theorem Over.skip (h : cursor.Over text consumed) (calls : Nat) : ∃ more, (cursor.skip calls).Over text more := by
  induction calls generalizing cursor consumed with
  | zero => exact ⟨consumed, h⟩
  | succ calls ih =>
    obtain ⟨more, hmore⟩ := h.next.1
    exact ih hmore

theorem over_ofText (text : String) : (ofText text).Over text [] := ⟨rfl, rfl⟩

/-- The lexemes are what the steps of a run read one after the other. -/
def ReadsAll (cursor : Cursor) (ls : List Lexeme) : Prop :=
  ∀ i l, ls[i]? = some l → ∃ after, (cursor.skip i).next = .lexeme l after

theorem ReadsAll.cons {l : Lexeme} {ls : List Lexeme} {after : Cursor} (h : cursor.next = .lexeme l after)
    (hls : after.ReadsAll ls) : cursor.ReadsAll (l :: ls) := by
  intro i m hm
  cases i with
  | zero =>
    cases hm
    exact ⟨after, h⟩
  | succ i =>
    obtain ⟨last, hlast⟩ := hls i m hm
    refine ⟨last, ?_⟩
    show (Cursor.skip i cursor.next.cursor).next = _
    rwa [h]

/-- Reading all tokens is a run that reads lexemes up to the end or up to the first fault. -/
theorem tokenize_run (cursor : Cursor) : ∃ ls last, cursor.ReadsAll ls ∧
    ((cursor.skip ls.length).next = .finish last ∧ cursor.tokenize = (.ok ⟨ls, last.mark⟩, last) ∨
      ∃ fault, (cursor.skip ls.length).next = .fault fault last ∧ cursor.tokenize = (.error fault, last)) := by
  fun_induction Cursor.tokenize cursor with
  | case1 cursor after h => exact ⟨[], after, by simp [ReadsAll], .inl ⟨h, rfl⟩⟩
  | case2 cursor fault after h => exact ⟨[], after, by simp [ReadsAll], .inr ⟨fault, h, rfl⟩⟩
  | case3 cursor l after h found last heq ih =>
    obtain ⟨ls, last', hls, hend⟩ := ih
    have hskip : cursor.skip (l :: ls).length = after.skip ls.length := by
      show Cursor.skip ls.length cursor.next.cursor = _
      rw [h]
      rfl
    refine ⟨l :: ls, last', hls.cons h, ?_⟩
    rw [hskip]
    rcases hend with ⟨hnext, htok⟩ | ⟨fault, hnext, htok⟩
    · rw [htok] at heq
      cases heq
      exact .inl ⟨hnext, rfl⟩
    · rw [htok] at heq
      cases heq
      exact .inr ⟨fault, hnext, rfl⟩

/-- After any number of steps, whether these found tokens or faults, the cursor stands on a boundary
of the text, with the line and the column of that place and all the rest of the text ahead. The next
step skips filler and then takes at least one character, or finds the end of the text and stays there;
and reading all tokens from there reads lexemes step by step up to the end, which it finds once, or
up to the first fault. -/
theorem run_lossless (text : String) (calls : Nat) :
    let cursor := (ofText text).skip calls
    cursor.mark.PlacedIn text ∧ cursor.rest = dropBytes cursor.mark.offset text.toList ∧
      cursor.next.Follows text cursor ∧ (ofText text).skip (calls + 1) = cursor.next.cursor ∧
      ∃ ls last, cursor.ReadsAll ls ∧
        ((cursor.skip ls.length).next = .finish last ∧ cursor.tokenize = (.ok ⟨ls, last.mark⟩, last) ∨
          ∃ fault, (cursor.skip ls.length).next = .fault fault last ∧ cursor.tokenize = (.error fault, last)) := by
  intro cursor
  obtain ⟨consumed, h⟩ := (over_ofText text).skip calls
  exact ⟨h.placed, h.rest_eq, h.next.2, skip_succ calls _, tokenize_run cursor⟩

end Cursor

/-- The end that reading all tokens finds is the end of the text. -/
theorem finish_of_tokenize {text : String} {tokens : Tokens} (h : tokenize text = .ok tokens) :
    tokens.finish.offset = (Source.ofText text).size := by
  unfold tokenize at h
  obtain ⟨ls, last, -, ⟨hnext, htokens⟩ | ⟨fault, -, htokens⟩⟩ := (Cursor.ofText text).tokenize_run
  · obtain ⟨consumed, hover⟩ := (Cursor.over_ofText text).skip ls.length
    have hends := hover.next.2
    rw [hnext] at hends
    rw [htokens] at h
    cases h
    exact hends.offset_eq
  · rw [htokens] at h
    cases h

end LetLint
