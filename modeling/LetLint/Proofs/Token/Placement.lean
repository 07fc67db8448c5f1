/-
Where the lexemes of a text stand. A step of a cursor splits what is left of the text into what it
skips, what it takes and what stays; so the lexemes of a text stand one behind the other, none is
empty, none reaches beyond the end, and a name is spelled by the bytes of its lexeme.
-/
import LetLint.Proofs.Grammar.Layout
import LetLint.Source.Basic

namespace LetLint

/-! ## One token -/

theorem wordToken_eq_identifier {word name : String} (h : wordToken word = .identifier name) : name = word := by
  unfold wordToken at h
  split at h <;> cases h
  rfl

/-- A scan that reads a name takes exactly its characters. -/
theorem take_scanToken_of_identifier {c : Char} {cs : List Char} {name : String}
    (h : (scanToken c cs).outcome = .ok (.identifier name)) :
    String.ofList ((c :: cs).take (scanToken c cs).taken) = name := by
  unfold scanToken at h ⊢
  by_cases hq : c = '"'
  · rw [if_pos hq] at h
    unfold scanString Scan.after at h
    dsimp only at h
    rcases hs : (scanText cs).outcome with e | v <;> rw [hs] at h <;> cases h
  rw [if_neg hq] at h ⊢
  by_cases hd : Text.isDigit c = true
  · rw [if_pos hd] at h
    cases h
  rw [if_neg hd] at h ⊢
  by_cases hw : Text.startsName c = true
  · rw [if_pos hw] at h ⊢
    have htake : cs.take (cs.takeWhile Text.continuesName).length = cs.takeWhile Text.continuesName :=
      List.prefix_iff_eq_take.1 (List.takeWhile_prefix _) |>.symm
    have hname := wordToken_eq_identifier (Except.ok.inj h)
    rw [hname]
    simp only [scanWord, List.take_succ_cons, htake]
  · rw [if_neg hw] at h
    unfold scanPunct at h
    split at h
    · cases h
    · split at h <;> cases h

/-! ## One step -/

/-- The lexeme is made of the characters behind the first ones of a text. -/
structure Lexeme.SpelledBy (l : Lexeme) (offset : Nat) (before chars : List Char) : Prop where
  start_eq : l.start.offset = offset + byteLength before
  stop_eq : l.stop = l.start.offset + byteLength chars
  nonempty : chars ≠ []
  name_eq : ∀ name, l.token = .identifier name → String.ofList chars = name

namespace Cursor

theorem rest_advance (count : Nat) (cursor : Cursor) :
    cursor.rest = cursor.rest.take count ++ (cursor.advance count).rest := (List.take_append_drop ..).symm

theorem offset_advance (count : Nat) (cursor : Cursor) :
    (cursor.advance count).mark.offset = cursor.mark.offset + byteLength (cursor.rest.take count) :=
  Mark.offset_advance ..

/-- A step that reads a lexeme splits what is left into what it skips, the lexeme and the rest. -/
theorem spelledBy_of_next {cursor after : Cursor} {l : Lexeme} (h : cursor.next = .lexeme l after) :
    ∃ skipped chars, cursor.rest = skipped ++ (chars ++ after.rest) ∧ after.mark.offset = l.stop ∧
      l.SpelledBy cursor.mark.offset skipped chars := by
  unfold next at h
  simp only at h
  generalize trivia false cursor.rest = blanks at h
  split at h
  · cases h
  · rename_i c cs hrest
    split at h
    · rename_i token htoken
      cases h
      refine ⟨cursor.rest.take blanks, (c :: cs).take (scanToken c cs).taken, ?_, rfl, ?_, ?_, ?_, ?_⟩
      · rw [← hrest, ← rest_advance, ← rest_advance]
      · exact offset_advance blanks cursor
      · rw [offset_advance, hrest]
      · have hpos := scanToken_taken_pos c cs
        simp only [ne_eq, List.take_eq_nil_iff, reduceCtorEq, or_false]
        omega
      · rintro name rfl
        exact take_scanToken_of_identifier htoken
    · cases h

theorem byteLength_pos {chars : List Char} (h : chars ≠ []) : 0 < byteLength chars := by
  obtain ⟨c, cs, rfl⟩ := List.exists_cons_of_ne_nil h
  have hc := c.utf8Size_pos
  simp only [byteLength]
  omega

/-- The lexemes that a cursor reads stand one behind the other in what was left of the text, and
each is spelled by some characters of it. -/
theorem placed_of_tokenize (cursor : Cursor) {tokens : Tokens} (h : cursor.tokenize.1 = .ok tokens) :
    Laid cursor.mark.offset (cursor.mark.offset + byteLength cursor.rest) tokens.lexemes ∧
      ∀ l ∈ tokens.lexemes, ∃ before chars rest, cursor.rest = before ++ (chars ++ rest) ∧
        l.SpelledBy cursor.mark.offset before chars := by
  induction hlen : cursor.rest.length using Nat.strongRecOn generalizing cursor tokens with
  | ind length ih =>
    rw [Cursor.tokenize] at h
    split at h
    · cases h
      exact ⟨.nil (Nat.le_add_right _ _), by simp⟩
    · cases h
    · rename_i l after hnext
      dsimp only at h
      rcases hrec : after.tokenize.1 with fault | tail
      · rw [hrec] at h
        cases h
      rw [hrec] at h
      cases h
      obtain ⟨skipped, chars, hrest, hafter, hl⟩ := spelledBy_of_next hnext
      have hshort := length_rest_of_next_eq_lexeme hnext
      obtain ⟨hlaid, hspelled⟩ := ih _ (hlen ▸ hshort) after hrec rfl
      have hpos := byteLength_pos hl.nonempty
      have hsize : byteLength cursor.rest = byteLength skipped + (byteLength chars + byteLength after.rest) := by
        rw [hrest, byteLength_append, byteLength_append]
      refine ⟨.cons ?_ ?_ ?_, ?_⟩
      · rw [hl.start_eq]; omega
      · rw [hl.stop_eq]; omega
      · rw [hafter] at hlaid
        have hstop : l.stop + byteLength after.rest = cursor.mark.offset + byteLength cursor.rest := by
          rw [hl.stop_eq, hl.start_eq, hsize]; omega
        rwa [hstop] at hlaid
      · intro m hm
        rcases List.mem_cons.1 hm with rfl | hm
        · exact ⟨skipped, chars, after.rest, hrest, hl⟩
        · -- the tail's lexemes are counted from behind this one
          obtain ⟨before, more, rest, hsplit, hm⟩ := hspelled m hm
          refine ⟨skipped ++ (chars ++ before), more, rest, by rw [hrest, hsplit]; simp, ?_, hm.stop_eq, hm.nonempty,
            hm.name_eq⟩
          rw [hm.start_eq, hafter, hl.stop_eq, hl.start_eq, byteLength_append, byteLength_append]
          omega

end Cursor

/-! ## Whole texts -/

section

variable {text : String} {tokens : Tokens}

/-- The lexemes of a text stand one behind the other in it. -/
theorem laid_of_tokenize (h : tokenize text = .ok tokens) : Laid 0 (Source.ofText text).size tokens.lexemes := by
  have hl := (Cursor.placed_of_tokenize _ h).1
  have hend : (Cursor.ofText text).mark.offset + byteLength (Cursor.ofText text).rest = (Source.ofText text).size :=
    Nat.zero_add _
  rwa [hend] at hl

/-- The bytes of a name's lexeme spell the name. -/
theorem slice_of_tokenize (h : tokenize text = .ok tokens) {l : Lexeme} (hl : l ∈ tokens.lexemes) {name : String}
    (hname : l.token = .identifier name) : (Source.ofText text).slice (cover [l]) = name := by
  obtain ⟨before, chars, rest, hrest, hs⟩ := (Cursor.placed_of_tokenize _ h).2 l hl
  have hstart : l.start.offset = byteLength before := hs.start_eq.trans (Nat.zero_add _)
  have hlen : max l.stop l.start.offset - l.start.offset = byteLength chars := by
    rw [hs.stop_eq]; omega
  have htext : (Source.ofText text).text.toList = before ++ (chars ++ rest) := hrest
  unfold Source.slice cover
  simp only [lastStop]
  rw [hlen, hstart, htext, dropBytes_byteLength, takeBytes_byteLength]
  exact hs.name_eq name hname

end

end LetLint
