/-
Reading texts whose identifiers are renamed. A text with the same tokens but for the names of identifiers
has as many counted tokens, and their tree is the counted tree, renamed.
-/
import LetLint.Proofs.Parse.Changed
import LetLint.Proofs.Parse.Counted

namespace LetLint

variable {text : String} {tokens : Tokens} {g : Span → String → String} {words : List Token}

/-- The counted tokens of a text and of the text renamed. -/
theorem counted_changedBy (h : tokenize text = .ok tokens)
    (hwords : words = tokens.lexemes.map fun l => l.token.rename (g l.span)) :
    List.Forall₂ (Lexeme.ChangedBy 0 fun span => g (tokens.place span)) (Tokens.counted tokens.words).lexemes
      (Tokens.counted words).lexemes := by
  have hlength : words.length = tokens.lexemes.length := by rw [hwords, List.length_map]
  refine List.forall₂_iff_get.2 ⟨by simp [hlength, Tokens.words], fun i hi hi' => ?_⟩
  have hlt : i < tokens.lexemes.length := by simpa [Tokens.words] using hi
  have hplace := Tokens.place_one (laid_finish_of_tokenize h) (List.getElem?_eq_getElem hlt)
  -- what a counted token covers is its own place
  have hcover : max (i + 1) i = i + 1 := Nat.max_eq_left (Nat.le_succ i)
  subst hwords
  simp only [Tokens.counted, Tokens.words, List.get_eq_getElem, List.getElem_mapIdx, List.getElem_map]
  refine ⟨rfl, rfl, ?_⟩
  show _ = Token.rename (g (tokens.place ⟨i, max (i + 1) i⟩)) _
  rw [hcover, hplace]

/-- The counted tree of a renamed text is the counted tree, renamed. -/
theorem Counted.tree_rename (h : tokenize text = .ok tokens)
    (hwords : words = tokens.lexemes.map fun l => l.token.rename (g l.span))
    (hnone : (Counted.items tokens.words).faults = []) : (Counted.items words).faults = [] ∧
      Counted.tree words = (Counted.tree tokens.words).rename fun span => g (tokens.place span) := by
  have hlength : words.length = tokens.words.length := by rw [hwords, Tokens.words, List.length_map, List.length_map]
  have hstart : Changed 0 (fun span => g (tokens.place span)) [] (.ofTokens (.counted tokens.words))
      (.ofTokens (.counted words)) := by
    refine ⟨counted_changedBy h hwords, ?_, rfl, by simp⟩
    show (Tokens.counted words).finish.offset = (Tokens.counted tokens.words).finish.offset
    rw [Tokens.counted, Tokens.counted, hlength]
  obtain ⟨hfaults, hnodes⟩ := items_changed hstart hnone
  have hitems : (Counted.items words).nodes =
      Tree.renameAll (fun span => g (tokens.place span)) (Counted.items tokens.words).nodes := by
    rw [Tree.renameAll_eq]
    exact hnodes.trans (List.map_congr_left fun t _ => Tree.change_zero _ t)
  refine ⟨hfaults, ?_⟩
  rw [Counted.tree, Counted.tree, hitems, hlength]
  rfl

end LetLint
