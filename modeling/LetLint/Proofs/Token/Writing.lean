/-
Texts that are written token by token. A name or a punctuation mark put before characters that are read
as tokens is read as one token more, as long as the two do not run together.
-/
import LetLint.Proofs.Token.Renaming

namespace LetLint

/-! ## Marks -/

namespace Punct

theorem mem_of_single? {c : Char} {mark : Punct} (h : single? c = some mark) :
    c ∈ ['+', '-', '*', '/', '%', '=', '>', '<', '\x7b', '\x7d', '(', ')', ',', ';', '!', '.'] := by
  unfold single? at h
  split at h <;> simp_all

/-- Only equality signs, bars and ampersands pair with a character that is no equality sign. -/
theorem pair?_of_ne {c d : Char} (hc : c ∉ ['=', '|', '&']) (hd : d ≠ '=') : pair? c d = none := by
  simp only [List.mem_cons, List.not_mem_nil, or_false, not_or] at hc
  unfold pair?
  split <;> simp_all

end Punct

/-- Neither a name nor a mark before the characters goes on with them. -/
structure Breaks (rest : List Char) : Prop where
  name : rest.head?.any Text.continuesName = false
  mark : rest.head? ≠ some '='

theorem Breaks.of_mem {c : Char} (hc : c ∈ [' ', '.', '<', ',', '>', '(', ')', ';']) (rest : List Char) :
    Breaks (c :: rest) := by
  have hall : [' ', '.', '<', ',', '>', '(', ')', ';'].all (fun c =>
      decide (Text.continuesName c = false ∧ c ≠ '=')) = true := by
    decide +kernel
  obtain ⟨hname, hmark⟩ := of_decide_eq_true (List.all_eq_true.1 hall c hc)
  exact ⟨hname, fun h => hmark (Option.some.inj h)⟩

/-- A mark is read where no pair goes on with it. -/
theorem readsAs_mark {c : Char} {mark : Punct} {rest : List Char} (hc : Punct.single? c = some mark)
    (hplain : c ∉ ['=', '|', '&', '/']) (hrest : rest.head? ≠ some '=') : ReadsAs [c] rest (.punct mark) := by
  have hmarks : ['+', '-', '*', '/', '%', '=', '>', '<', '\x7b', '\x7d', '(', ')', ',', ';', '!', '.'].all (fun c =>
      decide (Text.isBlank c = false ∧ c ≠ '"' ∧ Text.isDigit c = false ∧ Text.startsName c = false)) = true := by
    decide +kernel
  have hmark := List.all_eq_true.1 hmarks c (Punct.mem_of_single? hc)
  obtain ⟨hblank, hquote, hdigit, hname⟩ := of_decide_eq_true hmark
  have hpair : rest.head?.bind (Punct.pair? c) = none := by
    rcases rest with _ | ⟨d, rest⟩
    · rfl
    · exact Punct.pair?_of_ne (fun h => hplain (by simp_all)) fun h => hrest (congrArg some h)
  refine ⟨⟨c, rest, rfl, hblank, fun h => hplain (by simp [h.1])⟩, c, [], rfl, ?_⟩
  rw [List.nil_append, scanToken, if_neg hquote, if_neg (by simp [hdigit]), if_neg (by simp [hname]), scanPunct, hpair,
    hc]
  rfl

/-! ## Writing -/

/-- The characters, to the end of a text, are read as the tokens. -/
def SpellsOut (cs : List Char) (tokens : List Token) : Prop :=
  ∃ ps tail, cs = spell ps tail ∧ Spelled ps tail ∧ ps.map (·.token) = tokens

theorem spellsOut_toList_iff {text : String} {tokens : List Token} : SpellsOut text.toList tokens ↔
    ∃ found, tokenize text = .ok found ∧ found.lexemes.map (·.token) = tokens := by
  constructor
  · rintro ⟨ps, tail, htext, hspelled, rfl⟩
    exact ⟨_, tokenize_eq_ok_iff.2 ⟨ps, tail, htext, hspelled, rfl⟩, map_token_lexemesFrom _ ps⟩
  · rintro ⟨found, hfound, rfl⟩
    obtain ⟨ps, tail, htext, hspelled, rfl⟩ := tokenize_eq_ok_iff.1 hfound
    exact ⟨ps, tail, htext, hspelled, (map_token_lexemesFrom _ ps).symm⟩

namespace SpellsOut

variable {rest : List Char} {tokens : List Token}

theorem nil : SpellsOut [] [] := ⟨[], [], rfl, .nil, rfl⟩

theorem blank {c : Char} (hc : Text.isBlank c = true) (h : SpellsOut rest tokens) : SpellsOut (c :: rest) tokens := by
  obtain ⟨ps, tail, rfl, hspelled, rfl⟩ := h
  cases ps with
  | nil => exact ⟨[], c :: tail, rfl, .blank hc hspelled, rfl⟩
  | cons p ps =>
    obtain ⟨hgap, hread, hps⟩ := hspelled
    exact ⟨⟨c :: p.gap, p.chars, p.token⟩ :: ps, tail, rfl, ⟨.blank hc hgap, hread, hps⟩, rfl⟩

theorem token {chars : List Char} {token : Token} (hread : ReadsAs chars rest token) (h : SpellsOut rest tokens) :
    SpellsOut (chars ++ rest) (token :: tokens) := by
  obtain ⟨ps, tail, rfl, hspelled, rfl⟩ := h
  exact ⟨⟨[], chars, token⟩ :: ps, tail, rfl, ⟨.nil, hread, hspelled⟩, rfl⟩

theorem name {word : String} (hword : isName word = true) (hrest : Breaks rest) (h : SpellsOut rest tokens) :
    SpellsOut (word.toList ++ rest) (.identifier word :: tokens) :=
  token (readsAs_identifier_iff.2 ⟨hword, rfl, hrest.name⟩) h

theorem mark {c : Char} {mark : Punct} (hc : Punct.single? c = some mark) (hplain : c ∉ ['=', '|', '&', '/'])
    (hrest : rest.head? ≠ some '=') (h : SpellsOut rest tokens) : SpellsOut (c :: rest) (.punct mark :: tokens) :=
  token (readsAs_mark hc hplain hrest) h

end SpellsOut

end LetLint
