/-
Texts that are spaced anew. A blank ends every token, and filler behind it is skipped up to the next one.
So the words of a text, with any blanks and comments before, between and behind them, are read as the same
tokens, each at the bytes of its word, as long as every word has a blank or the end of the text behind it.
-/
import LetLint.Proofs.Token.Munch

namespace LetLint

/-! ## Before a blank -/

/-- The characters are none or begin with a blank. -/
def Parted (rest : List Char) : Prop := ∀ c, rest.head? = some c → Text.isBlank c = true

theorem Text.isBlank_of_isDigit {c : Char} (h : isDigit c = true) : isBlank c = false := by
  have hdigits : ∀ more < 10, whiteSpaceRanges.contains ('0'.toNat + more) = false := by decide
  obtain ⟨hlow, hhigh⟩ := Bool.and_eq_true_iff.1 h
  have hlow : '0'.toNat ≤ c.toNat := of_decide_eq_true hlow
  have hhigh : c.toNat ≤ '0'.toNat + 9 := of_decide_eq_true hhigh
  have hc := hdigits (c.toNat - '0'.toNat) (by omega)
  rwa [Nat.add_sub_cancel' hlow] at hc

section

variable {c : Char} {chars cs rest rest' : List Char} {token : Token}

/-- Nothing that no blank does happens at the beginning of what is parted. -/
theorem Parted.any_eq_false {p : Char → Bool} (hp : ∀ c, p c = true → Text.isBlank c = false) (h : Parted rest) :
    rest.head?.any p = false := by
  cases hhead : rest.head? with
  | none => rfl
  | some d =>
    rw [Option.any_some, Bool.eq_false_iff]
    intro hd
    exact absurd ((hp d hd).symm.trans (h d hhead)) (by decide)

theorem Parted.head?_ne (h : Parted rest) {mark : Char} (hmark : Text.isBlank mark = false) : rest.head? ≠ some mark :=
  fun hhead => absurd (hmark.symm.trans (h mark hhead)) (by decide)

theorem Parted.fractionDigits_eq_nil (h : Parted rest) : fractionDigits rest = [] := by
  unfold fractionDigits
  split
  · exact absurd rfl (h.head?_ne (by decide +kernel))
  · rfl

theorem Parted.pair?_eq_none (h : Parted rest) (c : Char) : rest.head?.bind (Punct.pair? c) = none := by
  rw [Option.bind_eq_none_iff]
  intro d hd
  refine LetLint.pair?_eq_none (fun hmem => ?_) c
  simp only [List.mem_cons, List.not_mem_nil, or_false] at hmem
  rcases hmem with rfl | rfl | rfl | rfl <;> exact absurd hd (h.head?_ne (by decide +kernel))

theorem scanWord_parted (h : scanWord c (cs ++ []) = ⟨.ok token, cs.length + 1⟩) (hrest : Parted rest) :
    scanWord c (cs ++ rest) = ⟨.ok token, cs.length + 1⟩ := by
  obtain ⟨hcs, hnil⟩ := run_of_length (Nat.succ.inj (congrArg Scan.taken h))
  have hends := hrest.any_eq_false fun _ => Text.isBlank_of_continuesName
  rw [← h, scanWord, scanWord, takeWhile_run hcs hends, takeWhile_run hcs hnil]

theorem scanNumber_parted (h : scanNumber c (cs ++ []) = ⟨.ok token, cs.length + 1⟩) (hrest : Parted rest) :
    scanNumber c (cs ++ rest) = ⟨.ok token, cs.length + 1⟩ := by
  have hends := hrest.any_eq_false fun _ => Text.isBlank_of_isDigit
  obtain ⟨hnil, ⟨hcs, hnone⟩ | ⟨whole, part, rfl, hwhole, hpart, hne⟩⟩ := scanNumber_cases h
  · rw [← h, scanNumber_whole hcs hends hrest.fractionDigits_eq_nil, scanNumber_whole hcs hnil hnone]
  · rw [← h, scanNumber_fraction hwhole hpart hne hends, scanNumber_fraction hwhole hpart hne hnil]

theorem scanPunct_parted (h : scanPunct c (cs ++ []) = ⟨.ok token, cs.length + 1⟩) (hrest : Parted rest) :
    scanPunct c (cs ++ rest) = ⟨.ok token, cs.length + 1⟩ := by
  cases cs with
  | nil =>
    rw [← h]
    unfold scanPunct
    rw [List.nil_append, hrest.pair?_eq_none]
    rfl
  | cons d cs => exact h

/-- A token that is read at the end of a text is read before a blank. -/
theorem ReadsAs.parted (h : ReadsAs chars [] token) (hrest : Parted rest) : ReadsAs chars rest token := by
  obtain ⟨⟨c, _, hsolid, hblank, hslash⟩, _, cs, rfl, hscan⟩ := h
  cases hsolid
  refine ⟨⟨c, cs ++ rest, rfl, hblank, ?_⟩, c, cs, rfl, ?_⟩
  · rintro ⟨rfl, hhead⟩
    cases cs with
    | nil => exact hrest.head?_ne (by decide +kernel) hhead
    | cons d cs => exact hslash ⟨rfl, hhead⟩
  · unfold scanToken at hscan ⊢
    split_ifs at hscan ⊢ with hquote hdigit hword
    · exact scanString_append hscan rest
    · exact scanNumber_parted hscan hrest
    · exact scanWord_parted hscan hrest
    · exact scanPunct_parted hscan hrest

end

/-! ## Gaps and words -/

/-- Gaps and words by turns, with a gap at each end. -/
def weave : List String → List String → String
  | gap :: gaps, word :: words => gap ++ word ++ weave gaps words
  | gap :: _, [] => gap
  | [], _ => ""

/-- Gaps are filler, the last of which may end in an open comment. Each but the first begins with a blank, or
is the last one and empty. -/
structure Spacing (gaps : List String) : Prop where
  filler : ∀ i gap, gaps[i]? = some gap → Filler (i + 1 == gaps.length) gap.toList
  blank : ∀ i gap, gaps[i + 1]? = some gap →
    (∃ c cs, gap.toList = c :: cs ∧ Text.isBlank c = true) ∨ (gap = "" ∧ i + 2 = gaps.length)

namespace Spacing

variable {gap next : String} {gaps : List String}

theorem tail (h : Spacing (gap :: next :: gaps)) : Spacing (next :: gaps) where
  filler i g hg := by simpa using h.filler (i + 1) g hg
  blank i g hg := by simpa using h.blank (i + 1) g hg

theorem head_filler (h : Spacing (gap :: next :: gaps)) : Filler false gap.toList := h.filler 0 gap rfl

theorem last_filler (h : Spacing [gap]) : Filler true gap.toList := h.filler 0 gap rfl

/-- What is woven behind a word is parted from it. -/
theorem parted (h : Spacing (gap :: next :: gaps)) (words : List String) (hcount : gaps.length = words.length) :
    Parted (weave (next :: gaps) words).toList := by
  intro c hc
  rcases h.blank 0 next rfl with ⟨d, ds, hd, hblank⟩ | ⟨rfl, hlast⟩
  · cases words with
    | nil =>
      rw [weave, hd] at hc
      cases hc
      exact hblank
    | cons word words =>
      rw [weave, String.toList_append, String.toList_append, hd] at hc
      cases hc
      exact hblank
  · obtain rfl : gaps = [] := List.length_eq_zero_iff.1 (by simpa using hlast.symm)
    obtain rfl : words = [] := List.length_eq_zero_iff.1 hcount.symm
    cases hc

end Spacing

/-! ## Pieces in their places -/

/-- The text of a piece, without its gap. -/
def Piece.word (p : Piece) : String := String.ofList p.chars

/-- The pieces with other gaps before them. -/
def respaced (gaps : List String) (ps : List Piece) : List Piece :=
  gaps.zipWith (fun gap p => ⟨gap.toList, p.chars, p.token⟩) ps

section

variable {ps : List Piece} {p : Piece} {tail : List Char} {gaps : List String} {i : Nat}

theorem toList_weave (hcount : gaps.length = ps.length + 1) :
    (weave gaps (ps.map Piece.word)).toList = spell (respaced gaps ps) (gaps.getLastD "").toList := by
  induction ps generalizing gaps with
  | nil =>
    obtain ⟨gap, rfl⟩ := List.length_eq_one_iff.1 hcount
    rfl
  | cons p ps ih =>
    obtain ⟨gap, next, gaps, rfl⟩ : ∃ gap next more, gaps = gap :: next :: more := by
      match gaps, hcount with
      | gap :: next :: more, _ => exact ⟨gap, next, more, rfl⟩
    have hword : p.word.toList = p.chars := String.toList_ofList
    rw [List.map_cons, weave, String.toList_append, String.toList_append, ih (by simpa using hcount), hword,
      List.append_assoc]
    rfl

/-- Pieces that spell a text spell one with other gaps as well. -/
theorem Spelled.respaced (h : Spelled ps tail) (hcount : gaps.length = ps.length + 1) (hgaps : Spacing gaps) :
    Spelled (respaced gaps ps) (gaps.getLastD "").toList := by
  induction ps generalizing gaps with
  | nil =>
    obtain ⟨gap, rfl⟩ := List.length_eq_one_iff.1 hcount
    exact hgaps.last_filler
  | cons p ps ih =>
    obtain ⟨gap, next, gaps, rfl⟩ : ∃ gap next more, gaps = gap :: next :: more := by
      match gaps, hcount with
      | gap :: next :: more, _ => exact ⟨gap, next, more, rfl⟩
    obtain ⟨-, hread, hps⟩ := h
    have hcount' : (next :: gaps).length = ps.length + 1 := by simpa using hcount
    have hparted := hgaps.parted (ps.map Piece.word) (by simpa using hcount)
    rw [toList_weave hcount'] at hparted
    exact ⟨hgaps.head_filler, hread.alone.parted hparted, ih hps hcount' hgaps.tail⟩

/-- A piece stands behind the pieces before it and its gap. -/
theorem exists_spell_of_getElem? (h : ps[i]? = some p) (tail : List Char) :
    ∃ rest, spell ps tail = spell (ps.take i) p.gap ++ (p.chars ++ rest) := by
  induction ps generalizing i with
  | nil => cases h
  | cons q ps ih =>
    cases i with
    | zero =>
      cases h
      exact ⟨spell ps tail, rfl⟩
    | succ i =>
      obtain ⟨rest, hrest⟩ := ih h
      refine ⟨rest, ?_⟩
      rw [List.take_succ_cons, spell, spell, hrest]
      simp only [List.append_assoc]

/-- The lexeme of a piece starts behind the pieces before it and its gap. -/
theorem getElem?_lexemesFrom (mark : Mark) (ps : List Piece) (i : Nat) :
    (lexemesFrom mark ps)[i]? = ps[i]?.map fun p =>
      let start := mark.advance (spell (ps.take i) p.gap)
      ⟨p.token, start, (start.advance p.chars).offset⟩ := by
  induction ps generalizing mark i with
  | nil => rfl
  | cons q ps ih =>
    cases i with
    | zero => rfl
    | succ i =>
      rw [lexemesFrom, List.getElem?_cons_succ, List.getElem?_cons_succ, ih]
      simp only [List.take_succ_cons, spell, Mark.advance_append]

/-- A lexeme of a text spans the bytes of its piece. -/
theorem span_of_getElem? {l : Lexeme} (hl : (lexemesFrom .origin ps)[i]? = some l) (hp : ps[i]? = some p) :
    l.span = ⟨byteLength (spell (ps.take i) p.gap), byteLength (spell (ps.take i) p.gap ++ p.chars)⟩ := by
  rw [getElem?_lexemesFrom, hp] at hl
  cases hl
  rw [← Mark.offset_advance_origin, ← Mark.offset_advance_origin, Mark.advance_append]
  rfl

/-- The bytes of the lexemes of a text are the words of its pieces. -/
theorem map_slice_lexemesFrom {text : String} (htext : text.toList = spell ps tail) :
    (lexemesFrom .origin ps).map (fun l => (Source.ofText text).slice l.span) = ps.map Piece.word := by
  refine List.ext_getElem? fun i => ?_
  rw [List.getElem?_map, List.getElem?_map]
  cases hp : ps[i]? with
  | none => rw [getElem?_lexemesFrom, hp, Option.map_none, Option.map_none, Option.map_none]
  | some p =>
    obtain ⟨l, hl⟩ : ∃ l, (lexemesFrom .origin ps)[i]? = some l := ⟨_, by rw [getElem?_lexemesFrom, hp]; rfl⟩
    obtain ⟨rest, hrest⟩ := exists_spell_of_getElem? hp tail
    rw [hl, Option.map_some, Option.map_some, span_of_getElem? hl hp, Option.some.injEq, ← String.toList_inj,
      toList_slice (htext.trans hrest)]
    exact String.toList_ofList.symm

/-- What does not depend on the gaps stays. -/
theorem map_respaced {α : Type} {f : Piece → α} (hf : ∀ gap p, f ⟨gap, p.chars, p.token⟩ = f p)
    (hcount : ps.length < gaps.length) : (respaced gaps ps).map f = ps.map f := by
  induction ps generalizing gaps with
  | nil => rw [respaced, List.zipWith_nil_right]
  | cons p ps ih =>
    cases gaps with
    | nil => exact absurd hcount (Nat.not_lt_zero _)
    | cons gap gaps => exact congrArg₂ List.cons (hf gap.toList p) (ih (Nat.lt_of_succ_lt_succ hcount))

/-- The weaving leads to a word as the pieces lead to its piece. -/
theorem toList_weave_take (hp : (respaced gaps ps)[i]? = some p) :
    (weave (gaps.take (i + 1)) ((ps.map Piece.word).take i)).toList = spell ((respaced gaps ps).take i) p.gap := by
  induction i generalizing gaps ps with
  | zero =>
    match gaps, ps, hp with
    | gap :: gaps, q :: ps, hp =>
      cases hp
      rfl
  | succ i ih =>
    match gaps, ps, hp with
    | gap :: gaps, q :: ps, hp =>
      have hword : q.word.toList = q.chars := String.toList_ofList
      rw [List.map_cons, List.take_succ_cons, List.take_succ_cons, weave, String.toList_append, String.toList_append,
        ih hp, hword, List.append_assoc]
      rfl

end

/-! ## Texts -/

/-- The words of a text are read as its tokens in any spacing. Each is found at the bytes where the weaving
puts it. -/
theorem tokenize_weave {text : String} {tokens : Tokens} {gaps : List String} (h : tokenize text = .ok tokens)
    (hcount : gaps.length = tokens.lexemes.length + 1) (hgaps : Spacing gaps) :
    let words := tokens.lexemes.map fun l => (Source.ofText text).slice l.span
    ∃ found, tokenize (weave gaps words) = .ok found ∧
      found.lexemes.map (·.token) = tokens.lexemes.map (·.token) ∧
      found.lexemes.map (fun l => (Source.ofText (weave gaps words)).slice l.span) = words ∧
      ∀ i l word, found.lexemes[i]? = some l → words[i]? = some word →
        let before := weave (gaps.take (i + 1)) (words.take i)
        l.span = ⟨(Source.ofText before).size, (Source.ofText (before ++ word)).size⟩ := by
  intro words
  obtain ⟨ps, tail, htext, hspelled, rfl⟩ := tokenize_eq_ok_iff.1 h
  have hwords : words = ps.map Piece.word := map_slice_lexemesFrom htext
  have hcount : gaps.length = ps.length + 1 := by
    have hsame := congrArg List.length hwords
    rw [List.length_map, List.length_map] at hsame
    rw [hcount, hsame]
  have hmore : ps.length < gaps.length := hcount ▸ Nat.lt_succ_self _
  have hwoven : (weave gaps words).toList = spell (respaced gaps ps) (gaps.getLastD "").toList := by
    rw [hwords, toList_weave hcount]
  refine ⟨_, tokenize_eq_ok_iff.2 ⟨_, _, hwoven, hspelled.respaced hcount hgaps, rfl⟩, ?_, ?_, ?_⟩
  · rw [map_token_lexemesFrom, map_token_lexemesFrom, map_respaced (fun _ _ => rfl) hmore]
  · rw [map_slice_lexemesFrom hwoven, map_respaced (fun _ _ => rfl) hmore, hwords]
  · intro i l word hl hword before
    obtain ⟨p, hp, -⟩ : ∃ p, (respaced gaps ps)[i]? = some p ∧ _ := by
      rw [getElem?_lexemesFrom] at hl
      exact Option.map_eq_some_iff.1 hl
    have hbefore : before.toList = spell ((respaced gaps ps).take i) p.gap := by
      rw [← toList_weave_take hp, ← hwords]
    have hchars : word.toList = p.chars := by
      rw [hwords, ← map_respaced (fun _ _ => rfl) hmore, List.getElem?_map, hp] at hword
      cases hword
      exact String.toList_ofList
    rw [span_of_getElem? hl hp, Source.size, Source.size]
    show _ = Span.mk (byteLength before.toList) (byteLength (before ++ word).toList)
    rw [String.toList_append, hbefore, hchars]

/-- A slash stays a slash between comments, also before an open one. -/
theorem tokenize_weave_comments :
    let gaps := ["//1\n", " \n//8\n", "\t", " //"]
    ∃ tokens found, tokenize "8/a" = .ok tokens ∧ gaps.length = tokens.lexemes.length + 1 ∧ Spacing gaps ∧
      tokenize "//1\n8 \n//8\n/\ta //" = .ok found ∧
      found.lexemes.map (·.token) = [.number (.ofNumeral ['8'] []), .punct .slash, .identifier "a"] ∧
      ∀ l, found.lexemes[1]? = some l → l.span = ⟨11, 12⟩ := by
  intro gaps
  have hread : tokenize "8/a" = .ok ⟨[⟨.number (.ofNumeral ['8'] []), ⟨0, 1, 1⟩, 1⟩, ⟨.punct .slash, ⟨1, 1, 2⟩, 2⟩,
      ⟨.identifier "a", ⟨2, 1, 3⟩, 3⟩], ⟨3, 1, 4⟩⟩ := by decide +kernel
  have hgaps : Spacing gaps := by
    constructor
    · intro i gap hgap
      match i, hgap with
      | 0, rfl => exact .comment (by decide : '\n' ∉ ['1']) .nil
      | 1, rfl => exact .blank (by decide) (.blank (by decide) (.comment (by decide : '\n' ∉ ['8']) .nil))
      | 2, rfl => exact .blank (by decide) .nil
      | 3, rfl => exact .blank (by decide) (.unclosed rfl List.not_mem_nil)
    · intro i gap hgap
      match i, hgap with
      | 0, rfl => exact .inl ⟨_, _, rfl, by decide⟩
      | 1, rfl => exact .inl ⟨_, _, rfl, by decide⟩
      | 2, rfl => exact .inl ⟨_, _, rfl, by decide⟩
  obtain ⟨found, hfound, htokens, -, hspans⟩ := tokenize_weave hread rfl hgaps
  exact ⟨_, found, hread, rfl, hgaps, hfound, htokens, fun l hl => (hspans 1 l "/" hl rfl).trans (by decide +kernel)⟩

end LetLint
