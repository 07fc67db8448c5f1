/-
Maximal munch. A token is read from its own characters alone, and it is as long as it can be: what stands
behind it decides no more than where it ends, and no longer piece of the text that starts with it is one
token. So the characters of a lexeme, on their own, are that lexeme again. A name is spelled by its lexeme
and is no keyword, and a number takes a point only together with a digit behind it.
-/
import LetLint.Proofs.Source.Slices
import LetLint.Proofs.Token.Renaming

namespace LetLint

section

variable {c : Char} {cs rest more rest' : List Char} {token token' : Token}

/-! ## Runs and strings -/

/-- A run that ends before the rest does not go on with characters of the rest. -/
theorem eq_nil_of_run {p : Char → Bool} (hrest : rest.head?.any p = false) (hmore : more <+: rest)
    (hall : ∀ d ∈ more, p d = true) : more = [] := by
  cases more with
  | nil => rfl
  | cons d more =>
    obtain ⟨behind, rfl⟩ := hmore
    have hd : p d = false := hrest
    exact absurd (hd.symm.trans (hall d List.mem_cons_self)) (by decide)

theorem scanWord_alone (h : scanWord c (cs ++ rest) = ⟨.ok token, cs.length + 1⟩) :
    scanWord c cs = ⟨.ok token, cs.length + 1⟩ := by
  obtain ⟨hcs, hrest⟩ := run_of_length (Nat.succ.inj (congrArg Scan.taken h))
  rw [← h, scanWord, scanWord, takeWhile_run hcs hrest, List.takeWhile_eq_self_iff.2 hcs]

theorem scanWord_longest (h : scanWord c (cs ++ rest) = ⟨.ok token, cs.length + 1⟩) (hmore : more <+: rest)
    (h' : scanWord c (cs ++ more ++ rest') = ⟨.ok token', (cs ++ more).length + 1⟩) : more = [] := by
  obtain ⟨-, hrest⟩ := run_of_length (Nat.succ.inj (congrArg Scan.taken h))
  obtain ⟨hall, -⟩ := run_of_length (Nat.succ.inj (congrArg Scan.taken h'))
  exact eq_nil_of_run hrest hmore fun d hd => hall d (List.mem_append_right cs hd)

/-- A string is over with its closing quote. -/
theorem scanString_longest (h : scanString (cs ++ rest) = ⟨.ok token, cs.length + 1⟩)
    (h' : scanString (cs ++ more ++ rest') = ⟨.ok token', (cs ++ more).length + 1⟩) : more = [] := by
  rw [List.append_assoc] at h'
  have htaken := congrArg Scan.taken ((scanString_append h (more ++ rest')).symm.trans h')
  have hlength : cs.length + 1 = (cs ++ more).length + 1 := htaken
  rw [List.length_append] at hlength
  exact List.length_eq_zero_iff.1 (by omega)

/-! ## Numbers -/

theorem scanNumber_alone (h : scanNumber c (cs ++ rest) = ⟨.ok token, cs.length + 1⟩) :
    scanNumber c cs = ⟨.ok token, cs.length + 1⟩ := by
  obtain ⟨hrest, ⟨hcs, hnone⟩ | ⟨whole, part, rfl, hwhole, hpart, hne⟩⟩ := scanNumber_cases h
  · have halone : scanNumber c (cs ++ []) = _ := scanNumber_whole hcs rfl rfl
    rw [List.append_nil] at halone
    rw [halone, ← scanNumber_whole hcs hrest hnone, h]
  · have halone : scanNumber c (whole ++ '.' :: part ++ []) = _ := scanNumber_fraction hwhole hpart hne rfl
    rw [List.append_nil] at halone
    rw [halone, ← scanNumber_fraction hwhole hpart hne hrest, h]

theorem scanNumber_longest (h : scanNumber c (cs ++ rest) = ⟨.ok token, cs.length + 1⟩) (hmore : more <+: rest)
    (h' : scanNumber c (cs ++ more ++ rest') = ⟨.ok token', (cs ++ more).length + 1⟩) : more = [] := by
  obtain ⟨hrest, hshort⟩ := scanNumber_cases h
  obtain ⟨-, hlong⟩ := scanNumber_cases h'
  have hdigits : (∀ d ∈ more, Text.isDigit d = true) → more = [] := eq_nil_of_run hrest hmore
  rcases hshort with ⟨hcs, hnone⟩ | ⟨whole, part, rfl, hwhole, hpart, -⟩
  · rcases hlong with ⟨hall, -⟩ | ⟨whole', part', heq, hwhole', hpart', hne'⟩
    · exact hdigits fun d hd => hall d (List.mem_append_right cs hd)
    · -- the rest would start with the point and a digit, which the number takes
      cases more with
      | nil => rfl
      | cons d more =>
        obtain ⟨behind, rfl⟩ := hmore
        have hd : Text.isDigit d = false := hrest
        have hrun : (cs ++ d :: more).takeWhile Text.isDigit = cs := takeWhile_run hcs hd
        rw [heq, takeWhile_run hwhole' rfl] at hrun
        rw [hrun, List.append_cancel_left_eq] at heq
        cases heq
        rw [List.cons_append] at hnone
        have hnone : (part' ++ behind).takeWhile Text.isDigit = [] := hnone
        rw [List.takeWhile_append_of_pos hpart'] at hnone
        exact absurd (List.append_eq_nil_iff.1 hnone).1 hne'
  · rcases hlong with ⟨hall, -⟩ | ⟨whole', part', heq, hwhole', hpart', -⟩
    · exact absurd (hall '.' (by simp)) (by decide)
    · rw [List.append_assoc, List.cons_append] at heq
      obtain ⟨-, hsame⟩ := run_before_mark (by decide) hwhole hwhole' heq
      exact hdigits fun d hd => hpart' d (hsame ▸ List.mem_append_right part hd)

/-! ## Punctuation -/

theorem scanPunct_alone (h : scanPunct c (cs ++ rest) = ⟨.ok token, cs.length + 1⟩) :
    scanPunct c cs = ⟨.ok token, cs.length + 1⟩ := by
  unfold scanPunct at h ⊢
  cases cs with
  | nil =>
    split at h
    · cases h
    · exact h
  | cons d cs => exact h

/-- Punctuation takes its second character if the two are a pair, and else one. -/
theorem scanPunct_cases (h : scanPunct c (cs ++ rest) = ⟨.ok token, cs.length + 1⟩) :
    (cs = [] ∧ ∀ d, rest.head? = some d → Punct.pair? c d = none) ∨
      ∃ d mark, cs = [d] ∧ Punct.pair? c d = some mark := by
  unfold scanPunct at h
  split at h
  · rename_i mark hpair
    obtain ⟨d, rfl⟩ : ∃ d, cs = [d] := List.length_eq_one_iff.1 (Nat.succ.inj (congrArg Scan.taken h)).symm
    exact .inr ⟨d, mark, rfl, hpair⟩
  · rename_i hpair
    have hnil : cs = [] := by
      split at h
      · exact List.length_eq_zero_iff.1 (Nat.succ.inj (congrArg Scan.taken h)).symm
      · cases h
    subst hnil
    refine .inl ⟨rfl, fun d hd => ?_⟩
    rwa [List.nil_append, hd] at hpair

theorem scanPunct_longest (h : scanPunct c (cs ++ rest) = ⟨.ok token, cs.length + 1⟩) (hmore : more <+: rest)
    (h' : scanPunct c (cs ++ more ++ rest') = ⟨.ok token', (cs ++ more).length + 1⟩) : more = [] := by
  rcases scanPunct_cases h' with ⟨hnil, -⟩ | ⟨d, mark, hpair, hmark⟩
  · exact (List.append_eq_nil_iff.1 hnil).2
  rcases scanPunct_cases h with ⟨rfl, hnone⟩ | ⟨e, -, rfl, -⟩
  · -- the pair stands in the rest, so the shorter scan would have taken it
    obtain ⟨behind, rfl⟩ := hmore
    rw [List.nil_append] at hpair
    subst hpair
    exact absurd ((hnone d rfl).symm.trans hmark) (by simp)
  · exact (List.cons.inj hpair).2

/-! ## Tokens -/

theorem scanToken_alone (h : scanToken c (cs ++ rest) = ⟨.ok token, cs.length + 1⟩) :
    scanToken c cs = ⟨.ok token, cs.length + 1⟩ := by
  unfold scanToken at h ⊢
  split_ifs at h ⊢ with hquote hdigit hword
  · rw [← scanString_append h [], List.append_nil]
  · exact scanNumber_alone h
  · exact scanWord_alone h
  · exact scanPunct_alone h

theorem scanToken_longest (h : scanToken c (cs ++ rest) = ⟨.ok token, cs.length + 1⟩) (hmore : more <+: rest)
    (h' : scanToken c (cs ++ more ++ rest') = ⟨.ok token', (cs ++ more).length + 1⟩) : more = [] := by
  unfold scanToken at h h'
  split_ifs at h h' with hquote hdigit hword
  · exact scanString_longest h h'
  · exact scanNumber_longest h hmore h'
  · exact scanWord_longest h hmore h'
  · exact scanPunct_longest h hmore h'

/-- Only a digit starts a number. -/
theorem isDigit_of_scanToken {value : Number.Binary64} {taken : Nat}
    (h : scanToken c cs = ⟨.ok (.number value), taken⟩) : Text.isDigit c = true := by
  rcases scanToken_cases h with ⟨-, _, ⟨⟩⟩ | ⟨hc, -⟩ | ⟨-, ⟨_, ⟨⟩⟩ | ⟨_, ⟨⟩⟩⟩ | ⟨_, ⟨⟩⟩
  exact hc

/-- The characters of a token are that token on their own. -/
theorem ReadsAs.alone {chars : List Char} (h : ReadsAs chars rest token) : ReadsAs chars [] token := by
  obtain ⟨⟨c, _, hsolid, hblank, hslash⟩, _, cs, rfl, hscan⟩ := h
  cases hsolid
  refine ⟨⟨c, cs ++ [], rfl, hblank, ?_⟩, c, cs, rfl, ?_⟩
  · rintro ⟨rfl, hhead⟩
    refine hslash ⟨rfl, ?_⟩
    rw [List.append_nil] at hhead
    show (cs ++ rest).head? = some '/'
    rw [List.head?_append, hhead, Option.some_or]
  · rw [List.append_nil]
    exact scanToken_alone hscan

/-- No more of what stands behind a token is one token together with it. -/
theorem ReadsAs.longest {chars : List Char} (h : ReadsAs chars rest token) (hmore : more <+: rest)
    (h' : ReadsAs (chars ++ more) rest' token') : more = [] := by
  obtain ⟨-, c, cs, rfl, hscan⟩ := h
  obtain ⟨-, c', cs', hcons, hscan'⟩ := h'
  cases hcons
  exact scanToken_longest hscan hmore hscan'

/-- The characters are digits, with at most one point among them and digits on both sides of it. They are
the digits of the value, and they end where neither a digit follows nor, if there is no point yet, a point
with a digit. -/
def IsNumeral (chars behind : List Char) (value : Number.Binary64) : Prop :=
  ∃ whole part, whole ≠ [] ∧ (∀ d ∈ whole ++ part, Text.isDigit d = true) ∧
    chars = (if part = [] then whole else whole ++ '.' :: part) ∧ value = .ofNumeral whole part ∧
    behind.head?.any Text.isDigit = false ∧
    (part = [] → ∀ d more, behind = '.' :: d :: more → Text.isDigit d = false)

theorem ReadsAs.isNumeral {chars : List Char} {value : Number.Binary64} (h : ReadsAs chars rest (.number value)) :
    IsNumeral chars rest value := by
  obtain ⟨-, c, cs, rfl, hscan⟩ := h
  have hc := isDigit_of_scanToken hscan
  have hquote : c ≠ '"' := by
    rintro rfl
    exact absurd hc (by decide)
  unfold scanToken at hscan
  rw [if_neg hquote, if_pos hc] at hscan
  obtain ⟨hrest, ⟨hcs, hnone⟩ | ⟨whole, part, rfl, hwhole, hpart, hne⟩⟩ := scanNumber_cases hscan
  · rw [scanNumber_whole hcs hrest hnone] at hscan
    cases Except.ok.inj (congrArg Scan.outcome hscan)
    refine ⟨c :: cs, [], List.cons_ne_nil _ _, ?_, rfl, rfl, hrest, ?_⟩
    · rw [List.append_nil]
      exact List.forall_mem_cons.2 ⟨hc, hcs⟩
    · rintro - d more rfl
      exact any_head?_of_takeWhile hnone
  · rw [scanNumber_fraction hwhole hpart hne hrest] at hscan
    cases Except.ok.inj (congrArg Scan.outcome hscan)
    refine ⟨c :: whole, part, List.cons_ne_nil _ _, ?_, (if_neg hne).symm, rfl, hrest, fun h => absurd h hne⟩
    exact List.forall_mem_append.2 ⟨List.forall_mem_cons.2 ⟨hc, hwhole⟩, hpart⟩

end

/-! ## Texts -/

/-- The text is one token, which spans all of it. -/
def IsToken (text : String) (token : Token) : Prop :=
  ∃ tokens l, tokenize text = .ok tokens ∧ tokens.lexemes = [l] ∧ l.token = token ∧
    l.span = ⟨0, (Source.ofText text).size⟩

theorem isToken_iff {text : String} {token : Token} : IsToken text token ↔ ReadsAs text.toList [] token := by
  have hoffset (cs : List Char) : (Mark.origin.advance cs).offset = byteLength cs := Mark.offset_advance_origin cs
  constructor
  · rintro ⟨tokens, l, htokens, hone, rfl, hspan⟩
    obtain ⟨ps, tail, htext, hspelled, rfl⟩ := tokenize_eq_ok_iff.1 htokens
    obtain ⟨p, rfl⟩ : ∃ p, ps = [p] := by
      rcases ps with _ | ⟨p, _ | ⟨q, ps⟩⟩
      · cases hone
      · exact ⟨p, rfl⟩
      · cases hone
    cases hone
    have hgap : byteLength p.gap = 0 := (hoffset p.gap).symm.trans (congrArg Span.start hspan)
    have hgap := eq_nil_of_byteLength hgap
    have hstop : byteLength p.chars = byteLength text.toList := by
      have hstop := congrArg Span.stop hspan
      rw [hgap] at hstop
      exact (hoffset p.chars).symm.trans hstop
    have hall : text.toList = p.chars ++ tail := by
      rw [htext, spell, spell, hgap, List.nil_append]
    have htail : tail = [] := by
      rw [hall, byteLength_append] at hstop
      exact eq_nil_of_byteLength (by omega)
    obtain ⟨-, hread, -⟩ := hspelled
    rw [htail, List.append_nil] at hall
    rw [hall]
    rwa [spell, htail] at hread
  · intro h
    let p : Piece := ⟨[], text.toList, token⟩
    have hspelled : Spelled [p] [] := ⟨.nil, h, .nil⟩
    have htext : text.toList = spell [p] [] := (List.append_nil _).symm
    exact ⟨_, _, tokenize_eq_ok_iff.2 ⟨[p], [], htext, hspelled, rfl⟩, rfl, rfl,
      congrArg (Span.mk 0) (hoffset text.toList)⟩

theorem not_keyword_of_isName {name : String} (h : isName name = true) :
    name ∉ ["var", "return", "true", "false", "null"] := by
  obtain ⟨-, -, -, -, -, hkeyword⟩ := isName_iff.1 h
  simp only [List.mem_cons, List.not_mem_nil, or_false]
  rintro (rfl | rfl | rfl | rfl | rfl) <;> exact absurd hkeyword (by decide)

namespace Cursor

variable {text : String} {cursor after : Cursor} {l : Lexeme}

/-- A lexeme is read where it stands in the text, before what is left of it. -/
theorem Over.reads {consumed : List Char} (hover : cursor.Over text consumed) (h : cursor.next = .lexeme l after) :
    ∃ before chars, text.toList = before ++ (chars ++ after.rest) ∧ l.start.offset = byteLength before ∧
      l.stop = byteLength (before ++ chars) ∧ ReadsAs chars after.rest l.token := by
  obtain ⟨p, hrest, hgap, hread⟩ := piece_of_next h
  obtain ⟨rest, mark⟩ := cursor
  change rest = _ at hrest
  subst hrest
  have hsame := (next_piece hgap hread mark).symm.trans h
  obtain ⟨rfl, hafter⟩ := Step.lexeme.inj hsame
  have hmark : mark = Mark.origin.advance consumed := hover.mark_eq
  refine ⟨consumed ++ p.gap, p.chars, ?_, ?_, ?_, hread⟩
  · rw [List.append_assoc]
    exact hover.text_eq
  · show (mark.advance p.gap).offset = _
    rw [hmark, ← Mark.advance_append, Mark.offset_advance_origin]
  · show ((mark.advance p.gap).advance p.chars).offset = _
    rw [hmark, ← Mark.advance_append, ← Mark.advance_append, Mark.offset_advance_origin, List.append_assoc]

/-- A point before a name is a token of its own, and so is the name. -/
theorem next_member {name : String} {rest : List Char} (hrest : cursor.rest = '.' :: (name.toList ++ rest))
    (hname : isName name = true) (hends : rest.head?.any Text.continuesName = false) :
    ∃ dot behind member last, cursor.next = .lexeme dot behind ∧ dot.token = .punct .dot ∧
      behind.next = .lexeme member last ∧ member.token = .identifier name := by
  have hdot : ReadsAs ['.'] (name.toList ++ rest) (.punct .dot) := by
    refine ⟨⟨'.', name.toList ++ rest, rfl, by decide +kernel, fun h => absurd h.1 (by decide)⟩, '.', [], rfl, ?_⟩
    have hnone : (name.toList ++ rest).head?.bind (Punct.pair? '.') = none := by
      rw [Option.bind_eq_none_iff]
      intro d _
      rfl
    show scanPunct '.' (name.toList ++ rest) = _
    rw [scanPunct, hnone]
    rfl
  obtain ⟨_, mark⟩ := cursor
  cases hrest
  have hpoint := next_piece (p := ⟨[], ['.'], .punct .dot⟩) .nil hdot mark
  have hmember := next_piece (p := ⟨[], name.toList, .identifier name⟩) .nil
    (readsAs_identifier_iff.2 ⟨hname, rfl, hends⟩) (mark.advance ['.'])
  exact ⟨_, _, _, _, hpoint, rfl, hmember, rfl⟩

/-- Wherever a run reads a token, the bytes of its lexeme are that token on their own, and no longer piece
of the text that starts there is one token. A name is spelled by its lexeme and is no keyword. A number is
spelled by digits, with a point only before a digit and only once; so a point and a name behind it are
tokens of their own. -/
theorem munch {calls : Nat} (h : ((ofText text).skip calls).next = .lexeme l after) :
    let source := Source.ofText text
    IsToken (source.slice l.span) l.token ∧
      (∀ stop token, l.stop < stop → source.isBoundary stop = true →
        ¬ IsToken (source.slice ⟨l.start.offset, stop⟩) token) ∧
      (∀ name, l.token = .identifier name →
        source.slice l.span = name ∧ name ∉ ["var", "return", "true", "false", "null"]) ∧
      ∀ value, l.token = .number value →
        let behind := (source.slice ⟨l.stop, source.size⟩).toList
        IsNumeral (source.slice l.span).toList behind value ∧
          ∀ name rest, behind = '.' :: (name.toList ++ rest) → isName name = true →
            rest.head?.any Text.continuesName = false → ∃ dot next member last, after.next = .lexeme dot next ∧
              dot.token = .punct .dot ∧ next.next = .lexeme member last ∧ member.token = .identifier name := by
  intro source
  obtain ⟨consumed, hover⟩ := (over_ofText text).skip calls
  obtain ⟨before, chars, htext, hstart, hstop, hread⟩ := hover.reads h
  have hslice : (source.slice l.span).toList = chars := by
    rw [Lexeme.span, hstart, hstop]
    exact toList_slice htext
  have hbehind : (source.slice ⟨l.stop, source.size⟩).toList = after.rest := by
    rw [hstop]
    exact toList_slice_size (by rw [htext, List.append_assoc])
  refine ⟨?_, ?_, ?_, ?_⟩
  · rw [isToken_iff, hslice]
    exact hread.alone
  · intro stop token hlong hboundary hone
    obtain ⟨upTo, rest, hsplit, rfl⟩ := exists_of_isBoundaryOf hboundary
    have hsame : (before ++ chars) ++ after.rest = upTo ++ rest := by
      rw [List.append_assoc, ← htext]
      exact hsplit
    rw [hstop] at hlong
    obtain ⟨more, rfl, hrest⟩ := split_of_byteLength_le hsame (Nat.le_of_lt hlong)
    have hlonger : (source.slice ⟨l.start.offset, byteLength (before ++ chars ++ more)⟩).toList = chars ++ more := by
      rw [hstart, List.append_assoc]
      exact toList_slice (by rw [htext, hrest, List.append_assoc])
    rw [isToken_iff, hlonger] at hone
    have hmore := hread.longest (hrest ▸ List.prefix_append more rest) hone
    rw [hmore, List.append_nil] at hlong
    exact absurd hlong (Nat.lt_irrefl _)
  · intro name hname
    rw [hname] at hread
    obtain ⟨hisName, hchars, -⟩ := readsAs_identifier_iff.1 hread
    exact ⟨String.toList_inj.1 (hslice.trans hchars), not_keyword_of_isName hisName⟩
  · intro value hvalue
    rw [hslice, hbehind]
    rw [hvalue] at hread
    exact ⟨hread.isNumeral, fun name rest => next_member⟩

/-- Behind a fault, a number takes its first point and leaves the second one to the name behind it. -/
theorem munch_number : IsToken "1.5" (.number (.ofNumeral ['1'] ['5'])) ∧ (∀ token, ¬ IsToken "1.5." token) ∧
    ∃ dot next member last, Cursor.next ⟨['.', 'F'], ⟨5, 1, 6⟩⟩ = .lexeme dot next ∧ dot.token = .punct .dot ∧
      next.next = .lexeme member last ∧ member.token = .identifier "F" := by
  have hread : ((ofText "x#1.5.F").skip 2).next =
      .lexeme ⟨.number (.ofNumeral ['1'] ['5']), ⟨2, 1, 3⟩, 5⟩ ⟨['.', 'F'], ⟨5, 1, 6⟩⟩ := by rfl
  obtain ⟨hone, hlonger, -, hnumber⟩ := munch hread
  exact ⟨hone, fun token => hlonger 6 token (by decide) (by decide),
    (hnumber _ rfl).2 "F" [] rfl (by decide +kernel) rfl⟩

example : (LetLint.tokenize "1.Let").map (fun tokens => tokens.lexemes.map (·.token)) =
    .ok [.number (.ofNumeral ['1'] []), .punct .dot, .identifier "Let"] := by decide +kernel

end Cursor

end LetLint
