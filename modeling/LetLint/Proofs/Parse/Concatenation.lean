/-
Two texts that are read, with a line feed between them. The line feed ends a comment that the first
text may have left open, and no token of the first text looks beyond it; so the tokens are those of
the first text, where they are, and then those of the second, each further on by the same number of
bytes. An item never depends on what stands behind it, and tokens that are further on are read as
trees that are further on. So the items and the methods are those of the first text and then those of
the second, shifted.
-/
import LetLint.Proofs.Model.Scoping
import LetLint.Proofs.Parse.Changed
import LetLint.Proofs.Parse.Completeness

namespace LetLint

/-! ## Spellings -/

section

variable {ps qs : List Piece} {tail more gap : List Char} {mark mark' : Mark}

theorem spell_append (ps qs : List Piece) (tail : List Char) : spell (ps ++ qs) tail = spell ps (spell qs tail) := by
  induction ps with
  | nil => rfl
  | cons p ps ih => rw [List.cons_append, spell, spell, ih]

theorem spell_tail (ps : List Piece) (tail more : List Char) : spell ps (tail ++ more) = spell ps tail ++ more := by
  induction ps with
  | nil => rfl
  | cons p ps ih => rw [spell, spell, ih, List.append_assoc, List.append_assoc]

theorem lexemesFrom_append (mark : Mark) (ps qs : List Piece) :
    lexemesFrom mark (ps ++ qs) = lexemesFrom mark ps ++ lexemesFrom (mark.advance (spell ps [])) qs := by
  induction ps generalizing mark with
  | nil => rfl
  | cons p ps ih =>
    rw [List.cons_append, lexemesFrom, ih, lexemesFrom, spell, Mark.advance_append, Mark.advance_append]
    rfl

theorem Spelled.filler (h : Spelled ps tail) : Filler true tail := by
  induction ps with
  | nil => exact h
  | cons p ps ih => exact ih h.2.2

/-- What is spelled can stand behind filler and a line feed. -/
theorem Spelled.exists_behind (hgap : Filler true gap) (h : Spelled qs tail) :
    ∃ qs' tail', spell qs' tail' = gap ++ '\n' :: spell qs tail ∧ Spelled qs' tail' ∧
      ∀ mark, lexemesFrom mark qs' = lexemesFrom (mark.advance (gap ++ ['\n'])) qs := by
  cases qs with
  | nil => exact ⟨[], gap ++ '\n' :: tail, rfl, hgap.append_line h, fun _ => rfl⟩
  | cons q qs =>
    obtain ⟨hq, hread, hqs⟩ := h
    refine ⟨⟨gap ++ '\n' :: q.gap, q.chars, q.token⟩ :: qs, tail, ?_, ⟨hgap.append_line hq, hread, hqs⟩, fun mark => ?_⟩
    · simp [spell]
    · have hstart : mark.advance (gap ++ '\n' :: q.gap) = (mark.advance (gap ++ ['\n'])).advance q.gap := by
        rw [← Mark.advance_append, List.append_assoc, List.singleton_append]
      rw [lexemesFrom, hstart, lexemesFrom]

/-- No token of what is spelled looks beyond a line feed behind it. -/
theorem Spelled.append (h : Spelled ps tail) {tail' : List Char} (hspell : spell qs tail' = tail ++ '\n' :: more)
    (h' : Spelled qs tail') : Spelled (ps ++ qs) tail' := by
  induction ps with
  | nil => exact h'
  | cons p ps ih =>
    obtain ⟨hgap, hread, hps⟩ := h
    have halike : LooksAlike (spell ps tail) (spell (ps ++ qs) tail') := by
      rw [spell_append, hspell, spell_tail]
      exact .append_line _ more
    exact ⟨hgap, hread.alike halike, ih hps⟩

end

/-! ## Tokens -/

/-- Pieces that stand further on spell the same tokens, further on. -/
theorem lexemesFrom_changedBy {bytes : Nat} {mark mark' : Mark} (h : mark'.offset = mark.offset + bytes)
    (ps : List Piece) : List.Forall₂ (Lexeme.ChangedBy bytes fun _ name => name) (lexemesFrom mark ps)
      (lexemesFrom mark' ps) := by
  induction ps generalizing mark mark' with
  | nil => exact .nil
  | cons p ps ih =>
    have hstep {mark mark' : Mark} (h : mark'.offset = mark.offset + bytes) (cs : List Char) :
        (mark'.advance cs).offset = (mark.advance cs).offset + bytes := by
      rw [Mark.offset_advance, Mark.offset_advance, h]
      omega
    have hstart := hstep h p.gap
    have hafter := hstep hstart p.chars
    exact .cons ⟨hstart, hafter, (Token.rename_self p.token).symm⟩ (ih hafter)

section

variable {first second : String} {tokens tokens' : Tokens}

theorem size_append_line (first second : String) :
    (Source.ofText (first ++ "\n" ++ second)).size =
      (Source.ofText second).size + ((Source.ofText first).size + 1) := by
  show byteLength (first ++ "\n" ++ second).toList = byteLength second.toList + (byteLength first.toList + 1)
  rw [String.toList_append, String.toList_append, byteLength_append, byteLength_append]
  exact Nat.add_comm _ _

/-- The tokens of two texts with a line feed between them. -/
theorem tokenize_append_line (h : tokenize first = .ok tokens) (h' : tokenize second = .ok tokens') :
    ∃ ls finish, tokenize (first ++ "\n" ++ second) = .ok ⟨tokens.lexemes ++ ls, finish⟩ ∧
      List.Forall₂ (Lexeme.ChangedBy ((Source.ofText first).size + 1) fun _ name => name) tokens'.lexemes ls ∧
      finish.offset = tokens'.finish.offset + ((Source.ofText first).size + 1) := by
  obtain ⟨ps, tail, hfirst, hps, rfl⟩ := tokenize_eq_ok_iff.1 h
  obtain ⟨qs, tail', hsecond, hqs, rfl⟩ := tokenize_eq_ok_iff.1 h'
  obtain ⟨qs', tail'', hspell, hqs', hlexemes⟩ := hqs.exists_behind hps.filler
  have htext : (first ++ "\n" ++ second).toList = spell (ps ++ qs') tail'' := by
    rw [spell_append, hspell, spell_tail, ← hfirst, ← hsecond]
    simp
  have hread := tokenize_eq_ok_iff.2 ⟨ps ++ qs', tail'', htext, hps.append hspell hqs', rfl⟩
  have hfinish := finish_of_tokenize hread
  rw [lexemesFrom_append, hlexemes] at hread
  refine ⟨_, _, hread, lexemesFrom_changedBy ?_ qs, ?_⟩
  · -- the first text and the line feed stand before the second
    rw [← Mark.advance_append, ← List.append_assoc, ← spell_tail, List.nil_append, ← hfirst, Mark.offset_advance,
      byteLength_append]
    rfl
  · rw [hfinish, size_append_line, finish_of_tokenize h']

end

/-! ## Items and methods -/

/-- What is read without a fault is read the same before more that is read without a fault. -/
theorem items_append {tokens : Tokens} {s : TokenStream} (finish : Mark)
    (hfirst : (Parse.items nestingCap (.ofTokens tokens)).faults = [])
    (hsecond : (Parse.items nestingCap s).faults = []) :
    (Parse.items nestingCap (.ofTokens ⟨tokens.lexemes ++ s.ahead, finish⟩)).nodes =
        (Parse.items nestingCap (.ofTokens tokens)).nodes ++ (Parse.items nestingCap s).nodes ∧
      (Parse.items nestingCap (.ofTokens ⟨tokens.lexemes ++ s.ahead, finish⟩)).faults = [] := by
  obtain ⟨items, hahead, hnodes, hreadable⟩ := Parse.itemsFor_eq_readable (Nat.le_refl _) hfirst
  obtain ⟨items', hahead', hnodes', hreadable'⟩ := Parse.itemsFor_eq_readable (Nat.le_refl _) hsecond
  have hall : tokens.lexemes ++ s.ahead = (items ++ items').flatMap (·.lexemes) := by
    rw [List.flatMap_append, ← hahead, ← hahead']
    rfl
  have hrun := Parse.itemsFor_readable (items ++ items') _ (.ofTokens ⟨tokens.lexemes ++ s.ahead, finish⟩) hall
    (Nat.le_refl _) (List.forall_mem_append.2 ⟨hreadable, hreadable'⟩)
  rw [List.map_append, ← hnodes, ← hnodes'] at hrun
  exact hrun

/-- The methods of two trees, as those of one tree with the items of both. -/
theorem overloads_append {fileName fileName' fileName'' text text' text'' : String} {doc doc' doc'' : Document}
    {f : Span → Span} (h : parse fileName text = .ok doc) (h' : parse fileName' text' = .ok doc')
    (h'' : parse fileName'' text'' = .ok doc'')
    (hitems : doc''.tree.children = doc.tree.children ++ doc'.tree.children.map (Tree.mapSpan f)) (name : String) :
    (MethodTable.ofTree doc''.tree).overloads name = (MethodTable.ofTree doc.tree).overloads name ++
      ((MethodTable.ofTree doc'.tree).overloads name).map (Method.mapSpan f) := by
  have hmethods : (doc'.tree.children.map (Tree.mapSpan f)).filterMap Method.ofTree? =
      (doc'.tree.children.filterMap Method.ofTree?).map (Method.mapSpan f) := by
    rw [List.filterMap_map, List.map_filterMap]
    exact List.filterMap_congr fun t _ => Method.ofTree?_mapSpan f t
  rw [Lexical.methodTable_of_parse h, Lexical.methodTable_of_parse h', Lexical.methodTable_of_parse h'']
  simp only [MethodTable.overloads, Lexical.methodsOf, hitems, List.filterMap_append, List.filter_append, hmethods,
    List.filter_map]
  rfl

/-- Two texts that are read, with a line feed between them, are read as the items of the first, unchanged, and
then those of the second, further on by the first text and the line feed. The methods of every name are those of
the first text and then those of the second, moved likewise. -/
theorem parse_append_line {firstName secondName first second : String} {doc doc' : Document}
    (h : parse firstName first = .ok doc) (h' : parse secondName second = .ok doc') (fileName : String) :
    ∃ both, parse fileName (first ++ "\n" ++ second) = .ok both ∧
      both.tree.children =
        doc.tree.children ++ doc'.tree.children.map (Tree.mapSpan (.shift ((Source.ofText first).size + 1))) ∧
      ∀ name, (MethodTable.ofTree both.tree).overloads name = (MethodTable.ofTree doc.tree).overloads name ++
        ((MethodTable.ofTree doc'.tree).overloads name).map
          (Method.mapSpan (.shift ((Source.ofText first).size + 1))) := by
  obtain ⟨tokens, htokens, hnone, rfl⟩ := parse_eq_ok_iff.1 h
  obtain ⟨tokens', htokens', hnone', rfl⟩ := parse_eq_ok_iff.1 h'
  obtain ⟨ls, finish, hboth, hls, hfinish⟩ := tokenize_append_line htokens htokens'
  -- the second text is read first by itself, further on
  let further : TokenStream := ⟨ls, finish, (Source.ofText first).size + 1⟩
  have hchanged : Changed ((Source.ofText first).size + 1) (fun _ name => name) [] (.ofTokens tokens') further :=
    ⟨hls, hfinish, (Nat.zero_add _).symm, by simp⟩
  obtain ⟨hfaults, hnodes⟩ := items_changed hchanged hnone'
  rw [List.map_congr_left fun t _ => Tree.change_self _ t] at hnodes
  obtain ⟨hall, hnoFault⟩ := items_append finish hnone hfaults
  have hread : parse fileName (first ++ "\n" ++ second) = .ok _ := parse_eq_ok_iff.2 ⟨_, hboth, hnoFault, rfl⟩
  have hitems := hall.trans (congrArg (_ ++ ·) hnodes)
  exact ⟨_, hread, hitems, overloads_append h h' hread hitems⟩

theorem parse_append_line_comment : ∃ doc doc' both,
    parse "a.cs" "T F(); // é" = .ok doc ∧ parse "b.cs" "F(0);X F(T y);" = .ok doc' ∧
      parse "c.cs" "T F(); // é\nF(0);X F(T y);" = .ok both ∧
      both.tree.children = doc.tree.children ++ doc'.tree.children.map (Tree.mapSpan (.shift 13)) ∧
      ∀ name, (MethodTable.ofTree both.tree).overloads name = (MethodTable.ofTree doc.tree).overloads name ++
        ((MethodTable.ofTree doc'.tree).overloads name).map (Method.mapSpan (.shift 13)) := by
  have hfirst : (parse "a.cs" "T F(); // é").toOption.isSome = true := by decide +kernel
  have hsecond : (parse "b.cs" "F(0);X F(T y);").toOption.isSome = true := by decide +kernel
  obtain ⟨doc, hdoc⟩ := Option.isSome_iff_exists.1 hfirst
  obtain ⟨doc', hdoc'⟩ := Option.isSome_iff_exists.1 hsecond
  have h := parse_of_toOption hdoc
  have h' := parse_of_toOption hdoc'
  obtain ⟨both, hboth, hitems, hmethods⟩ := parse_append_line h h' "c.cs"
  have hsize : (Source.ofText "T F(); // é").size + 1 = 13 := by decide +kernel
  rw [hsize] at hitems hmethods
  exact ⟨doc, doc', both, h, h', hboth, hitems, hmethods⟩

end LetLint
