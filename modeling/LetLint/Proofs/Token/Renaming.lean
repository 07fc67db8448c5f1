/-
Texts whose identifiers are renamed. A name may stand wherever another name stands: no token before it
tells the two apart, and it ends where the other ended. So, with some of its identifiers replaced by a
name, a text has the tokens that it had, but for these; the blanks, the comments and the spelling of all
other tokens stay.
-/
import LetLint.Proofs.Grammar.First
import LetLint.Proofs.Token.Spelling

namespace LetLint

/-! ## Names -/

/-- The text is a name: it starts as one, goes on as one, and is no keyword. -/
def isName (word : String) : Bool :=
  match word.toList with
  | [] => false
  | c :: cs => Text.startsName c && cs.all Text.continuesName && (Keyword.ofSpelling? word).isNone

theorem isName_iff {word : String} : isName word = true ↔ ∃ c cs, word.toList = c :: cs ∧
    Text.startsName c = true ∧ (∀ d ∈ cs, Text.continuesName d = true) ∧ Keyword.ofSpelling? word = none := by
  unfold isName
  split
  · rename_i hnil
    simp [hnil]
  · rename_i c cs hcons
    simp [hcons, and_assoc]

theorem toList_ne_nil_of_isName {word : String} (h : isName word = true) : word.toList ≠ [] := by
  obtain ⟨c, cs, hlist, -⟩ := isName_iff.1 h
  simp [hlist]

/-- There is no blank in a name. -/
theorem isBlank_of_isName {word : String} (h : isName word = true) {c : Char} (hc : c ∈ word.toList) :
    Text.isBlank c = false := by
  obtain ⟨d, cs, hlist, hstart, hcs, -⟩ := isName_iff.1 h
  rw [hlist, List.mem_cons] at hc
  rcases hc with rfl | hc
  · exact Text.isBlank_of_startsName hstart
  · exact Text.isBlank_of_continuesName (hcs c hc)

/-- No other token starts like a name. -/
theorem scanToken_of_startsName {c : Char} (hc : Text.startsName c = true) (cs : List Char) :
    scanToken c cs = scanWord c cs := by
  have hquote : c ≠ '"' := by
    rintro rfl
    exact absurd hc (by decide +kernel)
  unfold scanToken
  rw [if_neg hquote, if_neg (by rw [Text.isDigit_of_startsName hc]; decide), if_pos hc]

section

variable {c : Char} {chars cs rest : List Char} {name : String}

/-- Only a word is an identifier. -/
theorem startsName_of_scanToken {taken : Nat} (h : scanToken c cs = ⟨.ok (.identifier name), taken⟩) :
    Text.startsName c = true := by
  rcases scanToken_cases h with ⟨-, _, ⟨⟩⟩ | ⟨-, _, ⟨⟩⟩ | ⟨hc, -⟩ | ⟨_, ⟨⟩⟩
  exact hc

/-- An identifier is read where its name stands and does not go on. -/
theorem readsAs_identifier_iff : ReadsAs chars rest (.identifier name) ↔
    isName name = true ∧ chars = name.toList ∧ rest.head?.any Text.continuesName = false := by
  constructor
  · rintro ⟨-, c, cs, rfl, hscan⟩
    have hc := startsName_of_scanToken hscan
    rw [scanToken_of_startsName hc] at hscan
    obtain ⟨hcs, hrest⟩ := run_of_length (Nat.succ.inj (congrArg Scan.taken hscan))
    unfold scanWord at hscan
    rw [takeWhile_run hcs hrest] at hscan
    have hword : wordToken (String.ofList (c :: cs)) = .identifier name := Except.ok.inj (congrArg Scan.outcome hscan)
    unfold wordToken at hword
    split at hword
    · cases hword
    · rename_i hkeyword
      cases hword
      have hlist : (String.ofList (c :: cs)).toList = c :: cs := String.toList_ofList
      exact ⟨isName_iff.2 ⟨c, cs, hlist, hc, hcs, hkeyword⟩, hlist.symm, hrest⟩
  · rintro ⟨hname, rfl, hrest⟩
    obtain ⟨c, cs, hlist, hc, hcs, hkeyword⟩ := isName_iff.1 hname
    have hslash : c ≠ '/' := by
      rintro rfl
      exact absurd hc (by decide +kernel)
    rw [hlist]
    refine ⟨⟨c, cs ++ rest, rfl, Text.isBlank_of_startsName hc, fun h => hslash h.1⟩, c, cs, rfl, ?_⟩
    rw [scanToken_of_startsName hc, scanWord, takeWhile_run hcs hrest, wordToken, ← hlist, String.ofList_toList,
      hkeyword, hlist]
    rfl

end

/-! ## Pieces -/

/-- The token with its name changed, if it is one. -/
def Token.rename (g : String → String) : Token → Token
  | .identifier name => .identifier (g name)
  | token => token

/-- The piece with its name changed, if it is one, by a function of where it stands. -/
def Piece.rename (g : Span → String → String) (p : Piece) (l : Lexeme) : Piece :=
  match p.token with
  | .identifier name => ⟨p.gap, (g l.span name).toList, .identifier (g l.span name)⟩
  | _ => p

/-- The pieces from a place on, with their names changed. -/
def renamePieces (g : Span → String → String) (mark : Mark) (ps : List Piece) : List Piece :=
  ps.zipWith (Piece.rename g) (lexemesFrom mark ps)

theorem Piece.token_rename (g : Span → String → String) (p : Piece) (l : Lexeme) :
    (p.rename g l).token = p.token.rename (g l.span) := by
  unfold rename Token.rename
  split <;> simp_all

theorem Piece.gap_rename (g : Span → String → String) (p : Piece) (l : Lexeme) : (p.rename g l).gap = p.gap := by
  unfold rename
  split <;> rfl

theorem Piece.rename_of_identifier {g : Span → String → String} {p : Piece} {name : String}
    (h : p.token = .identifier name) (l : Lexeme) :
    p.rename g l = ⟨p.gap, (g l.span name).toList, .identifier (g l.span name)⟩ := by
  unfold rename
  rw [h]

theorem Piece.rename_of_ne {g : Span → String → String} {p : Piece} (h : ∀ name, p.token ≠ .identifier name)
    (l : Lexeme) : p.rename g l = p := by
  unfold rename
  split
  · rename_i name hname
    exact absurd hname (h name)
  · rfl

theorem LooksAlike.refl (rest : List Char) : LooksAlike rest rest := ⟨rfl, fun _ => rfl⟩

theorem LooksAlike.append {rest rest' : List Char} (h : LooksAlike rest rest') (chars : List Char) :
    LooksAlike (chars ++ rest) (chars ++ rest') := by
  rcases chars with _ | ⟨c, _ | ⟨d, chars⟩⟩
  · exact h
  · exact ⟨rfl, fun _ => h.first⟩
  · exact ⟨rfl, fun _ => rfl⟩

/-- All names look alike. -/
theorem LooksAlike.of_names {word word' : String} (h : isName word = true) (h' : isName word' = true)
    (rest rest' : List Char) : LooksAlike (word.toList ++ rest) (word'.toList ++ rest') := by
  obtain ⟨c, cs, hlist, hc, -⟩ := isName_iff.1 h
  obtain ⟨d, ds, hlist', hd, -⟩ := isName_iff.1 h'
  have hface : ∀ c, Text.startsName c = true → face (some c) = '_' := fun c hc => if_pos hc
  rw [hlist, hlist']
  constructor
  · exact (hface c hc).trans (hface d hd).symm
  · intro hpoint
    exact absurd ((hface c hc).symm.trans hpoint) (by decide)

section

variable {g : Span → String → String} {ps : List Piece} {tail : List Char}

/-- Pieces whose names are changed to names spell a text, and it looks alike. -/
theorem Spelled.rename (hg : ∀ span name, isName name = true → isName (g span name) = true) (h : Spelled ps tail)
    (mark : Mark) : Spelled (renamePieces g mark ps) tail ∧
      LooksAlike (spell ps tail) (spell (renamePieces g mark ps) tail) := by
  induction ps generalizing mark with
  | nil => exact ⟨h, .refl _⟩
  | cons p ps ih =>
    obtain ⟨hgap, hread, hps⟩ := h
    let start := mark.advance p.gap
    let l : Lexeme := ⟨p.token, start, (start.advance p.chars).offset⟩
    obtain ⟨hrest, halike⟩ := ih hps (start.advance p.chars)
    have hcons : renamePieces g mark (p :: ps) = p.rename g l :: renamePieces g (start.advance p.chars) ps := rfl
    rw [hcons]
    by_cases hname : ∃ name, p.token = .identifier name
    · obtain ⟨name, hname⟩ := hname
      rw [Piece.rename_of_identifier hname]
      rw [hname] at hread
      obtain ⟨hisName, hchars, hends⟩ := readsAs_identifier_iff.1 hread
      have hends' : (spell (renamePieces g (start.advance p.chars) ps) tail).head?.any Text.continuesName = false := by
        rwa [any_continues_eq, ← halike.first, ← any_continues_eq]
      have hnew := hg l.span name hisName
      refine ⟨⟨hgap, readsAs_identifier_iff.2 ⟨hnew, rfl, hends'⟩, hrest⟩, ?_⟩
      rw [spell, spell, hchars]
      exact (LooksAlike.of_names hisName hnew _ _).append p.gap
    · rw [Piece.rename_of_ne (not_exists.1 hname)]
      exact ⟨⟨hgap, hread.alike halike, hrest⟩, (halike.append p.chars).append p.gap⟩

theorem map_token_lexemesFrom (mark : Mark) (ps : List Piece) :
    (lexemesFrom mark ps).map (·.token) = ps.map (·.token) := by
  induction ps generalizing mark with
  | nil => rfl
  | cons p ps ih => exact congrArg (p.token :: ·) (ih _)

theorem map_token_renamePieces (mark : Mark) (ps : List Piece) : (renamePieces g mark ps).map (·.token) =
    (lexemesFrom mark ps).map fun l => l.token.rename (g l.span) := by
  induction ps generalizing mark with
  | nil => rfl
  | cons p ps ih => exact congrArg₂ List.cons (Piece.token_rename g p _) (ih _)

end

/-! ## Texts -/

/-- The text from an offset on, with some spans of it replaced by a word. -/
def Source.replaceFrom (source : Source) (word : String) : Nat → List Span → String
  | offset, [] => source.slice ⟨offset, source.size⟩
  | offset, span :: spans => source.slice ⟨offset, span.start⟩ ++ word ++ source.replaceFrom word span.stop spans

/-- The text with some spans of it replaced by a word. The spans are in order and share no bytes. -/
def Source.replace (source : Source) (word : String) (spans : List Span) : String := source.replaceFrom word 0 spans

theorem toList_slice {text : String} {before between after : List Char}
    (h : text.toList = before ++ (between ++ after)) :
    ((Source.ofText text).slice ⟨byteLength before, byteLength (before ++ between)⟩).toList = between := by
  show (String.ofList (takeBytes _ (dropBytes _ text.toList))).toList = _
  rw [String.toList_ofList, h, dropBytes_byteLength, byteLength_append, Nat.add_sub_cancel_left, takeBytes_byteLength]

/-- What is cut out up to the end is the rest of the text. -/
theorem toList_slice_size {text : String} {before behind : List Char} (h : text.toList = before ++ behind) :
    ((Source.ofText text).slice ⟨byteLength before, (Source.ofText text).size⟩).toList = behind := by
  have hsplit : text.toList = before ++ (behind ++ []) := by rw [List.append_nil, h]
  have hsize : (Source.ofText text).size = byteLength (before ++ behind) := congrArg byteLength h
  rw [hsize, toList_slice hsplit]

section

variable {text : String} {word : String} {chosen : Span → Bool}

/-- The lexeme is an identifier that is to be replaced. -/
def Lexeme.isChosen (chosen : Span → Bool) (l : Lexeme) : Bool := l.token.isIdentifier && chosen l.span

/-- What is not to be replaced keeps its characters. -/
theorem chars_of_not_chosen {p : Piece} {l : Lexeme} {rest : List Char} (hread : ReadsAs p.chars rest p.token)
    (htoken : l.token = p.token) (hl : ¬ l.isChosen chosen = true) :
    (p.rename (fun span name => if chosen span then word else name) l).chars = p.chars := by
  by_cases hname : ∃ name, p.token = .identifier name
  · obtain ⟨name, hname⟩ := hname
    have hkept : ¬ chosen l.span = true := by
      intro hchosen
      refine hl ?_
      rw [Lexeme.isChosen, htoken, hname, hchosen]
      rfl
    rw [hname] at hread
    rw [Piece.rename_of_identifier hname, if_neg hkept]
    exact (readsAs_identifier_iff.1 hread).2.1.symm
  · rw [Piece.rename_of_ne (not_exists.1 hname)]

/-- Identifiers are replaced by the text with its pieces renamed. What was passed by and not yet copied is
pending. -/
theorem toList_replaceFrom (word : String) (chosen : Span → Bool) {ps : List Piece} {tail : List Char}
    (h : Spelled ps tail) :
    ∀ {before pending : List Char} {mark : Mark}, text.toList = before ++ (pending ++ spell ps tail) →
      mark.offset = byteLength (before ++ pending) →
      ((Source.ofText text).replaceFrom word (byteLength before)
          (((lexemesFrom mark ps).filter (·.isChosen chosen)).map Lexeme.span)).toList =
        pending ++ spell (renamePieces (fun span name => if chosen span then word else name) mark ps) tail := by
  induction ps with
  | nil =>
    intro before pending mark htext _
    have hall : byteLength (before ++ (pending ++ tail)) = (Source.ofText text).size := congrArg byteLength htext.symm
    have hsplit : text.toList = before ++ ((pending ++ tail) ++ []) := by
      rw [List.append_nil]
      exact htext
    show ((Source.ofText text).slice ⟨byteLength before, (Source.ofText text).size⟩).toList = _
    rw [← hall]
    exact toList_slice hsplit
  | cons p ps ih =>
    intro before pending mark htext hmark
    obtain ⟨hgap, hread, hps⟩ := h
    let start := mark.advance p.gap
    let l : Lexeme := ⟨p.token, start, (start.advance p.chars).offset⟩
    have hstart : start.offset = byteLength (before ++ (pending ++ p.gap)) := by
      rw [Mark.offset_advance, hmark, ← byteLength_append, List.append_assoc]
    have hstop : l.stop = byteLength (before ++ (pending ++ p.gap) ++ p.chars) := by
      rw [byteLength_append, ← hstart]
      exact Mark.offset_advance ..
    have hlexemes : lexemesFrom mark (p :: ps) = l :: lexemesFrom (start.advance p.chars) ps := rfl
    have hcons : renamePieces (fun span name => if chosen span then word else name) mark (p :: ps) =
        p.rename _ l :: renamePieces _ (start.advance p.chars) ps := rfl
    rw [hlexemes, hcons]
    by_cases hl : l.isChosen chosen = true
    · obtain ⟨hidentifier, hchosen⟩ := Bool.and_eq_true_iff.1 hl
      obtain ⟨name, hname⟩ := Token.isIdentifier_iff.1 hidentifier
      have hsplit : text.toList = before ++ ((pending ++ p.gap) ++ (p.chars ++ spell ps tail)) := by
        rw [htext, spell]
        simp only [List.append_assoc]
      have hbehind : text.toList = (before ++ (pending ++ p.gap) ++ p.chars) ++ ([] ++ spell ps tail) := by
        rw [hsplit]
        simp only [List.append_assoc, List.nil_append]
      have hnext := ih hps hbehind (by rw [List.append_nil]; exact hstop)
      rw [← hstop] at hnext
      rw [List.filter_cons_of_pos hl, List.map_cons, Source.replaceFrom, String.toList_append, String.toList_append,
        show l.span.start = start.offset from rfl, show l.span.stop = l.stop from rfl, hnext, hstart,
        toList_slice hsplit, Piece.rename_of_identifier hname, if_pos hchosen, spell]
      simp only [List.append_assoc, List.nil_append]
    · have hbehind : text.toList = before ++ ((pending ++ (p.gap ++ p.chars)) ++ spell ps tail) := by
        rw [htext, spell]
        simp only [List.append_assoc]
      have hmark' : (start.advance p.chars).offset = byteLength (before ++ (pending ++ (p.gap ++ p.chars))) := by
        rw [show (start.advance p.chars).offset = l.stop from rfl, hstop]
        simp only [List.append_assoc]
      rw [List.filter_cons_of_neg hl, ih hps hbehind hmark', spell,
        show (p.rename _ l).gap = p.gap from Piece.gap_rename _ p l, chars_of_not_chosen hread rfl hl]
      simp only [List.append_assoc]

/-- With some identifiers replaced by a name, a text has its tokens, but for these. -/
theorem tokenize_replace {tokens : Tokens} (h : tokenize text = .ok tokens) (hword : isName word = true)
    (chosen : Span → Bool) :
    ∃ tokens', tokenize ((Source.ofText text).replace word
        ((tokens.lexemes.filter (·.isChosen chosen)).map Lexeme.span)) = .ok tokens' ∧
      tokens'.lexemes.map (·.token) =
        tokens.lexemes.map fun l => l.token.rename fun name => if chosen l.span then word else name := by
  obtain ⟨ps, tail, htext, hps, rfl⟩ := tokenize_eq_ok_iff.1 h
  have hg : ∀ span name, isName name = true → isName (if chosen span then word else name) = true := by
    intro span name hname
    split
    · exact hword
    · exact hname
  have hstart : text.toList = [] ++ ([] ++ spell ps tail) := htext
  have hreplaced := toList_replaceFrom word chosen hps hstart (show Mark.origin.offset = byteLength ([] ++ []) from rfl)
  have hread := tokenize_eq_ok_iff.2 ⟨_, tail, hreplaced, (hps.rename hg .origin).1, rfl⟩
  refine ⟨_, hread, ?_⟩
  rw [map_token_lexemesFrom, map_token_renamePieces]

end

end LetLint
