/-
String literals. What stands between the quotes of a literal is its value with backslashes and quotes
escaped, and line feeds, tabs and carriage returns escaped or not; every such writing is read back, and no
other is read. The closing quote is the first one that is not escaped, that is, the first one with an even
number of backslashes right before it. A literal is refused exactly if something that is no escape stands
before that quote, or if there is no such quote.
-/
import LetLint.Proofs.Token.Munch

namespace LetLint

/-! ## Backslashes -/

/-- The characters end in an odd number of backslashes, the last of which escapes what comes behind. -/
def Escapes (before : List Char) : Prop := (before.reverse.takeWhile (· == '\\')).length % 2 = 1

instance (before : List Char) : Decidable (Escapes before) := inferInstanceAs (Decidable (_ = _))

theorem escapes_cons_iff {c : Char} (hc : c ≠ '\\') (cs : List Char) : Escapes (c :: cs) ↔ Escapes cs := by
  have hstop : [c].takeWhile (· == '\\') = [] := List.takeWhile_cons_of_neg (by simpa using hc)
  unfold Escapes
  rw [List.reverse_cons, List.takeWhile_append, hstop]
  split_ifs with hall
  · rw [List.append_nil, hall]
  · rfl

/-- A backslash and what it escapes do not matter further on. -/
theorem escapes_pair_iff (e : Char) (cs : List Char) : Escapes ('\\' :: e :: cs) ↔ Escapes cs := by
  unfold Escapes
  rw [List.reverse_cons, List.reverse_cons, List.append_assoc, List.takeWhile_append]
  split_ifs with hall
  · rw [List.length_append, ← hall]
    by_cases he : e = '\\'
    · subst he
      exact Eq.congr_left (Nat.add_mod_right _ 2)
    · rw [List.singleton_append, List.takeWhile_cons_of_neg (by simpa using he)]
      rfl
  · rfl

/-- There is no quote among the characters but escaped ones. -/
def Unclosed (cs : List Char) : Prop := ∀ before after, cs = before ++ '"' :: after → Escapes before

/-! ## Writings -/

/-- The letters behind a backslash, and what these escapes stand for. -/
def escapeLetters : List (Char × Char) := [('\\', '\\'), ('"', '"'), ('n', '\n'), ('t', '\t'), ('r', '\r')]

theorem unescape?_eq_some_iff {e d : Char} : unescape? e = some d ↔ (e, d) ∈ escapeLetters := by
  unfold unescape? escapeLetters
  split <;> simp_all [eq_comm]

theorem unescape?_eq_none_iff {e : Char} : unescape? e = none ↔ ∀ d, (e, d) ∉ escapeLetters := by
  rw [Option.eq_none_iff_forall_ne_some]
  exact forall_congr' fun d => not_congr unescape?_eq_some_iff

/-- The first characters are a writing of the second ones between quotes: backslashes and quotes are
escaped, and line feeds, tabs and carriage returns may be. -/
inductive Writes : List Char → List Char → Prop
  | nil : Writes [] []
  | raw {c : Char} {written value : List Char} (hquote : c ≠ '"') (hslash : c ≠ '\\') (h : Writes written value) :
      Writes (c :: written) (c :: value)
  | escape {e d : Char} {written value : List Char} (hd : (e, d) ∈ escapeLetters) (h : Writes written value) :
      Writes ('\\' :: e :: written) (d :: value)

namespace Writes

variable {written value : List Char}

theorem quoted (h : Writes written value) : Quoted (written ++ ['"']) value := by
  induction h with
  | nil => exact .close
  | raw hquote hslash _ ih => exact .plain hquote hslash ih
  | escape hd _ ih => exact .escape (unescape?_eq_some_iff.2 hd) ih

theorem not_escapes (h : Writes written value) : ¬ Escapes written := by
  induction h with
  | nil => decide
  | raw _ hslash _ ih => rwa [escapes_cons_iff hslash]
  | escape _ _ ih => rwa [escapes_pair_iff]

/-- What is not escaped in a writing is no quote, and if it is a backslash, then the letter of an escape
follows. -/
theorem unescaped (h : Writes written value) : ∀ {before after : List Char} {c : Char}, written = before ++ c :: after →
    ¬ Escapes before → c ≠ '"' ∧ (c = '\\' → ∃ e d more, after = e :: more ∧ (e, d) ∈ escapeLetters) := by
  induction h with
  | nil => intro before after c heq; simp at heq
  | @raw c' written value hquote hslash _ ih =>
    intro before after c heq hfree
    obtain ⟨rfl, hcons⟩ | ⟨more, rfl, hmore⟩ := List.cons_eq_append_iff.1 heq
    · cases hcons
      exact ⟨hquote, fun hc => absurd hc hslash⟩
    · exact ih hmore ((escapes_cons_iff hslash more).not.1 hfree)
  | @escape e d written value hd _ ih =>
    intro before after c heq hfree
    obtain ⟨rfl, hcons⟩ | ⟨more, rfl, hmore⟩ := List.cons_eq_append_iff.1 heq
    · cases hcons
      exact ⟨by decide, fun _ => ⟨e, d, written, rfl, hd⟩⟩
    · obtain ⟨rfl, -⟩ | ⟨behind, rfl, hbehind⟩ := List.cons_eq_append_iff.1 hmore
      · exact absurd (by decide) hfree
      · exact ih hbehind ((escapes_pair_iff e behind).not.1 hfree)

theorem unclosed (h : Writes written value) : Unclosed written := by
  intro before after heq
  by_contra hfree
  exact (h.unescaped heq hfree).1 rfl

end Writes

theorem Quoted.exists_writes {cs value : List Char} (h : Quoted cs value) :
    ∃ written, cs = written ++ ['"'] ∧ Writes written value := by
  induction h with
  | close => exact ⟨[], rfl, .nil⟩
  | @escape e _ _ _ hd _ ih =>
    obtain ⟨written, rfl, h⟩ := ih
    exact ⟨'\\' :: e :: written, rfl, .escape (unescape?_eq_some_iff.1 hd) h⟩
  | @plain c _ _ hquote hslash _ ih =>
    obtain ⟨written, rfl, h⟩ := ih
    exact ⟨c :: written, rfl, .raw hquote hslash h⟩

/-! ## Closing quotes and faults -/

/-- A quote that is not escaped, with none before it. -/
structure ClosedBy (cs written rest : List Char) : Prop where
  eq : cs = written ++ '"' :: rest
  unescaped : ¬ Escapes written
  first : Unclosed written

/-- Before any quote that is not escaped, something stands behind a backslash that is no escape. -/
def Malformed (cs : List Char) : Prop :=
  ∃ before e after, cs = before ++ '\\' :: e :: after ∧ Unclosed before ∧ ¬ Escapes before ∧ ∀ d, (e, d) ∉ escapeLetters

theorem Writes.closedBy {written value : List Char} (h : Writes written value) (rest : List Char) :
    ClosedBy (written ++ '"' :: rest) written rest := ⟨rfl, h.not_escapes, h.unclosed⟩

/-- Behind an opening quote stands a writing, and then its closing quote, something that is no escape, or the
end of the text; there a last backslash can be left over. -/
inductive ScansTo (written value : List Char) : List Char → Scan (List Char) → Prop
  | closed (rest : List Char) : ScansTo written value (written ++ '"' :: rest) ⟨.ok value, written.length + 1⟩
  | malformed (e : Char) (rest : List Char) (he : ∀ d, (e, d) ∉ escapeLetters) :
      ScansTo written value (written ++ '\\' :: e :: rest) ⟨.error (.badEscape e), written.length + 2⟩
  | ended : ScansTo written value written ⟨.error .unterminated, written.length⟩
  | slashed : ScansTo written value (written ++ ['\\']) ⟨.error .unterminated, written.length + 1⟩

theorem ScansTo.after {written value cs : List Char} {scan : Scan (List Char)} (h : ScansTo written value cs scan)
    (more : List Char) (d : Char) :
    ScansTo (more ++ written) (d :: value) (more ++ cs) (scan.after more.length (d :: ·)) := by
  have hlength : (more ++ written).length = written.length + more.length := by
    rw [List.length_append, Nat.add_comm]
  unfold Scan.after
  cases h with
  | closed rest =>
    rw [← List.append_assoc, Nat.add_right_comm, ← hlength]
    exact .closed rest
  | malformed e rest he =>
    rw [← List.append_assoc, Nat.add_right_comm, ← hlength]
    exact .malformed e rest he
  | ended =>
    rw [← hlength]
    exact .ended
  | slashed =>
    rw [← List.append_assoc, Nat.add_right_comm, ← hlength]
    exact .slashed

theorem exists_scansTo (cs : List Char) :
    ∃ written value, Writes written value ∧ ScansTo written value cs (scanText cs) := by
  fun_induction scanText cs with
  | case1 => exact ⟨[], [], .nil, .ended⟩
  | case2 cs => exact ⟨[], [], .nil, .closed cs⟩
  | case3 => exact ⟨[], [], .nil, .slashed⟩
  | case4 e rest hnone => exact ⟨[], [], .nil, .malformed e rest (unescape?_eq_none_iff.1 hnone)⟩
  | case5 e rest d hd _ ih =>
    obtain ⟨written, value, hwrites, hscans⟩ := ih
    exact ⟨_, _, .escape (unescape?_eq_some_iff.1 hd) hwrites, hscans.after ['\\', e] d⟩
  | case6 c rest hquote hslash ih =>
    obtain ⟨written, value, hwrites, hscans⟩ := ih
    exact ⟨_, _, .raw hquote hslash hwrites, hscans.after [c] c⟩

theorem Unclosed.append_slash {cs : List Char} (h : Unclosed cs) : Unclosed (cs ++ ['\\']) := by
  intro before after heq
  rcases List.eq_nil_or_concat after with rfl | ⟨more, c, rfl⟩
  · exact absurd (List.append_inj' heq rfl).2 (by decide)
  · rw [List.concat_eq_append, ← List.cons_append, ← List.append_assoc] at heq
    exact h before more (List.append_inj' heq rfl).1

/-- Before its closing quote, a writing is not malformed. -/
theorem Writes.not_malformed {written value : List Char} (h : Writes written value) (rest : List Char) :
    ¬ Malformed (written ++ '"' :: rest) := by
  rintro ⟨before, e, after, heq, hunclosed, hfree, hbad⟩
  rcases List.append_eq_append_iff.1 heq with ⟨more, rfl, hmore⟩ | ⟨more, rfl, hmore⟩
  · -- the closing quote would stand before what is no escape
    obtain ⟨rfl, hcons⟩ | ⟨behind, rfl, -⟩ := List.cons_eq_append_iff.1 hmore
    · cases hcons
    · exact h.not_escapes (hunclosed written behind rfl)
  · obtain ⟨rfl, hcons⟩ | ⟨behind, rfl, hbehind⟩ := List.cons_eq_append_iff.1 hmore
    · cases hcons
    · obtain ⟨-, hletter⟩ := h.unescaped rfl hfree
      obtain ⟨e', d, more, rfl, hd⟩ := hletter rfl
      cases hbehind
      exact hbad d hd

/-- A text is refused exactly if it is malformed or not closed. -/
theorem exists_error_scanText_iff (cs : List Char) :
    (∃ cause, (scanText cs).outcome = .error cause) ↔ Malformed cs ∨ Unclosed cs := by
  obtain ⟨written, value, hwrites, hscans⟩ := exists_scansTo cs
  generalize scanText cs = scan at hscans
  cases hscans with
  | closed rest =>
    refine iff_of_false (fun ⟨_, h⟩ => nomatch h) (not_or.2 ⟨hwrites.not_malformed rest, fun hunclosed => ?_⟩)
    exact hwrites.not_escapes (hunclosed written rest rfl)
  | malformed e rest he =>
    exact iff_of_true ⟨_, rfl⟩ (.inl ⟨written, e, rest, rfl, hwrites.unclosed, hwrites.not_escapes, he⟩)
  | ended => exact iff_of_true ⟨_, rfl⟩ (.inr hwrites.unclosed)
  | slashed => exact iff_of_true ⟨_, rfl⟩ (.inr hwrites.unclosed.append_slash)

/-! ## Tokens -/

section

variable {chars cs rest written value : List Char}

/-- Only a quote starts a string. -/
theorem eq_quote_of_scanToken {c : Char} {value : String} {taken : Nat}
    (h : scanToken c cs = ⟨.ok (.string value), taken⟩) : c = '"' := by
  rcases scanToken_cases h with ⟨hc, -⟩ | ⟨-, _, ⟨⟩⟩ | ⟨-, ⟨_, ⟨⟩⟩ | ⟨_, ⟨⟩⟩⟩ | ⟨_, ⟨⟩⟩
  exact hc

theorem Writes.readsAs (h : Writes written value) (rest : List Char) :
    ReadsAs ('"' :: (written ++ ['"'])) rest (.string (String.ofList value)) := by
  refine ⟨⟨'"', _, rfl, by decide +kernel, fun h => absurd h.1 (by decide)⟩, '"', _, rfl, ?_⟩
  show scanString _ = _
  rw [scanString, h.quoted.scanText_append rest]
  rfl

theorem ReadsAs.exists_writes {value : String} (h : ReadsAs chars rest (.string value)) :
    ∃ written, chars = '"' :: (written ++ ['"']) ∧ Writes written value.toList := by
  obtain ⟨-, c, cs, rfl, hscan⟩ := h
  obtain rfl := eq_quote_of_scanToken hscan
  obtain ⟨text, taken, htext, hvalue, htaken⟩ := Scan.exists_of_after (show scanString (cs ++ rest) = _ from hscan)
  obtain ⟨more, behind, hsplit, hquoted, rfl⟩ := quoted_of_scanText htext
  obtain ⟨rfl, -⟩ := List.append_inj hsplit (Nat.succ.inj htaken).symm
  obtain ⟨written, rfl, hwrites⟩ := hquoted.exists_writes
  cases hvalue
  exact ⟨written, rfl, by rwa [String.toList_ofList]⟩

end

namespace Cursor

/-- A quote is read as the beginning of a string. -/
theorem next_quote (behind : List Char) (mark : Mark) : next ⟨'"' :: behind, mark⟩ =
    let after := advance (scanString behind).taken ⟨'"' :: behind, mark⟩
    match (scanString behind).outcome with
    | .ok token => .lexeme ⟨token, mark, after.mark.offset⟩ after
    | .error cause => .fault ⟨cause, mark⟩ after := by
  have hsolid : Solid ('"' :: behind) := ⟨'"', behind, rfl, by decide +kernel, fun h => absurd h.1 (by decide)⟩
  unfold next
  rw [trivia_eq_zero hsolid]
  rfl

theorem exists_fault_iff (behind : List Char) (mark : Mark) :
    (∃ f after, next ⟨'"' :: behind, mark⟩ = .fault f after) ↔ ∃ cause, (scanText behind).outcome = .error cause := by
  rw [next_quote, scanString, Scan.after]
  cases (scanText behind).outcome with
  | ok value =>
    constructor
    · rintro ⟨f, after, h⟩
      cases h
    · rintro ⟨cause, h⟩
      cases h
  | error cause => exact iff_of_true ⟨_, _, rfl⟩ ⟨cause, rfl⟩

/-- Every writing of a value between quotes is read as the string of that value, and what stands behind it is
left; every string that a run reads is written so, up to the first quote that is not escaped. An opening quote
is refused exactly if something that is no escape stands before such a quote, or if there is none; a backslash
at the end of the text is none either. -/
theorem next_string :
    (∀ (written value rest : List Char) (mark : Mark), Writes written value →
      let literal := '"' :: (written ++ ['"'])
      next ⟨literal ++ rest, mark⟩ =
        .lexeme ⟨.string (String.ofList value), mark, mark.offset + byteLength literal⟩ ⟨rest, mark.advance literal⟩) ∧
    (∀ (text : String) (calls : Nat) (l : Lexeme) (after : Cursor) (value : String),
      ((ofText text).skip calls).next = .lexeme l after → l.token = .string value →
      let source := Source.ofText text
      ∃ written rest, (source.slice l.span).toList = '"' :: (written ++ ['"']) ∧ Writes written value.toList ∧
        ClosedBy (source.slice ⟨l.start.offset + 1, source.size⟩).toList written rest) ∧
    (∀ (behind : List Char) (mark : Mark),
      (∃ f after, next ⟨'"' :: behind, mark⟩ = .fault f after) ↔ Malformed behind ∨ Unclosed behind) ∧
    ∀ (behind : List Char) (mark : Mark), Unclosed behind →
      ∃ f after, next ⟨'"' :: (behind ++ ['\\']), mark⟩ = .fault f after := by
  refine ⟨fun written value rest mark h => ?_, fun text calls l after value h hvalue => ?_, fun behind mark => ?_,
    fun behind mark h => ?_⟩
  · intro literal
    have hread := next_piece (p := ⟨[], literal, .string (String.ofList value)⟩) .nil (h.readsAs rest) mark
    rw [← Mark.offset_advance]
    exact hread
  · intro source
    obtain ⟨consumed, hover⟩ := (over_ofText text).skip calls
    obtain ⟨before, chars, htext, hstart, hstop, hread⟩ := hover.reads h
    rw [hvalue] at hread
    obtain ⟨written, rfl, hwrites⟩ := hread.exists_writes
    refine ⟨written, after.rest, ?_, hwrites, ?_⟩
    · rw [Lexeme.span, hstart, hstop]
      exact toList_slice htext
    · have hopen : l.start.offset + 1 = byteLength (before ++ ['"']) := by
        rw [hstart, byteLength_append]
        rfl
      have hbehind : text.toList = (before ++ ['"']) ++ (written ++ '"' :: after.rest) := by
        rw [htext]
        simp
      rw [hopen, toList_slice_size hbehind]
      exact hwrites.closedBy after.rest
  · rw [exists_fault_iff, exists_error_scanText_iff]
  · rw [exists_fault_iff, exists_error_scanText_iff]
    exact .inr h.append_slash

/-- Two backslashes leave the quote behind them unescaped, and three do not. -/
theorem next_string_backslashes :
    let text := "\"\\\\\n\\n\";"
    let source := Source.ofText text
    Writes ['\\', '\\', '\n', '\\', 'n'] ['\\', '\n', '\n'] ∧
      next (ofText text) = .lexeme ⟨.string "\\\n\n", .origin, 7⟩ ⟨[';'], ⟨7, 2, 4⟩⟩ ∧
      (∃ written rest, (source.slice ⟨0, 7⟩).toList = '"' :: (written ++ ['"']) ∧ Writes written ['\\', '\n', '\n'] ∧
        ClosedBy (source.slice ⟨1, source.size⟩).toList written rest) ∧
      Unclosed ['\\', '\\', '\\', '"'] ∧
      (∃ f after, next ⟨['"', '\\', '\\', '\\', '"'], .origin⟩ = .fault f after) ∧
      ∃ f after, next ⟨['"', '\\', '\\', '\\', '"', '\\'], .origin⟩ = .fault f after := by
  intro text source
  have hwrites : Writes ['\\', '\\', '\n', '\\', 'n'] ['\\', '\n', '\n'] :=
    .escape (by decide) (.raw (by decide) (by decide) (.escape (by decide) .nil))
  have hunclosed : Unclosed ['\\', '\\', '\\', '"'] :=
    Writes.unclosed (.escape (d := '\\') (by decide) (.escape (d := '"') (by decide) .nil))
  have hopen : ofText text = ⟨['"', '\\', '\\', '\n', '\\', 'n', '"', ';'], .origin⟩ :=
    congrArg (Cursor.mk · .origin) (show "\"\\\\\n\\n\";".toList = _ by decide)
  have hread : next (ofText text) = .lexeme ⟨.string "\\\n\n", .origin, 7⟩ ⟨[';'], ⟨7, 2, 4⟩⟩ := by
    rw [hopen]
    exact next_string.1 _ _ [';'] .origin hwrites
  have hliteral := next_string.2.1 text 0 _ _ _ hread rfl
  exact ⟨hwrites, hread, hliteral, hunclosed, (next_string.2.2.1 _ .origin).2 (.inr hunclosed),
    next_string.2.2.2 _ .origin hunclosed⟩

end Cursor

end LetLint
