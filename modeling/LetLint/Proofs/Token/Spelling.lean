/-
How a text is spelled: gaps of filler between the characters of its tokens. Reading a token looks at most
at two characters behind it, and only asks of these whether they are digits, continue a name or are
punctuation; so a token is read the same wherever what follows looks the same. The end of the text looks
like a line feed, and the first characters of all names look alike.
-/
import LetLint.Proofs.Token.Run
import Mathlib.Data.List.TakeWhile

namespace LetLint

/-! ## Classes of characters -/

namespace Text

theorem CodeRanges.exists_of_contains {ranges : CodeRanges} {code : Nat} (h : ranges.contains code = true) :
    ∃ range ∈ ranges, range.1 ≤ code ∧ code ≤ range.2 := by
  fun_induction CodeRanges.contains ranges code with
  | case1 => cases h
  | case2 => cases h
  | case3 low high rest code hlow ih =>
    rcases Bool.or_eq_true_iff.1 h with hhigh | hrest
    · exact ⟨(low, high), List.mem_cons_self, by omega, of_decide_eq_true hhigh⟩
    · obtain ⟨range, hrange, hmem⟩ := ih hrest
      exact ⟨range, List.mem_cons_of_mem _ hrange, hmem⟩

theorem continuesName_of_startsName {c : Char} (h : startsName c = true) : continuesName c = true := by
  unfold startsName at h
  unfold continuesName
  rcases Bool.or_eq_true_iff.1 h with hc | hc <;> simp [hc]

/-- No blank is a letter, a number character or an underscore. -/
theorem isBlank_of_continuesName {c : Char} (h : continuesName c = true) : isBlank c = false := by
  have hdisjoint : ∀ range ∈ whiteSpaceRanges, ∀ more < range.2 + 1 - range.1,
      alphabeticRanges.contains (range.1 + more) = false ∧ numericRanges.contains (range.1 + more) = false ∧
        range.1 + more ≠ '_'.toNat := by
    decide +kernel
  rw [Bool.eq_false_iff]
  intro hblank
  obtain ⟨range, hrange, hlow, hhigh⟩ := CodeRanges.exists_of_contains hblank
  obtain ⟨hletter, hnumeric, hunderscore⟩ := hdisjoint range hrange (c.toNat - range.1) (by omega)
  rw [Nat.add_sub_cancel' hlow] at hletter hnumeric hunderscore
  rw [continuesName, Bool.or_eq_true, Bool.or_eq_true] at h
  rcases h with (hc | hc) | hc
  · exact absurd (hletter.symm.trans hc) (by decide)
  · exact absurd (hnumeric.symm.trans hc) (by decide)
  · exact hunderscore (congrArg Char.toNat (beq_iff_eq.1 hc))

theorem isBlank_of_startsName {c : Char} (h : startsName c = true) : isBlank c = false :=
  isBlank_of_continuesName (continuesName_of_startsName h)

theorem isDigit_of_startsName {c : Char} (h : startsName c = true) : isDigit c = false := by
  rw [Bool.eq_false_iff]
  intro hdigit
  obtain ⟨-, hnine⟩ := Bool.and_eq_true_iff.1 hdigit
  have hle : c.toNat ≤ '9'.toNat := of_decide_eq_true hnine
  rcases Bool.or_eq_true_iff.1 h with hletter | hunderscore
  · -- the first letter comes after all digits
    have hnone : isLetter c = false := if_pos (Nat.lt_of_le_of_lt hle (by decide))
    exact absurd (hnone.symm.trans hletter) (by decide)
  · rw [beq_iff_eq.1 hunderscore] at hle
    exact absurd hle (by decide)

end Text

/-! ## What a token can see behind it -/

/-- What a character looks like to the token before it; no character at all looks like a line feed. -/
def face : Option Char → Char
  | none => '\n'
  | some c => if Text.startsName c then '_' else c

/-- What follows looks alike to a token: its first character does and, behind a point, its second. -/
structure LooksAlike (rest rest' : List Char) : Prop where
  first : face rest.head? = face rest'.head?
  second : face rest.head? = '.' → face rest.tail.head? = face rest'.tail.head?

theorem LooksAlike.append_line (rest more : List Char) : LooksAlike rest (rest ++ '\n' :: more) := by
  rcases rest with _ | ⟨c, _ | ⟨d, rest⟩⟩
  · exact ⟨rfl, fun h => absurd h (by decide)⟩
  · exact ⟨rfl, fun _ => rfl⟩
  · exact ⟨rfl, fun _ => rfl⟩

/-- A question that all first characters of names answer alike, and a line feed denies, is answered by the look. -/
theorem any_head?_eq {p : Char → Bool} (hline : p '\n' = false) (hname : ∀ c, Text.startsName c = true → p c = p '_')
    (rest : List Char) : rest.head?.any p = p (face rest.head?) := by
  rcases rest with _ | ⟨c, rest⟩
  · exact hline.symm
  · show p c = p (if Text.startsName c then '_' else c)
    split_ifs with hc
    · exact hname c hc
    · rfl

theorem any_digit_eq (rest : List Char) : rest.head?.any Text.isDigit = Text.isDigit (face rest.head?) :=
  any_head?_eq rfl (fun _ hc => Text.isDigit_of_startsName hc) rest

theorem any_continues_eq (rest : List Char) :
    rest.head?.any Text.continuesName = Text.continuesName (face rest.head?) :=
  any_head?_eq (by decide +kernel) (fun _ hc => Text.continuesName_of_startsName hc) rest

/-- A mark that is neither a line feed nor starts a name is seen as itself. -/
theorem head?_eq_some_iff {mark : Char} (hline : mark ≠ '\n') (hname : Text.startsName mark = false)
    {rest : List Char} : rest.head? = some mark ↔ face rest.head? = mark := by
  rcases rest with _ | ⟨c, rest⟩
  · exact ⟨fun h => (nomatch h), fun h => absurd h.symm hline⟩
  · show some c = some mark ↔ (if Text.startsName c then '_' else c) = mark
    rw [Option.some.injEq]
    split_ifs with hc
    · constructor
      · rintro rfl
        exact absurd (hname.symm.trans hc) (by decide)
      · rintro rfl
        exact absurd hname (by decide +kernel)
    · rfl

/-! ## Runs of characters -/

section

variable {p : Char → Bool} {cs rest : List Char}

theorem takeWhile_eq_nil (h : rest.head?.any p = false) : rest.takeWhile p = [] := by
  rcases rest with _ | ⟨c, rest⟩
  · rfl
  · exact List.takeWhile_cons_of_neg (by simpa using h)

theorem dropWhile_eq_self (h : rest.head?.any p = false) : rest.dropWhile p = rest := by
  rcases rest with _ | ⟨c, rest⟩
  · rfl
  · exact List.dropWhile_cons_of_neg (by simpa using h)

theorem any_head?_of_takeWhile (h : rest.takeWhile p = []) : rest.head?.any p = false := by
  rcases rest with _ | ⟨c, rest⟩
  · rfl
  · show p c = false
    by_contra hc
    rw [List.takeWhile_cons_of_pos (by simpa using hc)] at h
    cases h

theorem any_head?_dropWhile (p : Char → Bool) (cs : List Char) : (cs.dropWhile p).head?.any p = false := by
  induction cs with
  | nil => rfl
  | cons c cs ih =>
    by_cases hc : p c = true
    · rwa [List.dropWhile_cons_of_pos hc]
    · rw [List.dropWhile_cons_of_neg hc]
      simpa using hc

/-- The run goes to the end of the first characters and no further. -/
theorem run_of_length (h : ((cs ++ rest).takeWhile p).length = cs.length) :
    (∀ c ∈ cs, p c = true) ∧ rest.head?.any p = false := by
  have htake : (cs ++ rest).takeWhile p = cs := by
    have hprefix := List.prefix_iff_eq_take.1 (List.takeWhile_prefix (l := cs ++ rest) p)
    rwa [h, List.take_left] at hprefix
  have hcs : ∀ c ∈ cs, p c = true := fun c hc => List.mem_takeWhile_imp (htake.symm ▸ hc)
  refine ⟨hcs, any_head?_of_takeWhile ?_⟩
  rw [List.takeWhile_append_of_pos hcs] at htake
  exact List.append_right_eq_self.1 htake

theorem takeWhile_run (hcs : ∀ c ∈ cs, p c = true) (hrest : rest.head?.any p = false) :
    (cs ++ rest).takeWhile p = cs := by
  rw [List.takeWhile_append_of_pos hcs, takeWhile_eq_nil hrest, List.append_nil]

theorem dropWhile_run (hcs : ∀ c ∈ cs, p c = true) (hrest : rest.head?.any p = false) :
    (cs ++ rest).dropWhile p = rest := by
  rw [List.dropWhile_append_of_pos hcs, dropWhile_eq_self hrest]

/-- A run before a mark that does not go on with it, and what stands behind the mark, are found in one way. -/
theorem run_before_mark {mark : Char} {cs' rest' : List Char} (hmark : p mark = false) (hcs : ∀ c ∈ cs, p c = true)
    (hcs' : ∀ c ∈ cs', p c = true) (h : cs ++ mark :: rest = cs' ++ mark :: rest') : cs = cs' ∧ rest = rest' := by
  have hends (behind : List Char) : (mark :: behind).head?.any p = false := hmark
  have hsame : cs = cs' := by
    rw [← takeWhile_run hcs (hends rest), h, takeWhile_run hcs' (hends rest')]
  subst hsame
  exact ⟨rfl, (List.cons.inj (List.append_cancel_left h)).2⟩

end

/-! ## Scans before what looks alike -/

section

variable {c : Char} {cs rest rest' : List Char} {token : Token}

theorem scanWord_alike (h : scanWord c (cs ++ rest) = ⟨.ok token, cs.length + 1⟩) (halike : LooksAlike rest rest') :
    scanWord c (cs ++ rest') = ⟨.ok token, cs.length + 1⟩ := by
  obtain ⟨hcs, hrest⟩ := run_of_length (Nat.succ.inj (congrArg Scan.taken h))
  have hrest' : rest'.head?.any Text.continuesName = false := by
    rwa [any_continues_eq, ← halike.first, ← any_continues_eq]
  rw [← h]
  unfold scanWord
  rw [takeWhile_run hcs hrest, takeWhile_run hcs hrest']

/-- No fraction starts before what looks alike. -/
theorem fractionDigits_alike (h : fractionDigits rest = []) (halike : LooksAlike rest rest') :
    fractionDigits rest' = [] := by
  unfold fractionDigits
  split
  · rename_i more'
    have hpoint : face rest.head? = '.' := halike.first
    obtain ⟨more, rfl⟩ := List.head?_eq_some_iff.1 ((head?_eq_some_iff (by decide) (by decide +kernel)).2 hpoint)
    have hsecond : face more.head? = face more'.head? := halike.second hpoint
    have hdigit : more.head?.any Text.isDigit = false := any_head?_of_takeWhile h
    apply takeWhile_eq_nil
    rwa [any_digit_eq, ← hsecond, ← any_digit_eq]
  · rfl

theorem exists_point_of_fractionDigits (h : fractionDigits rest ≠ []) :
    ∃ more, rest = '.' :: more ∧ fractionDigits rest = more.takeWhile Text.isDigit := by
  fun_cases fractionDigits rest with
  | case1 more => exact ⟨more, rfl, rfl⟩
  | case2 => simp_all [fractionDigits]

theorem scanNumber_whole {whole : List Char} (hwhole : ∀ d ∈ whole, Text.isDigit d = true)
    (hrest : rest.head?.any Text.isDigit = false) (hnone : fractionDigits rest = []) :
    scanNumber c (whole ++ rest) = ⟨.ok (.number (.ofNumeral (c :: whole) [])), whole.length + 1⟩ := by
  unfold scanNumber
  rw [takeWhile_run hwhole hrest, dropWhile_run hwhole hrest, hnone]
  rfl

theorem scanNumber_fraction {whole part : List Char} (hwhole : ∀ d ∈ whole, Text.isDigit d = true)
    (hpart : ∀ d ∈ part, Text.isDigit d = true) (hne : part ≠ []) (hrest : rest.head?.any Text.isDigit = false) :
    scanNumber c (whole ++ '.' :: part ++ rest) =
      ⟨.ok (.number (.ofNumeral (c :: whole) part)), (whole ++ '.' :: part).length + 1⟩ := by
  have hpoint : ('.' :: part ++ rest).head?.any Text.isDigit = false := rfl
  have hfraction : fractionDigits ('.' :: part ++ rest) = part := takeWhile_run hpart hrest
  unfold scanNumber
  rw [List.append_assoc, takeWhile_run hwhole hpoint, dropWhile_run hwhole hpoint, hfraction]
  dsimp only
  rw [if_neg (by simpa using hne), List.length_append, List.length_cons, List.length_cons]
  congr 1
  omega

/-- A number is its whole part alone or with a point and a fraction, and nothing behind it goes on with it. -/
theorem scanNumber_cases (h : scanNumber c (cs ++ rest) = ⟨.ok token, cs.length + 1⟩) :
    rest.head?.any Text.isDigit = false ∧
      (((∀ d ∈ cs, Text.isDigit d = true) ∧ fractionDigits rest = []) ∨
        ∃ whole part, cs = whole ++ '.' :: part ∧ (∀ d ∈ whole, Text.isDigit d = true) ∧
          (∀ d ∈ part, Text.isDigit d = true) ∧ part ≠ []) := by
  have htaken := congrArg Scan.taken h
  unfold scanNumber at htaken
  dsimp only at htaken
  by_cases hfraction : fractionDigits ((cs ++ rest).dropWhile Text.isDigit) = []
  · have hlength : ((cs ++ rest).takeWhile Text.isDigit).length = cs.length := by
      rw [hfraction] at htaken
      simpa using htaken
    obtain ⟨hcs, hrest⟩ := run_of_length hlength
    rw [dropWhile_run hcs hrest] at hfraction
    exact ⟨hrest, .inl ⟨hcs, hfraction⟩⟩
  · obtain ⟨more, hmore, htake⟩ := exists_point_of_fractionDigits hfraction
    rw [htake] at htaken hfraction
    have hsplit : cs ++ rest = ((cs ++ rest).takeWhile Text.isDigit ++
        '.' :: more.takeWhile Text.isDigit) ++ more.dropWhile Text.isDigit := by
      rw [List.append_assoc, List.cons_append, List.takeWhile_append_dropWhile, ← hmore,
        List.takeWhile_append_dropWhile]
    have hlength : cs.length = ((cs ++ rest).takeWhile Text.isDigit ++
        '.' :: more.takeWhile Text.isDigit).length := by
      simp only [List.isEmpty_iff, if_neg hfraction, List.length_cons, List.length_append] at htaken ⊢
      omega
    obtain ⟨hcs, hrest⟩ := List.append_inj hsplit hlength
    exact ⟨hrest ▸ any_head?_dropWhile Text.isDigit more, .inr ⟨_, _, hcs, fun d => List.mem_takeWhile_imp,
      fun d => List.mem_takeWhile_imp, hfraction⟩⟩

theorem scanNumber_alike (h : scanNumber c (cs ++ rest) = ⟨.ok token, cs.length + 1⟩)
    (halike : LooksAlike rest rest') : scanNumber c (cs ++ rest') = ⟨.ok token, cs.length + 1⟩ := by
  obtain ⟨hrest, ⟨hcs, hnone⟩ | ⟨whole, part, rfl, hwhole, hpart, hne⟩⟩ := scanNumber_cases h
  all_goals
    have hrest' : rest'.head?.any Text.isDigit = false := by rwa [any_digit_eq, ← halike.first, ← any_digit_eq]
  · rw [← h, scanNumber_whole hcs hrest hnone, scanNumber_whole hcs hrest' (fractionDigits_alike hnone halike)]
  · rw [← h, scanNumber_fraction hwhole hpart hne hrest, scanNumber_fraction hwhole hpart hne hrest']

theorem Scan.exists_of_after {α β : Type} {s : Scan α} {f : α → β} {more count : Nat} {b : β}
    (h : s.after more f = ⟨.ok b, count⟩) : ∃ a taken, s = ⟨.ok a, taken⟩ ∧ f a = b ∧ taken + more = count := by
  obtain ⟨outcome, taken⟩ := s
  rcases outcome with cause | a
  · cases h
  · cases h
    exact ⟨a, taken, rfl, rfl, rfl⟩

/-- The characters of a string behind its opening quote, through the closing one, and its value. -/
inductive Quoted : List Char → List Char → Prop
  | close : Quoted ['"'] []
  | escape {e d : Char} {cs value : List Char} (hd : unescape? e = some d) (h : Quoted cs value) :
      Quoted ('\\' :: e :: cs) (d :: value)
  | plain {c : Char} {cs value : List Char} (hquote : c ≠ '"') (hescape : c ≠ '\\') (h : Quoted cs value) :
      Quoted (c :: cs) (c :: value)

/-- A string is read through its closing quote, whatever is behind it. -/
theorem Quoted.scanText_append {value : List Char} (h : Quoted cs value) (rest : List Char) :
    scanText (cs ++ rest) = ⟨.ok value, cs.length⟩ := by
  induction h with
  | close =>
    rw [List.cons_append, scanText.eq_def]
    rfl
  | @escape e d cs value hd _ ih =>
    rw [List.cons_append, List.cons_append, scanText.eq_def]
    simp only [hd, ih, Scan.after]
    rfl
  | @plain c cs value hquote hescape _ ih =>
    rw [List.cons_append, scanText.eq_def]
    simp only [if_neg hquote, if_neg hescape, ih, Scan.after]
    rfl

theorem quoted_of_scanText {value : List Char} {taken : Nat} (h : scanText rest = ⟨.ok value, taken⟩) :
    ∃ cs more, rest = cs ++ more ∧ Quoted cs value ∧ taken = cs.length := by
  fun_induction scanText rest generalizing value taken with
  | case1 => cases h
  | case2 cs =>
    cases h
    exact ⟨['"'], cs, rfl, .close, rfl⟩
  | case3 => cases h
  | case4 => cases h
  | case5 e rest d hd _ ih =>
    obtain ⟨value, taken, hscan, rfl, rfl⟩ := Scan.exists_of_after h
    obtain ⟨cs, more, rfl, hcs, rfl⟩ := ih hscan
    exact ⟨_, more, rfl, .escape hd hcs, rfl⟩
  | case6 c rest hquote hescape ih =>
    obtain ⟨value, taken, hscan, rfl, rfl⟩ := Scan.exists_of_after h
    obtain ⟨cs, more, rfl, hcs, rfl⟩ := ih hscan
    exact ⟨_, more, rfl, .plain hquote hescape hcs, rfl⟩

theorem scanString_append (h : scanString (cs ++ rest) = ⟨.ok token, cs.length + 1⟩) (more : List Char) :
    scanString (cs ++ more) = ⟨.ok token, cs.length + 1⟩ := by
  obtain ⟨value, taken, hscan, rfl, htaken⟩ := Scan.exists_of_after h
  obtain ⟨chars, behind, hsplit, hquoted, rfl⟩ := quoted_of_scanText hscan
  obtain ⟨rfl, -⟩ := List.append_inj hsplit (Nat.succ.inj htaken).symm
  unfold scanString
  rw [hquoted.scanText_append more]
  rfl

/-- The second characters of pairs. -/
theorem pair?_eq_none {d : Char} (h : d ∉ ['=', '>', '|', '&']) (c : Char) : Punct.pair? c d = none := by
  simp only [List.mem_cons, List.not_mem_nil, or_false, not_or] at h
  unfold Punct.pair?
  split <;> simp_all

theorem pair?_of_startsName {d : Char} (h : Text.startsName d = true) (c : Char) : Punct.pair? c d = none := by
  refine pair?_eq_none (fun hd => ?_) c
  simp only [List.mem_cons, List.not_mem_nil, or_false] at hd
  rcases hd with rfl | rfl | rfl | rfl <;> exact absurd h (by decide +kernel)

/-- Whether a pair goes on with what follows is seen by its look. -/
theorem pair?_alike (halike : LooksAlike rest rest') (h : rest.head?.bind (Punct.pair? c) = none) :
    rest'.head?.bind (Punct.pair? c) = none := by
  have hseen (rest : List Char) :
      (rest.head?.bind (Punct.pair? c)).isSome = (Punct.pair? c (face rest.head?)).isSome := by
    rw [Option.isSome_bind]
    refine any_head?_eq ?_ (fun d hd => ?_) rest
    · rw [pair?_eq_none (by decide)]
      rfl
    · rw [pair?_of_startsName hd, pair?_of_startsName (by decide +kernel)]
  rw [← Option.isNone_iff_eq_none, ← Option.not_isSome, hseen, ← halike.first, ← hseen, h]
  rfl

theorem scanPunct_alike (h : scanPunct c (cs ++ rest) = ⟨.ok token, cs.length + 1⟩)
    (halike : LooksAlike rest rest') : scanPunct c (cs ++ rest') = ⟨.ok token, cs.length + 1⟩ := by
  unfold scanPunct at h ⊢
  rcases cs with _ | ⟨d, cs⟩
  · rcases hpair : rest.head?.bind (Punct.pair? c) with _ | mark
    · rw [List.nil_append] at h ⊢
      rw [hpair] at h
      rw [pair?_alike halike hpair]
      exact h
    · rw [List.nil_append, hpair] at h
      cases h
  · -- only a pair takes a second character, and that one is here
    rw [List.cons_append, List.head?_cons] at h ⊢
    exact h

/-- A token is read the same before what looks alike. -/
theorem scanToken_alike (h : scanToken c (cs ++ rest) = ⟨.ok token, cs.length + 1⟩)
    (halike : LooksAlike rest rest') : scanToken c (cs ++ rest') = ⟨.ok token, cs.length + 1⟩ := by
  unfold scanToken at h ⊢
  split_ifs at h ⊢
  · exact scanString_append h rest'
  · exact scanNumber_alike h halike
  · exact scanWord_alike h halike
  · exact scanPunct_alike h halike

end

/-- The first character decides of which kind a token is. -/
theorem scanToken_cases {c : Char} {cs : List Char} {token : Token} {taken : Nat}
    (h : scanToken c cs = ⟨.ok token, taken⟩) :
    (c = '"' ∧ ∃ value, token = .string value) ∨ (Text.isDigit c = true ∧ ∃ value, token = .number value) ∨
      (Text.startsName c = true ∧ ((∃ name, token = .identifier name) ∨ ∃ word, token = .keyword word)) ∨
        ∃ mark, token = .punct mark := by
  unfold scanToken at h
  split_ifs at h with hquote hdigit hword
  · obtain ⟨value, _, _, hvalue, _⟩ := Scan.exists_of_after h
    exact .inl ⟨hquote, _, hvalue.symm⟩
  · exact .inr (.inl ⟨hdigit, _, (Except.ok.inj (congrArg Scan.outcome h)).symm⟩)
  · refine .inr (.inr (.inl ⟨hword, ?_⟩))
    have htoken : wordToken _ = token := Except.ok.inj (congrArg Scan.outcome h)
    unfold wordToken at htoken
    split at htoken
    · exact .inr ⟨_, htoken.symm⟩
    · exact .inl ⟨_, htoken.symm⟩
  · refine .inr (.inr (.inr ?_))
    unfold scanPunct at h
    split at h
    · exact ⟨_, (Except.ok.inj (congrArg Scan.outcome h)).symm⟩
    · split at h
      · exact ⟨_, (Except.ok.inj (congrArg Scan.outcome h)).symm⟩
      · cases h

theorem scanNumber_taken_le (c : Char) (cs : List Char) : (scanNumber c cs).taken ≤ cs.length + 1 := by
  have hlength : (cs.takeWhile Text.isDigit).length + (cs.dropWhile Text.isDigit).length = cs.length := by
    rw [← List.length_append, List.takeWhile_append_dropWhile]
  unfold scanNumber
  dsimp only
  by_cases hfraction : fractionDigits (cs.dropWhile Text.isDigit) = []
  · rw [hfraction]
    simp only [List.length_cons, List.length_nil, List.isEmpty_nil, if_true]
    omega
  · obtain ⟨more, hmore, htake⟩ := exists_point_of_fractionDigits hfraction
    have hpart := (List.takeWhile_prefix (l := more) Text.isDigit).length_le
    rw [hmore, List.length_cons] at hlength
    rw [htake] at hfraction ⊢
    simp only [List.isEmpty_iff, if_neg hfraction, List.length_cons]
    omega

/-- A scan takes no more characters than there are. -/
theorem scanToken_taken_le {c : Char} {cs : List Char} {token : Token} (h : (scanToken c cs).outcome = .ok token) :
    (scanToken c cs).taken ≤ cs.length + 1 := by
  unfold scanToken at h ⊢
  split_ifs at h ⊢
  · have hstring : (scanText cs).after 1 _ = ⟨.ok token, (scanString cs).taken⟩ :=
      show scanString cs = _ by rw [← h]
    obtain ⟨value, taken, hscan, -, htaken⟩ := Scan.exists_of_after hstring
    obtain ⟨chars, more, rfl, -, rfl⟩ := quoted_of_scanText hscan
    rw [List.length_append]
    omega
  · exact scanNumber_taken_le c cs
  · exact Nat.succ_le_succ (List.takeWhile_prefix _).length_le
  · unfold scanPunct
    split
    · rename_i mark hmark
      -- a pair has a second character
      rcases cs with _ | ⟨d, cs⟩
      · cases hmark
      · exact Nat.le_add_left 2 _
    · split <;> exact Nat.le_add_left 1 _

/-! ## Filler -/

theorem trivia_in_comment {c : Char} (hc : c ≠ '\n') (rest : List Char) :
    trivia true (c :: rest) = trivia true rest + 1 := by
  have hne : (c != '\n') = true := by simpa using hc
  show trivia (c != '\n') rest + 1 = _
  rw [hne]

theorem trivia_comment {body : List Char} (hbody : '\n' ∉ body) (rest : List Char) :
    trivia true (body ++ '\n' :: rest) = trivia false rest + (body.length + 1) := by
  induction body with
  | nil => rfl
  | cons c body ih =>
    rw [List.mem_cons, not_or] at hbody
    rw [List.cons_append, trivia_in_comment (Ne.symm hbody.1), ih hbody.2, List.length_cons]
    omega

theorem trivia_unclosed {body : List Char} (hbody : '\n' ∉ body) : trivia true body = body.length := by
  induction body with
  | nil => rfl
  | cons c body ih =>
    rw [List.mem_cons, not_or] at hbody
    rw [trivia_in_comment (Ne.symm hbody.1), ih hbody.2, List.length_cons]

theorem trivia_blank {c : Char} (hc : Text.isBlank c = true) (rest : List Char) :
    trivia false (c :: rest) = trivia false rest + 1 := by
  simp [trivia, hc]

theorem trivia_slashes (rest : List Char) : trivia false ('/' :: '/' :: rest) = trivia true rest + 2 := by
  have hslash : Text.isBlank '/' = false := by decide +kernel
  simp [trivia, hslash]

theorem trivia_eq_zero {cs : List Char} (h : Solid cs) : trivia false cs = 0 := by
  obtain ⟨c, rest, rfl, hblank, hslash⟩ := h
  unfold trivia
  simp [hblank, hslash]

/-- All filler is skipped and nothing more. An open comment is skipped only at the end. -/
theorem trivia_filler {atEnd : Bool} {gap rest : List Char} (h : Filler atEnd gap) (hend : atEnd = true → rest = [])
    (hrest : trivia false rest = 0) : trivia false (gap ++ rest) = gap.length := by
  induction h with
  | nil => exact hrest
  | @blank c cs hc _ ih => rw [List.cons_append, trivia_blank hc, ih, List.length_cons]
  | @comment body cs hb _ ih =>
    rw [List.cons_append, List.cons_append, List.cons_append, List.cons_append, List.append_assoc, List.cons_append,
      trivia_slashes, trivia_comment hb, ih]
    simp only [List.length_cons, List.length_append]
    omega
  | @unclosed body he hb =>
    rw [hend he, List.append_nil, trivia_slashes, trivia_unclosed hb]
    rfl

/-- Filler goes on behind a line feed, which closes the last comment. -/
theorem Filler.append_line {atEnd atEnd' : Bool} {gap gap' : List Char} (h : Filler atEnd gap)
    (h' : Filler atEnd' gap') : Filler atEnd' (gap ++ '\n' :: gap') := by
  induction h with
  | nil => exact .blank (by decide) h'
  | blank hc _ ih => exact .blank hc ih
  | @comment body cs hb _ ih =>
    rw [List.append_assoc]
    exact .comment hb ih
  | unclosed _ hb => exact .comment hb h'

/-! ## Pieces -/

/-- A token with its characters and the filler before it. -/
structure Piece where
  gap : List Char
  chars : List Char
  token : Token

/-- The characters of some pieces and of what is behind them. -/
def spell : List Piece → List Char → List Char
  | [], tail => tail
  | p :: ps, tail => p.gap ++ (p.chars ++ spell ps tail)

/-- Before the rest, the characters are read as the token. -/
def ReadsAs (chars rest : List Char) (token : Token) : Prop :=
  Solid (chars ++ rest) ∧ ∃ c cs, chars = c :: cs ∧ scanToken c (cs ++ rest) = ⟨.ok token, chars.length⟩

/-- The pieces and the filler behind them spell a text. -/
def Spelled : List Piece → List Char → Prop
  | [], tail => Filler true tail
  | p :: ps, tail => Filler false p.gap ∧ ReadsAs p.chars (spell ps tail) p.token ∧ Spelled ps tail

/-- The lexemes of some pieces from a place on. -/
def lexemesFrom : Mark → List Piece → List Lexeme
  | _, [] => []
  | mark, p :: ps =>
    let start := mark.advance p.gap
    let after := start.advance p.chars
    ⟨p.token, start, after.offset⟩ :: lexemesFrom after ps

theorem ReadsAs.alike {chars rest rest' : List Char} {token : Token} (h : ReadsAs chars rest token)
    (halike : LooksAlike rest rest') : ReadsAs chars rest' token := by
  obtain ⟨⟨c, _, hsolid, hblank, hslash⟩, _, cs, rfl, hscan⟩ := h
  cases hsolid
  refine ⟨⟨c, cs ++ rest', rfl, hblank, ?_⟩, c, cs, rfl, scanToken_alike hscan halike⟩
  rintro ⟨rfl, hhead⟩
  refine hslash ⟨rfl, ?_⟩
  rcases cs with _ | ⟨d, cs⟩
  · have hseen {rest : List Char} : rest.head? = some '/' ↔ face rest.head? = '/' :=
      head?_eq_some_iff (by decide) (by decide +kernel)
    exact hseen.2 (halike.first.trans (hseen.1 hhead))
  · exact hhead

/-! ## Reading what is spelled -/

namespace Cursor

theorem advance_append {mark : Mark} {before rest : List Char} :
    advance before.length ⟨before ++ rest, mark⟩ = ⟨rest, mark.advance before⟩ := by
  simp [advance]

/-- A piece is read in one step. -/
theorem next_piece {p : Piece} {rest : List Char} (hgap : Filler false p.gap) (hread : ReadsAs p.chars rest p.token)
    (mark : Mark) :
    let start := mark.advance p.gap
    let after := start.advance p.chars
    next ⟨p.gap ++ (p.chars ++ rest), mark⟩ = .lexeme ⟨p.token, start, after.offset⟩ ⟨rest, after⟩ := by
  intro start after
  obtain ⟨hsolid, c, cs, hchars, hscan⟩ := hread
  have htrivia := trivia_filler hgap (fun h => nomatch h) (trivia_eq_zero hsolid)
  have hafter : advance p.chars.length ⟨p.chars ++ rest, start⟩ = ⟨rest, after⟩ := advance_append
  unfold next
  rw [htrivia, advance_append]
  rw [hchars] at hscan hafter ⊢
  dsimp only [List.cons_append] at hafter ⊢
  rw [hscan, hafter]

theorem next_filler {tail : List Char} (h : Filler true tail) (mark : Mark) :
    next ⟨tail, mark⟩ = .finish ⟨[], mark.advance tail⟩ := by
  have htrivia := trivia_filler h (fun _ => rfl) rfl
  rw [List.append_nil] at htrivia
  unfold next
  rw [htrivia, advance, List.drop_length, List.take_length]

/-- What is spelled is read as its tokens, each in its place. -/
theorem tokenize_spelled {ps : List Piece} {tail : List Char} (h : Spelled ps tail) (mark : Mark) :
    (tokenize ⟨spell ps tail, mark⟩).1 = .ok ⟨lexemesFrom mark ps, mark.advance (spell ps tail)⟩ := by
  induction ps generalizing mark with
  | nil =>
    rw [tokenize]
    split
    all_goals rename_i hnext; cases (next_filler h mark).symm.trans hnext
    rfl
  | cons p ps ih =>
    obtain ⟨hgap, hread, hps⟩ := h
    rw [tokenize]
    split
    all_goals rename_i hnext; cases (next_piece hgap hread mark).symm.trans hnext
    show Except.map _ (tokenize _).1 = _
    rw [ih hps]
    show Except.ok _ = Except.ok _
    rw [spell, Mark.advance_append, Mark.advance_append]
    rfl

theorem readsAs_of_scan {c : Char} {cs : List Char} {token : Token} (hsolid : Solid (c :: cs))
    (h : (scanToken c cs).outcome = .ok token) :
    ReadsAs ((c :: cs).take (scanToken c cs).taken) ((c :: cs).drop (scanToken c cs).taken) token := by
  have hlength : ((c :: cs).take (scanToken c cs).taken).length = (scanToken c cs).taken :=
    List.length_take_of_le (scanToken_taken_le h)
  obtain ⟨more, hmore⟩ := Nat.exists_eq_add_one_of_ne_zero (Nat.ne_of_gt (scanToken_taken_pos c cs))
  refine ⟨by rwa [List.take_append_drop], c, cs.take more, by rw [hmore, List.take_succ_cons], ?_⟩
  rw [hlength, ← h, hmore, List.drop_succ_cons, List.take_append_drop, ← hmore]

/-- A step that reads a lexeme reads a piece. -/
theorem piece_of_next {cursor after : Cursor} {l : Lexeme} (h : cursor.next = .lexeme l after) :
    ∃ p : Piece, cursor.rest = p.gap ++ (p.chars ++ after.rest) ∧ Filler false p.gap ∧
      ReadsAs p.chars after.rest p.token := by
  have hfiller := (filler_take_trivia cursor.rest).2
  unfold next at h
  dsimp only at h
  split at h
  · cases h
  · rename_i c cs hrest
    have hdrop : cursor.rest.drop (trivia false cursor.rest) = c :: cs := hrest
    split at h
    · rename_i token htoken
      cases h
      have hsolid : Solid (c :: cs) := hdrop ▸ solid_drop_trivia (by simp [hdrop])
      refine ⟨⟨cursor.rest.take (trivia false cursor.rest), (c :: cs).take (scanToken c cs).taken, token⟩, ?_, ?_, ?_⟩
      · show _ = cursor.rest.take _ ++ ((c :: cs).take _ ++ List.drop _ (cursor.advance _).rest)
        rw [hrest, List.take_append_drop, ← hdrop, List.take_append_drop]
      · rwa [hdrop] at hfiller
      · show ReadsAs _ (List.drop _ (cursor.advance _).rest) token
        rw [hrest]
        exact readsAs_of_scan hsolid htoken
    · cases h

theorem filler_of_next {cursor after : Cursor} (h : cursor.next = .finish after) : Filler true cursor.rest := by
  have hfiller := (filler_take_trivia cursor.rest).2
  unfold next at h
  dsimp only at h
  split at h
  · rename_i hrest
    have hdrop : cursor.rest.drop (trivia false cursor.rest) = [] := hrest
    have hall := List.take_append_drop (trivia false cursor.rest) cursor.rest
    rw [hdrop, List.append_nil] at hall
    rwa [hdrop, hall] at hfiller
  · split at h <;> cases h

/-- Whatever is read as tokens is spelled by them. -/
theorem spelled_of_tokenize (cursor : Cursor) {tokens : Tokens} (h : cursor.tokenize.1 = .ok tokens) :
    ∃ ps tail, cursor.rest = spell ps tail ∧ Spelled ps tail := by
  induction hlength : cursor.rest.length using Nat.strongRecOn generalizing cursor tokens with
  | ind length ih =>
    rw [Cursor.tokenize] at h
    split at h
    · rename_i after hnext
      exact ⟨[], cursor.rest, rfl, filler_of_next hnext⟩
    · cases h
    · rename_i l after hnext
      dsimp only at h
      rcases hrec : after.tokenize.1 with fault | tokens'
      · rw [hrec] at h
        cases h
      obtain ⟨ps, tail, hps, hspelled⟩ := ih _ (hlength ▸ length_rest_of_next_eq_lexeme hnext) after hrec rfl
      obtain ⟨p, hrest, hgap, hread⟩ := piece_of_next hnext
      rw [hps] at hrest hread
      exact ⟨p :: ps, tail, hrest, hgap, hread, hspelled⟩

end Cursor

/-- A text has tokens if it is spelled by pieces with these tokens, and then these stand where the pieces do. -/
theorem tokenize_eq_ok_iff {text : String} {tokens : Tokens} : tokenize text = .ok tokens ↔
    ∃ ps tail, text.toList = spell ps tail ∧ Spelled ps tail ∧
      tokens = ⟨lexemesFrom .origin ps, Mark.origin.advance text.toList⟩ := by
  constructor
  · intro h
    obtain ⟨ps, tail, hrest, hspelled⟩ := (Cursor.ofText text).spelled_of_tokenize h
    have htext : text.toList = spell ps tail := hrest
    have hread := Cursor.tokenize_spelled hspelled .origin
    rw [← htext] at hread
    exact ⟨ps, tail, htext, hspelled, Except.ok.inj (h.symm.trans hread)⟩
  · rintro ⟨ps, tail, htext, hspelled, rfl⟩
    have hread := Cursor.tokenize_spelled hspelled .origin
    rwa [← htext] at hread

end LetLint
