/-
Places as they are looked up. The offsets at which lines start are in strict order, so looking an offset up
among them finds the line that it stands in, and what is cut out of the text for its column is always there.
The place so found is the one that reading the text up to the offset counts, later offsets have later places,
and the line of the place has there the character at the offset. So the order of the locations of a document
is the order of their places, and only equal locations compare as equal.
-/
import LetLint.Proofs.Analysis.Schedule
import LetLint.Proofs.Text.Lines
import LetLint.Proofs.Tree.Spans

namespace LetLint

/-! ## The starts of lines -/

/-- The offsets behind the line feeds of some characters, the first of which stands at the given offset. -/
def startsFrom (offset : Nat) : List Char → List Nat
  | [] => []
  | c :: cs => if c = '\n' then (offset + 1) :: startsFrom (offset + 1) cs else startsFrom (offset + c.utf8Size) cs

/-- The offsets at which the lines of a text start. -/
def lineStarts (text : String) : List Nat := 0 :: startsFrom 0 text.toList

theorem map_start_split (offset : Nat) (cs : List Char) :
    (Line.split offset cs).map Line.start = offset :: startsFrom offset cs := by
  induction cs generalizing offset with
  | nil => rfl
  | cons c cs ih =>
    rw [Line.split, startsFrom]
    split
    · exact congrArg (offset :: ·) (ih (offset + 1))
    · have hrest := ih (offset + c.utf8Size)
      split
      · rename_i hnil
        exact absurd hnil (Line.split_ne_nil _ _)
      · rename_i line rest hsplit
        rw [hsplit] at hrest
        exact congrArg (offset :: ·) (List.cons.inj hrest).2

theorem pairwise_startsFrom (offset : Nat) (cs : List Char) : (offset :: startsFrom offset cs).Pairwise (· < ·) := by
  induction cs generalizing offset with
  | nil => exact List.pairwise_singleton _ _
  | cons c cs ih =>
    rw [startsFrom]
    split
    · have hnext := ih (offset + 1)
      refine .cons (fun start hstart => ?_) hnext
      rcases List.mem_cons.1 hstart with rfl | hstart
      · exact Nat.lt_succ_self offset
      · exact Nat.lt_of_succ_lt (List.rel_of_pairwise_cons hnext hstart)
    · obtain ⟨hlater, hrest⟩ := List.pairwise_cons.1 (ih (offset + c.utf8Size))
      exact .cons (fun start hstart => Nat.lt_of_le_of_lt (Nat.le_add_right _ _) (hlater start hstart)) hrest

namespace Source

variable {source : Source} {offset : Nat}

theorem getElem?_lineStarts (source : Source) (i : Nat) :
    (lineStarts source.text)[i]? = source.lines[i]?.map Line.start := by
  rw [getElem?_lines, lineStarts, ← map_start_split, List.getElem?_map]

/-- Looks an offset up among others in strict order: its index, or else the index at which it would stand. -/
def lookUp (starts : List Nat) (offset : Nat) : Except Nat Nat :=
  if offset ∈ starts then .ok (starts.idxOf offset) else .error (starts.countP (· < offset))

/-- The index of the last start that is not behind an offset is where the offset is found, or else the one
before the index at which it would stand. -/
theorem lookUp_eq {starts : List Nat} {i start : Nat} (hsorted : starts.Pairwise (· < ·))
    (hstart : starts[i]? = some start) (hle : start ≤ offset) (hlater : ∀ next ∈ starts[i + 1]?, offset < next) :
    lookUp starts offset = if start = offset then .ok i else .error (i + 1) := by
  obtain ⟨hi, rfl⟩ := List.getElem?_eq_some_iff.1 hstart
  have hlength : (starts.take i).length = i := List.length_take_of_le (Nat.le_of_lt hi)
  have hsplit : starts = starts.take i ++ starts[i] :: starts.drop (i + 1) := by
    rw [← List.drop_eq_getElem_cons hi, List.take_append_drop]
  rw [← List.head?_drop] at hlater
  generalize starts.take i = before at hlength hsplit
  generalize starts.drop (i + 1) = after at hlater hsplit
  generalize starts[i] = start at hle hsplit
  subst hlength hsplit
  obtain ⟨-, hbehind, hbefore⟩ := List.pairwise_append.1 hsorted
  have hbefore : ∀ s ∈ before, s < start := fun s hs => hbefore s hs start List.mem_cons_self
  have hafter : ∀ s ∈ after, offset < s := by
    cases after with
    | nil => simp
    | cons next more =>
      have hnext := hlater next rfl
      refine List.forall_mem_cons.2 ⟨hnext, fun s hs => ?_⟩
      exact Nat.lt_trans hnext (List.rel_of_pairwise_cons (List.pairwise_cons.1 hbehind).2 hs)
  have hnew : offset ∉ before := fun hmem => absurd (hbefore offset hmem) (Nat.not_lt.2 hle)
  unfold lookUp
  split
  · rename_i hmem
    have hsame : start = offset := by
      rcases List.mem_append.1 hmem with hmem | hmem
      · exact absurd hmem hnew
      · rcases List.mem_cons.1 hmem with hsame | hmem
        · exact hsame.symm
        · exact absurd (hafter offset hmem) (Nat.lt_irrefl _)
    rw [if_pos hsame, List.idxOf_append_of_notMem hnew, hsame, List.idxOf_cons_self, Nat.add_zero]
  · rename_i hmem
    have hne : start ≠ offset := fun hsame => hmem (by simp [hsame])
    have hall : before.countP (· < offset) = before.length :=
      List.countP_eq_length.2 fun s hs => decide_eq_true (Nat.lt_of_lt_of_le (hbefore s hs) hle)
    have hnone : after.countP (· < offset) = 0 :=
      List.countP_eq_zero.2 fun s hs => by simpa using Nat.le_of_lt (hafter s hs)
    rw [if_neg hne, List.countP_append, List.countP_cons_of_pos (by simpa using Nat.lt_of_le_of_ne hle hne), hall,
      hnone]

/-- The index of the last start that is not behind an offset, by looking it up; there is none if the offset
would stand before all of them. -/
def startIndex? (starts : List Nat) (offset : Nat) : Option Nat :=
  match lookUp starts offset with
  | .ok index => some index
  | .error 0 => none
  | .error (index + 1) => some index

/-- The line and the column of an offset, by looking it up among the starts of the lines and cutting out what
stands before it in its line. -/
def lookedUpPosition? (source : Source) (offset : Nat) : Option Position := do
  let index ← startIndex? (lineStarts source.text) offset
  let start ← (lineStarts source.text)[index]?
  let before ← source.slice? ⟨start, offset⟩
  return ⟨index + 1, before.toList.length + 1⟩

/-- The text of a line, cut out between where it starts and the line feed before the next one, or the end. -/
def cutLineText? (source : Source) : Nat → Option String
  | 0 => none
  | index + 1 => do
    let start ← (lineStarts source.text)[index]?
    let stop := ((lineStarts source.text)[index + 1]?.map (· - 1)).getD source.size
    let chars ← source.slice? ⟨start, stop⟩
    return String.ofList (Text.dropTrailing (· == '\r') chars.toList)

theorem startIndex?_eq (source : Source) (offset : Nat) :
    startIndex? (lineStarts source.text) offset = some (source.lineIndex offset) := by
  obtain ⟨line, hline, hle, hlater⟩ := lineIndex_spec source offset
  have hfound : lookUp (lineStarts source.text) offset =
      if line.start = offset then .ok (source.lineIndex offset) else .error (source.lineIndex offset + 1) := by
    refine lookUp_eq (pairwise_startsFrom 0 _) ?_ hle fun next hnext => ?_
    · rw [getElem?_lineStarts, getElem?_lines, hline, Option.map_some]
    · rw [getElem?_lineStarts, getElem?_lines] at hnext
      obtain ⟨nextLine, hnextLine, rfl⟩ := Option.map_eq_some_iff.1 hnext
      exact hlater nextLine hnextLine
  rw [startIndex?, hfound]
  split_ifs <;> rfl

/-- Looking a boundary up finds its line, and its column can be cut out of the text. -/
theorem lookedUpPosition?_eq (h : source.isBoundary offset = true) :
    source.lookedUpPosition? offset = some (source.position offset) := by
  obtain ⟨line, hline, -, -⟩ := lineIndex_spec source offset
  rw [← getElem?_lines] at hline
  rw [← slicedPosition?_eq h, lookedUpPosition?, slicedPosition?, startIndex?_eq, Option.bind_eq_bind,
    Option.bind_some, getElem?_lineStarts, hline, Array.getD_eq_getD_getElem?, hline]
  rfl

theorem slice?_of_split {before between after : List Char} (h : source.text.toList = before ++ (between ++ after)) :
    source.slice? ⟨byteLength before, byteLength (before ++ between)⟩ = some (String.ofList between) := by
  have hstart : source.isBoundary (byteLength before) = true := by
    show isBoundaryOf _ source.text.toList = true
    rw [h, isBoundaryOf_byteLength]
  have hstop : source.isBoundary (byteLength (before ++ between)) = true := by
    show isBoundaryOf _ source.text.toList = true
    rw [h, ← List.append_assoc, isBoundaryOf_byteLength]
  unfold slice? slice
  rw [if_pos ⟨byteLength_append before between ▸ Nat.le_add_right _ _, hstart, hstop⟩, h, dropBytes_byteLength,
    byteLength_append, Nat.add_sub_cancel_left, takeBytes_byteLength]

/-- What is cut out for a line is its text. -/
theorem cutLineText?_eq (source : Source) (line : Nat) : source.cutLineText? line = source.lineText? line := by
  cases line with
  | zero => rfl
  | succ index =>
    rw [cutLineText?, lineText?, if_neg (Nat.succ_ne_zero index), Nat.add_sub_cancel, getElem?_lineStarts,
      getElem?_lineStarts]
    cases hline : source.lines[index]? with
    | none => rfl
    | some line =>
      rw [getElem?_lines] at hline
      obtain ⟨before, after, htext, hstart, hnext⟩ := Line.standsIn_of_split hline
      rw [Nat.zero_add] at hstart
      rw [← getElem?_lines] at hnext
      have hstop : ((source.lines[index + 1]?.map Line.start).map (· - 1)).getD source.size =
          byteLength (before ++ line.chars) := by
        rw [byteLength_append, ← hstart]
        rcases hnext with ⟨hnone, rfl⟩ | ⟨next, hsome, hnext⟩
        · rw [hnone, hstart, ← byteLength_append, ← List.append_nil line.chars, ← htext]
          rfl
        · rw [hsome, Option.map_some, Option.map_some, Option.getD_some, hnext, Nat.add_sub_cancel]
      rw [Option.map_some, Option.map_some, Option.bind_eq_bind, Option.bind_some, hstop, hstart]
      dsimp only
      rw [slice?_of_split htext, Option.bind_eq_bind, Option.bind_some, String.toList_ofList]
      rfl

end Source

/-! ## The order of places -/

instance : Std.TransOrd Position :=
  inferInstanceAs (Std.TransCmp (compareLex (compareOn Position.line) (compareOn Position.column)))

theorem Position.compare_eq_lt_iff {p q : Position} :
    compare p q = .lt ↔ p.line < q.line ∨ p.line = q.line ∧ p.column < q.column := by
  show (compare p.line q.line).then (compare p.column q.column) = .lt ↔ _
  rw [Ordering.then_eq_lt, Nat.compare_eq_lt, Nat.compare_eq_eq, Nat.compare_eq_lt]

namespace Source

variable {source : Source} {offset : Nat}

/-- Behind some more characters a place is later. -/
theorem position_lt {before mid after : List Char} (h : source.text.toList = before ++ (mid ++ after))
    (hmid : mid ≠ []) :
    compare (source.position (byteLength before)) (source.position (byteLength (before ++ mid))) = .lt := by
  have hsplit : source.text.toList = (before ++ mid) ++ after := by rw [h, List.append_assoc]
  rw [position_byteLength h, position_byteLength hsplit, Position.compare_eq_lt_iff, List.count_append,
    List.reverse_append]
  dsimp only
  by_cases hfeed : '\n' ∈ mid
  · have hcount := List.count_pos_iff.2 hfeed
    omega
  · have hplain : ∀ c ∈ mid.reverse, (decide (c ≠ '\n')) = true := by
      intro c hc
      have hne : c ≠ '\n' := fun heq => hfeed (heq ▸ List.mem_reverse.1 hc)
      simpa using hne
    have hlength := List.length_pos_iff.2 hmid
    rw [List.takeWhile_append_of_pos hplain, List.length_append, List.length_reverse, List.count_eq_zero.2 hfeed]
    omega

theorem position_lt_of_lt {later : Nat} (h : source.isBoundary offset = true) (h' : source.isBoundary later = true)
    (hlt : offset < later) : compare (source.position offset) (source.position later) = .lt := by
  obtain ⟨before, after, htext, rfl⟩ := exists_of_isBoundaryOf h
  obtain ⟨before', after', htext', rfl⟩ := exists_of_isBoundaryOf h'
  obtain ⟨mid, rfl, rfl⟩ := split_of_byteLength_le (htext.symm.trans htext') (Nat.le_of_lt hlt)
  refine position_lt htext ?_
  rintro rfl
  rw [List.append_nil] at hlt
  exact absurd hlt (Nat.lt_irrefl _)

/-- Places are in the order of their offsets. -/
theorem compare_position {other : Nat} (h : source.isBoundary offset = true) (h' : source.isBoundary other = true) :
    compare (source.position offset) (source.position other) = compare offset other := by
  rcases Nat.lt_trichotomy offset other with hlt | rfl | hgt
  · rw [position_lt_of_lt h h' hlt, Nat.compare_eq_lt.2 hlt]
  · rw [Std.ReflOrd.compare_self, Std.ReflOrd.compare_self]
  · rw [Std.OrientedOrd.eq_swap, position_lt_of_lt h' h hgt, Nat.compare_eq_gt.2 hgt]
    rfl

/-! ## The character at a place -/

/-- The characters start with the end of their line: there is nothing before the line feed, or the end of
the text, but carriage returns. -/
def AtLineEnd (chars : List Char) : Prop := ∀ d ∈ chars.takeWhile (· ≠ '\n'), d = '\r'

instance (chars : List Char) : Decidable (AtLineEnd chars) :=
  decidable_of_iff ((chars.takeWhile (· ≠ '\n')).all (· = '\r') = true) (by simp [AtLineEnd])

/-- The line of a place has the character there that stands at the place in the text, unless the line is
over up to its carriage returns. -/
theorem exists_lineText_of_char {before rest : List Char} {c : Char} (h : source.text.toList = before ++ c :: rest)
    (hinside : ¬ AtLineEnd (c :: rest)) :
    ∃ line, source.lineText? (source.position (byteLength before)).line = some line ∧
      line.toList[(source.position (byteLength before)).column - 1]? = some c := by
  obtain ⟨line, first, kept, more, behind, hline, hcut, rfl, hchars, hrest⟩ := exists_line h
  rw [position_of_line rfl hline hcut hchars]
  have hplain : ∀ d ∈ more, decide (d ≠ '\n') = true := by
    intro d hd
    have hne : d ≠ '\n' := fun heq => hcut.plain (by rw [hchars, ← heq]; exact List.mem_append_right kept hd)
    simpa using hne
  have hbehind : behind.head?.any (· ≠ '\n') = false := by
    cases behind with
    | nil => rfl
    | cons d behind => simp [hcut.behind_starts d rfl]
  rw [AtLineEnd, hrest, takeWhile_run hplain hbehind] at hinside
  push Not at hinside
  obtain ⟨d, hd, hne⟩ := hinside
  obtain ⟨inner, trail, rfl⟩ := List.append_of_mem hd
  have hkept : Text.dropTrailing (· == '\r') line.chars =
      kept ++ (inner ++ [d]) ++ Text.dropTrailing (· == '\r') trail := by
    rw [hchars, show kept ++ (inner ++ d :: trail) = kept ++ (inner ++ [d]) ++ trail by simp]
    refine Text.dropTrailing_append (fun e he => ?_) trail
    rw [← List.append_assoc, List.getLast?_concat, Option.mem_some_iff] at he
    simpa [← he] using hne
  have hfirst : (inner ++ [d]).head? = some c := by
    cases inner <;> exact congrArg some (List.cons.inj hrest).1.symm
  refine ⟨String.ofList (Text.dropTrailing (· == '\r') line.chars), ?_, ?_⟩
  · rw [lineText?, if_neg (Nat.succ_ne_zero _), Nat.add_sub_cancel, hline, Option.map_some]
  · rw [String.toList_ofList, hkept, Nat.add_sub_cancel, List.append_assoc, List.getElem?_append_right (Nat.le_refl _),
      Nat.sub_self, ← List.head?_eq_getElem?, List.head?_append, hfirst, Option.some_or]

end Source

/-! ## Steps and nodes -/

/-- The place where a step finds something: the start of a lexeme or of a fault, or the end. -/
def Step.start : Step → Mark
  | .lexeme l _ => l.start
  | .fault f _ => f.start
  | .finish after => after.mark

theorem Cursor.placedIn_start (text : String) (calls : Nat) :
    ((Cursor.ofText text).skip calls).next.start.PlacedIn text := by
  obtain ⟨consumed, hover⟩ := (Cursor.over_ofText text).skip calls
  have hfollows := hover.next.2
  cases hnext : ((Cursor.ofText text).skip calls).next with
  | lexeme l after =>
    rw [hnext] at hfollows
    exact hfollows.1.start_placed
  | fault f after =>
    rw [hnext] at hfollows
    exact hfollows.1.start_placed
  | finish after =>
    rw [hnext] at hfollows
    exact hfollows.placed

section

variable {fileName text : String} {doc : Document} {n m : Node}

/-- Locations in one document are in the order of their bytes. -/
theorem Document.compare_location (doc : Document) (a b : Span) :
    compare (doc.location a) (doc.location b) = compare a b := by
  show (compare doc.fileName doc.fileName).then (compare a b) = _
  rw [Std.ReflOrd.compare_self]
  rfl

/-- The extents of nodes are in the order of their bytes. -/
theorem compare_extent_of_parse (h : parse fileName text = .ok doc) (hn : n ∈ doc.nodes) (hm : m ∈ doc.nodes) :
    compare (doc.source.extent n.span) (doc.source.extent m.span) = compare n.span m.span := by
  obtain ⟨hstart, hstop⟩ := boundaries_of_parse h hn
  obtain ⟨hstart', hstop'⟩ := boundaries_of_parse h hm
  show (compare (doc.source.position _) (doc.source.position _)).then
    (compare (doc.source.position _) (doc.source.position _)) = _
  rw [Source.compare_position hstart hstart', Source.compare_position hstop hstop']
  rfl

end

/-- Places in a text. At every boundary the line and the column that are looked up exist and are counted by
the line feeds and the characters before it; they are those that reading the text finds for whatever starts
there; later boundaries have later places; and the line of the place has there the character behind the
boundary, unless that belongs to the end of the line. The text of every line is what is cut out for it, and
the locations of the nodes of a document are in the order of their places. -/
theorem places_of_text (text : String) :
    let source := Source.ofText text
    (∀ offset, source.isBoundary offset = true →
      let before := (source.slice ⟨0, offset⟩).toList
      let behind := (source.slice ⟨offset, source.size⟩).toList
      let place := source.position offset
      source.lookedUpPosition? offset = some place ∧
        place = ⟨1 + before.count '\n', 1 + (before.reverse.takeWhile (· ≠ '\n')).length⟩ ∧
        (∀ calls, let found := ((Cursor.ofText text).skip calls).next.start
          found.offset = offset → found.position = place) ∧
        (∀ later, source.isBoundary later = true → offset < later → compare place (source.position later) = .lt) ∧
        (∀ c rest, behind = c :: rest → ¬ Source.AtLineEnd behind →
          ∃ line, source.lineText? place.line = some line ∧ line.toList[place.column - 1]? = some c)) ∧
      (∀ line, source.cutLineText? line = source.lineText? line) ∧
      ∀ fileName doc, parse fileName text = .ok doc → ∀ n ∈ doc.nodes, ∀ m ∈ doc.nodes,
        compare (doc.location n.span) (doc.location m.span) =
            compare (doc.source.extent n.span) (doc.source.extent m.span) ∧
          (compare (doc.location n.span) (doc.location m.span) = .eq ↔ doc.location n.span = doc.location m.span) := by
  intro source
  refine ⟨fun offset hoffset => ?_, source.cutLineText?_eq, fun fileName doc h n hn m hm => ⟨?_, ?_⟩⟩
  · obtain ⟨before, behind, htext, rfl⟩ := exists_of_isBoundaryOf hoffset
    have hbefore : (source.slice ⟨0, byteLength before⟩).toList = before := @toList_slice text [] before behind htext
    have hbehind : (source.slice ⟨byteLength before, source.size⟩).toList = behind := toList_slice_size htext
    rw [hbefore, hbehind]
    refine ⟨Source.lookedUpPosition?_eq hoffset, Source.position_byteLength htext, fun calls hfound => ?_,
      fun later hlater hlt => Source.position_lt_of_lt hoffset hlater hlt, ?_⟩
    · rw [← hfound]
      exact (Source.position_of_placed (Cursor.placedIn_start text calls)).symm
    · rintro c rest rfl hinside
      exact Source.exists_lineText_of_char htext hinside
  · rw [Document.compare_location, compare_extent_of_parse h hn hm]
  · constructor
    · intro hequal
      rw [Document.compare_location] at hequal
      rw [Span.eq_of_compare hequal]
    · intro hsame
      rw [hsame, Std.ReflOrd.compare_self]

/-- Behind a line that ends with a carriage return, among characters of more than one byte. -/
theorem places_of_text_accents : ∃ doc, parse "m.cs" "é;\r\n ü(ñ);" = .ok doc ∧ doc.nodes.length = 9 ∧
    (Source.ofText "é;\r\n ü(ñ);").lookedUpPosition? 9 = some ⟨2, 4⟩ ∧
    ((Cursor.ofText "é;\r\n ü(ñ);").skip 4).next.start.position = ⟨2, 4⟩ ∧
    (∃ line, (Source.ofText "é;\r\n ü(ñ);").lineText? 2 = some line ∧ line.toList[3]? = some 'ñ') ∧
    ∀ n ∈ doc.nodes, ∀ m ∈ doc.nodes,
      (compare (doc.location n.span) (doc.location m.span) = .eq ↔ doc.location n.span = doc.location m.span) := by
  have hread : (parse "m.cs" "é;\r\n ü(ñ);").toOption.map (·.nodes.length) = some 9 := by decide +kernel
  obtain ⟨doc, hdoc, hlength⟩ := Option.map_eq_some_iff.1 hread
  obtain ⟨hplaces, -, hnodes⟩ := places_of_text "é;\r\n ü(ñ);"
  obtain ⟨hlookedUp, -, hfound, -, hchar⟩ := hplaces 9 (by decide +kernel)
  have hplace : (Source.ofText "é;\r\n ü(ñ);").position 9 = ⟨2, 4⟩ := by decide +kernel
  rw [hplace] at hlookedUp hfound hchar
  have hparsed := parse_of_toOption hdoc
  exact ⟨doc, hparsed, hlength, hlookedUp, hfound 4 (by decide +kernel),
    hchar 'ñ' [')', ';'] (by decide +kernel) (by decide +kernel),
    fun n hn m hm => (hnodes "m.cs" doc hparsed n hn m hm).2⟩

end LetLint
