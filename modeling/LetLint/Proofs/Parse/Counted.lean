/-
Reading with the bytes counted away. Some tokens make a text of their own, in which each token is
one byte and nothing stands between them, so that its offsets count tokens. Reading this counted
text and reading a text with the same tokens go in step, and what is made of the text is what is
made of the counted one with its spans moved: the start of a token to where the text has the token,
and the end likewise. So a text is faulty as often as its counted one, and its tree is the counted
tree, moved.
-/
import LetLint.Proofs.Parse.Accepted
import LetLint.Proofs.Parse.Simulation
import LetLint.Proofs.Token.Run
import LetLint.Proofs.Tree.Relocation

namespace LetLint

/-! ## Offsets of tokens -/

theorem lastStop_concat (stop : Nat) (ls : List Lexeme) (l : Lexeme) : lastStop stop (ls ++ [l]) = l.stop := by
  induction ls generalizing stop with
  | nil => rfl
  | cons m ls ih => exact ih m.stop

namespace Tokens

/-- The tokens without their places. -/
def words (tokens : Tokens) : List Token := tokens.lexemes.map (·.token)

/-- The offset at which the token of an index starts, or the end behind all tokens. -/
def startAt (tokens : Tokens) (i : Nat) : Nat := (tokens.lexemes[i]?.map (·.start.offset)).getD tokens.finish.offset

/-- The offset at which the last of the first tokens ends. -/
def stopAt (tokens : Tokens) (i : Nat) : Nat := lastStop 0 (tokens.lexemes.take i)

/-- The stream behind the first tokens. -/
def streamAt (tokens : Tokens) (i : Nat) : TokenStream := ⟨tokens.lexemes.drop i, tokens.finish, tokens.stopAt i⟩

variable {tokens : Tokens} {i j : Nat} {l : Lexeme}

theorem startAt_of_getElem? (h : tokens.lexemes[i]? = some l) : tokens.startAt i = l.start.offset := by
  unfold startAt
  rw [h]
  rfl

theorem stopAt_succ (h : tokens.lexemes[i]? = some l) : tokens.stopAt (i + 1) = l.stop := by
  obtain ⟨hi, rfl⟩ := List.getElem?_eq_some_iff.1 h
  rw [stopAt, ← List.take_concat_get hi, List.concat_eq_append, lastStop_concat]

@[simp] theorem offset_place_streamAt : (tokens.streamAt i).place.offset = tokens.startAt i := by
  unfold streamAt TokenStream.place
  rcases hrest : tokens.lexemes.drop i with _ | ⟨l, rest⟩
  · rw [startAt, List.getElem?_eq_none (List.drop_eq_nil_iff.1 hrest)]
    rfl
  · have hl : tokens.lexemes[i]? = some l := by
      rw [← List.head?_drop, hrest, List.head?_cons]
    exact (startAt_of_getElem? hl).symm

theorem advance_streamAt (hi : i < tokens.lexemes.length) :
    (tokens.streamAt i).advance = tokens.streamAt (i + 1) := by
  have hl := List.getElem?_eq_getElem hi
  unfold streamAt TokenStream.advance
  rw [List.drop_eq_getElem_cons hi]
  dsimp only
  rw [stopAt_succ hl]

theorem advance_streamAt_length :
    (tokens.streamAt tokens.lexemes.length).advance = tokens.streamAt tokens.lexemes.length := by
  unfold streamAt TokenStream.advance
  rw [List.drop_length]

theorem current?_streamAt : (tokens.streamAt i).current? = tokens.words[i]? := by
  unfold streamAt TokenStream.current? words
  rw [List.head?_drop, List.getElem?_map]

/-- The first tokens end before all others start. -/
theorem stopAt_le_startAt (h : Laid 0 tokens.finish.offset tokens.lexemes) (hij : i ≤ j) :
    tokens.stopAt i ≤ tokens.startAt j := by
  rw [← List.take_append_drop i tokens.lexemes] at h
  obtain ⟨mid, hfirst, hrest⟩ := Laid.append_iff.1 h
  refine Nat.le_trans hfirst.le_lastStop.2.1 ?_
  rcases hl : tokens.lexemes[j]? with _ | l
  · rw [startAt, hl]
    exact hrest.le
  · rw [startAt_of_getElem? hl]
    refine (hrest.of_mem (List.mem_of_getElem? (i := j - i) ?_)).1
    rw [List.getElem?_drop, Nat.add_sub_cancel' hij, hl]

/-! ## Counted tokens -/

/-- The tokens, each one byte long and directly behind the one before. -/
def counted (words : List Token) : Tokens :=
  ⟨words.mapIdx fun i word => ⟨word, ⟨i, 1, i + 1⟩, i + 1⟩, ⟨words.length, 1, words.length + 1⟩⟩

variable {words : List Token}

@[simp] theorem length_counted (words : List Token) : (counted words).lexemes.length = words.length :=
  List.length_mapIdx

@[simp] theorem words_counted (words : List Token) : (counted words).words = words := by
  apply List.ext_getElem?
  intro i
  simp [Tokens.words, counted, Function.comp_def]

theorem getElem?_counted (words : List Token) (i : Nat) :
    (counted words).lexemes[i]? = words[i]?.map fun word => ⟨word, ⟨i, 1, i + 1⟩, i + 1⟩ := List.getElem?_mapIdx

theorem startAt_counted (hi : i ≤ words.length) : (counted words).startAt i = i := by
  rw [startAt, getElem?_counted]
  rcases Nat.lt_or_eq_of_le hi with hi | rfl
  · rw [List.getElem?_eq_getElem hi]
    rfl
  · rw [List.getElem?_eq_none (Nat.le_refl _)]
    rfl

theorem stopAt_counted (hi : i ≤ words.length) : (counted words).stopAt i = i := by
  cases i with
  | zero => rfl
  | succ i =>
    have hl := getElem?_counted words i
    rw [List.getElem?_eq_getElem hi] at hl
    exact stopAt_succ hl

/-! ## Places of counted spans -/

/-- Where the bytes stand that a counted span counts. A span that counts more than there is stands for
the whole text. -/
def place (tokens : Tokens) (span : Span) : Span :=
  if tokens.lexemes.length < span.stop then ⟨0, tokens.finish.offset⟩
  else ⟨tokens.startAt span.start, max (tokens.stopAt span.stop) (tokens.startAt span.start)⟩

theorem place_of_le (h : Laid 0 tokens.finish.offset tokens.lexemes) (hi : i ≤ tokens.lexemes.length)
    (hj : j ≤ tokens.lexemes.length) :
    tokens.place ⟨j, max i j⟩ = ⟨tokens.startAt j, max (tokens.stopAt i) (tokens.startAt j)⟩ := by
  unfold place
  rw [if_neg (by simp only [Nat.not_lt]; exact Nat.max_le.2 ⟨hi, hj⟩)]
  dsimp only
  congr 1
  rcases Nat.le_total j i with hle | hle
  · rw [Nat.max_eq_left hle]
  · -- an empty span stays empty
    have h1 := stopAt_le_startAt h hle
    have h2 := stopAt_le_startAt h (Nat.le_refl j)
    rw [Nat.max_eq_right hle, Nat.max_eq_right h1, Nat.max_eq_right h2]

/-- A token that is counted stands where the text has it. -/
theorem place_one (h : Laid 0 tokens.finish.offset tokens.lexemes) (hl : tokens.lexemes[i]? = some l) :
    tokens.place ⟨i, i + 1⟩ = l.span := by
  have hi := (List.getElem?_eq_some_iff.1 hl).1
  have hlt := (h.of_mem (List.mem_of_getElem? hl)).2
  unfold place
  rw [if_neg (Nat.not_lt.2 hi)]
  dsimp only
  rw [stopAt_succ hl, startAt_of_getElem? hl, Nat.max_eq_left (Nat.le_of_lt hlt)]
  rfl

end Tokens

/-! ## Reading in step -/

/-- The tree is the counted one, moved to where the text has its tokens. -/
structure Moved (tokens : Tokens) (t u : Tree) : Prop where
  eq : u = t.mapSpan tokens.place
  start_le : t.span.start ≤ tokens.lexemes.length
  stop_le : t.span.stop ≤ tokens.lexemes.length

/-- Both streams stand behind as many tokens, and the trees are counted ones and these moved. -/
structure Placed (tokens : Tokens) (i : Nat) (ps : List (Tree × Tree)) (s t : TokenStream) : Prop where
  le : i ≤ tokens.lexemes.length
  counted_eq : s = (Tokens.counted tokens.words).streamAt i
  stream_eq : t = tokens.streamAt i
  moved : ∀ p ∈ ps, Moved tokens p.1 p.2

theorem Moved.start_eq {tokens : Tokens} {t u : Tree} (h : Moved tokens t u) :
    u.span.start = tokens.startAt t.span.start := by
  rw [h.eq, Tree.span_mapSpan, Tokens.place, if_neg (Nat.not_lt.2 h.stop_le)]

namespace Placed

open Tokens

variable {tokens : Tokens} {i j : Nat} {ps qs : List (Tree × Tree)} {s t : TokenStream}

theorem le_words (h : Placed tokens i ps s t) : i ≤ tokens.words.length := by
  rw [words, List.length_map]
  exact h.le

theorem alike (h : Placed tokens i ps s t) : AllAlike s.ahead t.ahead := by
  have hwords : (counted tokens.words).lexemes.map (·.token) = tokens.lexemes.map (·.token) :=
    words_counted tokens.words
  have hmap := congrArg (List.drop i) hwords
  rw [← List.map_drop, ← List.map_drop] at hmap
  rw [h.counted_eq, h.stream_eq]
  refine List.Forall₂.imp (R := fun l m : Lexeme => l.token = m.token) (fun _ _ => congrArg Token.form) ?_
  rwa [← List.forall₂_eq_eq_eq, List.forall₂_map_left_iff, List.forall₂_map_right_iff] at hmap

theorem place (h : Placed tokens i ps s t) : s.place.offset = i ∧ t.place.offset = tokens.startAt i := by
  rw [h.counted_eq, h.stream_eq, offset_place_streamAt, offset_place_streamAt, startAt_counted h.le_words]
  exact ⟨rfl, rfl⟩

theorem lastEnd (h : Placed tokens i ps s t) : s.lastEnd = i ∧ t.lastEnd = tokens.stopAt i := by
  rw [h.counted_eq, h.stream_eq]
  exact ⟨stopAt_counted h.le_words, rfl⟩

/-- Behind the last token both streams stay. -/
theorem advance (h : Placed tokens i ps s t) : ∃ k, Placed tokens k ps s.advance t.advance := by
  have hlength : (counted tokens.words).lexemes.length = tokens.lexemes.length := by simp [words]
  obtain ⟨hle, rfl, rfl, hmoved⟩ := h
  rcases Nat.lt_or_eq_of_le hle with hi | rfl
  · exact ⟨i + 1, hi, advance_streamAt (hlength ▸ hi), advance_streamAt hi, hmoved⟩
  · refine ⟨_, Nat.le_refl _, ?_, advance_streamAt_length, hmoved⟩
    rw [← hlength]
    exact advance_streamAt_length

theorem append (h : Placed tokens i ps s t) {n m : Tree} (hnew : Moved tokens n m) :
    Placed tokens i (ps ++ [(n, m)]) s t := by
  refine ⟨h.le, h.counted_eq, h.stream_eq, fun p hp => ?_⟩
  rcases List.mem_append.1 hp with hp | hp
  · exact h.moved p hp
  · rw [List.mem_singleton.1 hp]
    exact hnew

/-- What a tree covers that starts with one token and ends with another is moved with the tokens. -/
theorem place_close (hlaid : Laid 0 tokens.finish.offset tokens.lexemes) (h : Placed tokens i ps s t)
    (hj : j ≤ tokens.lexemes.length) :
    tokens.place ⟨j, max s.lastEnd j⟩ = ⟨tokens.startAt j, max t.lastEnd (tokens.startAt j)⟩ := by
  rw [h.lastEnd.1, h.lastEnd.2]
  exact place_of_le hlaid h.le hj

theorem leaf (hlaid : Laid 0 tokens.finish.offset tokens.lexemes) (h : Placed tokens i ps s t) (atom : Atom) :
    ∃ k n s' m t', Parse.leaf atom s = .ok n s' ∧ Parse.leaf atom t = .ok m t' ∧
      Placed tokens k (ps ++ [(n, m)]) s' t' := by
  obtain ⟨k, hnext⟩ := h.advance
  refine ⟨k, _, _, _, _, rfl, rfl, hnext.append ⟨?_, ?_, ?_⟩⟩
  all_goals simp only [Builder.stream_eq, Builder.advance_eq, h.place.1, h.place.2]
  · have hplace := hnext.place_close hlaid h.le
    show Tree.leaf atom _ = .leaf atom (tokens.place _)
    rw [hplace]
  · exact h.le
  · have hstop := hnext.lastEnd.1
    show max _ _ ≤ _
    rw [hstop]
    exact Nat.max_le.2 ⟨hnext.le, h.le⟩

theorem node (hlaid : Laid 0 tokens.finish.offset tokens.lexemes) (h : Placed tokens i (ps ++ qs) s t) (kind : Kind)
    (hj : j ≤ tokens.lexemes.length) :
    ∃ n s' m t', Parse.close kind j (qs.map Prod.fst) s = .ok n s' ∧
      Parse.close kind (tokens.startAt j) (qs.map Prod.snd) t = .ok m t' ∧ Placed tokens i (ps ++ [(n, m)]) s' t' := by
  have hbefore : Placed tokens i ps s t := ⟨h.le, h.counted_eq, h.stream_eq, fun p hp => h.moved p (by simp [hp])⟩
  have hparts : qs.map Prod.snd = Tree.mapSpanAll tokens.place (qs.map Prod.fst) := by
    rw [Tree.mapSpanAll_eq, List.map_map]
    exact List.map_congr_left fun p hp => (h.moved p (List.mem_append_right ps hp)).eq
  refine ⟨_, _, _, _, rfl, rfl, hbefore.append ⟨?_, hj, ?_⟩⟩
  · show Tree.node kind _ _ = .node kind (tokens.place _) _
    rw [hparts, Builder.stream_eq, Builder.stream_eq, h.place_close hlaid hj]
  · show max s.lastEnd j ≤ _
    rw [h.lastEnd.1]
    exact Nat.max_le.2 ⟨h.le, hj⟩

end Placed

/-- Counted trees, and the same trees where the text has their tokens. -/
def placing {tokens : Tokens} (hlaid : Laid 0 tokens.finish.offset tokens.lexemes) :
    Simulation Unit TokenStream TokenStream where
  rel _ ps s t := ∃ i, Placed tokens i ps s t
  starts j k := j ≤ tokens.lexemes.length ∧ k = tokens.startAt j
  alike := fun ⟨_, h⟩ => h.alike
  place := fun ⟨_, h⟩ => ⟨h.place.1 ▸ h.le, by rw [Builder.stream_eq, Builder.stream_eq, h.place.1, h.place.2]⟩
  startOf := fun ⟨_, h⟩ hmem => ⟨(h.moved _ hmem).start_le, (h.moved _ hmem).start_eq⟩
  advance := fun ⟨_, h⟩ => h.advance
  leaf := by
    rintro _ _ s t x y a b ⟨i, h⟩ hs ht ha hb
    have hwords : s.current? = t.current? := by
      rw [h.counted_eq, h.stream_eq, Tokens.current?_streamAt, Tokens.current?_streamAt, Tokens.words_counted]
    cases hs.symm.trans (hwords.trans ht)
    cases ha.symm.trans hb
    obtain ⟨k, n, s', m, t', h1, h2, hnext⟩ := h.leaf hlaid a
    exact ⟨n, s', m, t', h1, h2, k, hnext⟩
  node := by
    rintro _ _ _ _ _ j _ kind ⟨i, h⟩ ⟨hj, rfl⟩
    obtain ⟨n, s', m, t', h1, h2, hnext⟩ := h.node hlaid kind hj
    exact ⟨n, s', m, t', h1, h2, i, hnext⟩
  forget := fun ⟨i, h⟩ => ⟨(), i, h.le, h.counted_eq, h.stream_eq, by simp⟩

/-! ## Texts -/

namespace Counted

/-- What is read of counted tokens. -/
def items (words : List Token) : Items TokenStream Tree := Parse.items nestingCap (.ofTokens (.counted words))

/-- The tree of counted tokens. Its root counts one more token than there is. -/
def tree (words : List Token) : Tree := .node .unit ⟨0, words.length + 1⟩ (items words).nodes

/-- The tree of counted tokens as a document without a name or a text. -/
def document (words : List Token) : Document := ⟨"", .ofText "", tree words⟩

/-- A name in the tree of counted tokens covers the one token that it is. -/
theorem tree_eq_of_identifier {words : List Token} (hnone : (items words).faults = []) {n : Node}
    (hn : n ∈ (document words).nodes) (hk : n.kind = .identifier) :
    ∃ i name, words[i]? = some (.identifier name) ∧ n.tree = .leaf (.identifier name) ⟨i, i + 1⟩ := by
  obtain ⟨derived, hlexemes, htrees, -⟩ := Parse.itemsFor_derived _ _ (Nat.le_refl _) hnone
  have hmem : n.tree ∈ (Tree.preorderAll (derived.map (·.tree))).filter (·.kind.isAtomic) := by
    have htree := List.mem_map_of_mem (f := Node.tree) hn
    rw [Document.map_tree_nodes, Tree.preorder_eq, List.mem_cons] at htree
    refine List.mem_filter.2 ⟨?_, by rw [show n.tree.kind = .identifier from hk]; rfl⟩
    rcases htree with htop | hbelow
    · have htop' : n.tree.kind = .unit := congrArg Tree.kind htop
      cases htop'.symm.trans hk
    · rw [← htrees]
      exact hbelow
  rw [DerivedItem.leaves, ← hlexemes, List.mem_filterMap] at hmem
  obtain ⟨l, hl, hleaf⟩ := hmem
  obtain ⟨i, hi⟩ := List.getElem?_of_mem hl
  obtain ⟨word, hword, rfl⟩ := Option.map_eq_some_iff.1 ((Tokens.getElem?_counted words i).symm.trans hi)
  obtain ⟨name, hname, htree⟩ := Lexeme.identifier_of_leaf? hleaf hk
  refine ⟨i, name, hword.trans (congrArg some hname), htree.trans ?_⟩
  simp [cover, lastStop]

end Counted

section

variable {text : String} {tokens : Tokens}

theorem laid_finish_of_tokenize (h : tokenize text = .ok tokens) : Laid 0 tokens.finish.offset tokens.lexemes := by
  rw [finish_of_tokenize h]
  exact laid_of_tokenize h

/-- The items of a text are faulty as often as the counted ones, and if none is, they are these, moved. -/
theorem items_moved (h : tokenize text = .ok tokens) :
    (Counted.items tokens.words).faults.length = (Parse.items nestingCap (.ofTokens tokens)).faults.length ∧
      ((Counted.items tokens.words).faults = [] → (Parse.items nestingCap (.ofTokens tokens)).nodes =
        Tree.mapSpanAll tokens.place (Counted.items tokens.words).nodes) := by
  have hstart : (placing (laid_finish_of_tokenize h)).rel () []
      (.ofTokens (.counted tokens.words)) (.ofTokens tokens) :=
    ⟨0, Nat.zero_le _, rfl, rfl, by simp⟩
  have hlength : (Tokens.counted tokens.words).lexemes.length = tokens.lexemes.length := by simp [Tokens.words]
  obtain ⟨hcount, hnodes⟩ := Simulation.itemsFor_agree nestingCap hlength hstart
  refine ⟨hcount, fun hnone => ?_⟩
  -- the items are the pairs that are still pending at the end
  obtain ⟨qs, hfst, hsnd, i, hplaced⟩ := hnodes hnone
  refine hsnd.trans ?_
  rw [show (Counted.items tokens.words).nodes = _ from hfst, Tree.mapSpanAll_eq, List.map_map]
  exact List.map_congr_left fun p hp => (hplaced.moved p hp).eq

/-- A text has as many faults as its counted tokens, and if there are none, its tree is the tree of
these, moved. -/
theorem parse_counted (h : tokenize text = .ok tokens) (fileName : String) :
    match parse fileName text with
    | .ok doc => (Counted.items tokens.words).faults = [] ∧
        doc = ⟨fileName, .ofText text, (Counted.tree tokens.words).mapSpan tokens.place⟩
    | .error faults => (Counted.items tokens.words).faults ≠ [] ∧
        faults.length = (Counted.items tokens.words).faults.length := by
  obtain ⟨hcount, hnodes⟩ := items_moved h
  unfold parse Session.read Session.readWithin
  rw [Session.ofText_eq h]
  dsimp only
  rw [List.nil_append, List.isEmpty_map]
  by_cases hnone : (Counted.items tokens.words).faults = []
  · have hempty : (Parse.items nestingCap (.ofTokens tokens)).faults = [] := by
      rw [hnone] at hcount
      exact List.eq_nil_of_length_eq_zero hcount.symm
    have hroot : tokens.place ⟨0, tokens.words.length + 1⟩ = ⟨0, (Source.ofText text).size⟩ := by
      rw [← finish_of_tokenize h, Tokens.place, if_pos (by simp [Tokens.words])]
    rw [if_pos (List.isEmpty_iff.2 hempty)]
    refine ⟨hnone, ?_⟩
    rw [hnodes hnone, Counted.tree, Tree.mapSpan, hroot]
  · have hempty : ¬ (Parse.items nestingCap (.ofTokens tokens)).faults.isEmpty = true := by
      rw [List.isEmpty_iff_length_eq_zero, ← hcount, List.length_eq_zero_iff]
      exact hnone
    rw [if_neg hempty]
    exact ⟨hnone, by rw [List.length_map, hcount]⟩

end

end LetLint
