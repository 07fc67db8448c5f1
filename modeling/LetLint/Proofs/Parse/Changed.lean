/-
Reading tokens that stand elsewhere and whose identifiers have other names. Reading compares no offsets
and never looks at what an identifier is called. So streams that agree but for these are read in step, and
the trees of the one are those of the other, renamed and then moved by as many bytes as the tokens are.
-/
import LetLint.Proofs.Parse.Simulation
import LetLint.Proofs.Token.Renaming
import LetLint.Proofs.Tree.Renaming

namespace LetLint

/-! ## Changed lexemes and trees -/

/-- The span some bytes further on. -/
def Span.shift (bytes : Nat) (span : Span) : Span := ⟨span.start + bytes, span.stop + bytes⟩

/-- The second lexeme is the first one some bytes further on, with another name if it is an identifier. -/
structure Lexeme.ChangedBy (bytes : Nat) (g : Span → String → String) (l m : Lexeme) : Prop where
  start_eq : m.start.offset = l.start.offset + bytes
  stop_eq : m.stop = l.stop + bytes
  token_eq : m.token = l.token.rename (g (cover [l]))

/-- The tree renamed, and then moved by some bytes. -/
def Tree.change (bytes : Nat) (g : Span → String → String) (t : Tree) : Tree := (t.rename g).mapSpan (.shift bytes)

theorem Token.form_rename (g : String → String) (token : Token) : (token.rename g).form = token.form := by
  cases token <;> rfl

theorem Token.rename_self (token : Token) : (token.rename fun name => name) = token := by
  cases token <;> rfl

/-- The atom of a changed token is the one of the token, changed. -/
theorem Token.leaf_change {bytes : Nat} {g : Span → String → String} {token : Token} {a b : Atom} {span : Span}
    (ha : token.atom? = some a) (hb : (token.rename (g span)).atom? = some b) :
    Tree.leaf b (span.shift bytes) = (Tree.leaf a span).change bytes g := by
  cases token with
  | identifier name =>
    cases ha
    cases hb
    rfl
  | keyword word => cases word <;> cases ha <;> cases hb <;> rfl
  | string _ | number _ =>
    cases ha
    cases hb
    rfl
  | punct _ => cases ha

/-- If all names are kept, the tree is moved. -/
theorem Tree.change_self (bytes : Nat) (t : Tree) : (t.change bytes fun _ name => name) = t.mapSpan (.shift bytes) := by
  rw [change, rename_eq_self _ t fun _ _ _ _ => rfl]

/-- If all spans are kept, the tree is renamed. -/
theorem Tree.change_zero (g : Span → String → String) (t : Tree) : t.change 0 g = t.rename g := mapSpan_self _

/-! ## Reading in step -/

/-- Both streams have the same tokens ahead, changed in the one, and so are the trees. -/
structure Changed (bytes : Nat) (g : Span → String → String) (ps : List (Tree × Tree)) (s t : TokenStream) : Prop where
  ahead : List.Forall₂ (Lexeme.ChangedBy bytes g) s.ahead t.ahead
  finish : t.finish.offset = s.finish.offset + bytes
  lastEnd : t.lastEnd = s.lastEnd + bytes
  trees : ∀ p ∈ ps, p.2 = p.1.change bytes g

namespace Changed

variable {bytes : Nat} {g : Span → String → String} {ps qs : List (Tree × Tree)} {s t : TokenStream}

theorem place (h : Changed bytes g ps s t) : t.place.offset = s.place.offset + bytes := by
  have hahead := h.ahead
  unfold TokenStream.place
  generalize s.ahead = ls at hahead
  generalize t.ahead = ms at hahead
  cases hahead with
  | nil => exact h.finish
  | cons hl _ => exact hl.start_eq

theorem advance (h : Changed bytes g ps s t) : Changed bytes g ps s.advance t.advance := by
  rcases s with ⟨ls, finish, lastEnd⟩
  rcases t with ⟨ms, finish', lastEnd'⟩
  obtain ⟨hahead, hfinish, hend, htrees⟩ := h
  cases hahead with
  | nil => exact ⟨.nil, hfinish, hend, htrees⟩
  | cons hl hrest => exact ⟨hrest, hfinish, hl.stop_eq, htrees⟩

/-- What a node covers that starts with one token and ends with the last one taken is moved with these. -/
theorem shift_close {start stop stop' : Nat} (h : stop' = stop + bytes) :
    (⟨start + bytes, max stop' (start + bytes)⟩ : Span) = Span.shift bytes ⟨start, max stop start⟩ := by
  rw [h, Nat.add_max_add_right]
  rfl

theorem append (h : Changed bytes g ps s t) {n m : Tree} (hnew : m = n.change bytes g) :
    Changed bytes g (ps ++ [(n, m)]) s t := by
  refine ⟨h.ahead, h.finish, h.lastEnd, fun p hp => ?_⟩
  rcases List.mem_append.1 hp with hp | hp
  · exact h.trees p hp
  · rw [List.mem_singleton.1 hp]
    exact hnew

theorem leaf (h : Changed bytes g ps s t) {x y : Token} {a b : Atom} (hs : s.current? = some x)
    (ht : t.current? = some y) (ha : x.atom? = some a) (hb : y.atom? = some b) :
    ∃ n s' m t', Parse.leaf a s = .ok n s' ∧ Parse.leaf b t = .ok m t' ∧ Changed bytes g (ps ++ [(n, m)]) s' t' := by
  refine ⟨_, _, _, _, rfl, rfl, h.advance.append ?_⟩
  rcases s with ⟨ls, finish, lastEnd⟩
  rcases t with ⟨ms, finish', lastEnd'⟩
  obtain ⟨hahead, -, -, -⟩ := h
  cases hahead with
  | nil => cases hs
  | @cons l m ls ms hl _ =>
    cases hs
    cases ht
    show Tree.leaf b ⟨m.start.offset, max m.stop m.start.offset⟩ = (Tree.leaf a (cover [l])).change bytes g
    rw [hl.start_eq, shift_close hl.stop_eq]
    exact Token.leaf_change ha (hl.token_eq ▸ hb)

theorem node (h : Changed bytes g (ps ++ qs) s t) (kind : Kind) (start : Nat) :
    ∃ n s' m t', Parse.close kind start (qs.map Prod.fst) s = .ok n s' ∧
      Parse.close kind (start + bytes) (qs.map Prod.snd) t = .ok m t' ∧ Changed bytes g (ps ++ [(n, m)]) s' t' := by
  -- the last of the pending pairs become the parts, those before stay pending
  have hbefore : Changed bytes g ps s t := ⟨h.ahead, h.finish, h.lastEnd, fun p hp => h.trees p (by simp [hp])⟩
  have hparts : qs.map Prod.snd =
      Tree.mapSpanAll (.shift bytes) (Tree.renameAll g (qs.map Prod.fst)) := by
    rw [Tree.mapSpanAll_eq, Tree.renameAll_eq, List.map_map, List.map_map]
    exact List.map_congr_left fun p hp => h.trees p (List.mem_append_right ps hp)
  refine ⟨_, _, _, _, rfl, rfl, hbefore.append ?_⟩
  show Tree.node kind ⟨start + bytes, max t.lastEnd (start + bytes)⟩ _ = _
  rw [shift_close h.lastEnd, hparts]
  rfl

end Changed

/-- Trees, and the same trees changed. -/
def changing (bytes : Nat) (g : Span → String → String) : Simulation Unit TokenStream TokenStream where
  rel _ ps s t := Changed bytes g ps s t
  starts i j := j = i + bytes
  alike h := h.ahead.imp fun l m hl => by
    rw [Lexeme.Alike, hl.token_eq, Token.form_rename]
  place h := h.place
  startOf h hmem := by
    have htree := congrArg (·.span.start) (h.trees _ hmem)
    exact htree.trans (by rw [Tree.change, Tree.span_mapSpan, Tree.span_rename]; rfl)
  advance h := h.advance
  leaf h hs ht ha hb := h.leaf hs ht ha hb
  node := by
    rintro _ _ _ _ _ i _ kind h rfl
    exact h.node kind i
  forget h := ⟨(), h.ahead, h.finish, h.lastEnd, by simp⟩

/-- Changed tokens are read as changed trees. -/
theorem items_changed {bytes : Nat} {g : Span → String → String} {s t : TokenStream} (h : Changed bytes g [] s t)
    (hnone : (Parse.items nestingCap s).faults = []) : (Parse.items nestingCap t).faults = [] ∧
      (Parse.items nestingCap t).nodes = (Parse.items nestingCap s).nodes.map (Tree.change bytes g) := by
  have hrel : (changing bytes g).rel () [] s t := h
  obtain ⟨hcount, hnodes⟩ := Simulation.itemsFor_agree nestingCap h.ahead.length_eq hrel
  obtain ⟨qs, hfst, hsnd, hchanged⟩ := hnodes hnone
  have hcount : 0 = (Parse.items nestingCap t).faults.length := (congrArg List.length hnone).symm.trans hcount
  refine ⟨List.eq_nil_of_length_eq_zero hcount.symm, hsnd.trans ?_⟩
  rw [show (Parse.items nestingCap s).nodes = _ from hfst, List.map_map]
  exact List.map_congr_left fun p hp => hchanged.trees p hp

end LetLint
