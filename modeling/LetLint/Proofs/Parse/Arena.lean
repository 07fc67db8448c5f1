/-
Reading into an arena. The nodes that are read into an arena are the trees that are read without
one, listed: a node is put behind its parts, which are the last nodes that have no parent yet, and
becomes their parent. So the arena of a document that is read holds the listed tree of the document
and nothing else, whatever the session read before.
-/
import LetLint.Parse.Arena
import LetLint.Proofs.Parse.Simulation
import LetLint.Proofs.Tree.Listing

namespace LetLint

/-! ## Putting a node behind its parts -/

theorem modify_append_cons {α : Type} (before : List α) (a : α) (after : List α) (f : α → α) :
    (before ++ a :: after).modify before.length f = before ++ f a :: after := by
  induction before with
  | nil => rfl
  | cons b before ih => rw [List.cons_append, List.length_cons, List.modify_succ_cons, ih, List.cons_append]

namespace Arena

open LetLint.Tree

variable {arena : Arena} {before : List Cell}

/-- The node that adopts a listed tree becomes the parent of its top. -/
theorem toList_adopt (parent : Nat) {t : Tree} {after : List Cell}
    (h : arena.cells.toList = before ++ (t.cells before.length none ++ after)) :
    (adopt parent arena (before.length + sizeAll t.children)).cells.toList =
      before ++ (t.cells before.length (some parent) ++ after) := by
  have hlength : before.length + sizeAll t.children =
      (before ++ cellsAll before.length (some (before.length + sizeAll t.children)) t.children).length := by
    rw [List.length_append, length_cellsAll]
  have hsplit : ∀ cell : Cell,
      before ++ (cellsAll before.length (some (before.length + sizeAll t.children)) t.children ++ [cell] ++ after) =
        before ++ cellsAll before.length (some (before.length + sizeAll t.children)) t.children ++ cell :: after := by
    intro cell
    simp
  unfold adopt
  rw [Array.toList_modify, h, cells_eq, cells_eq, hsplit, hsplit]
  nth_rewrite 2 [hlength]
  exact modify_append_cons _ _ _ _

/-- The node that adopts listed trees becomes the parent of their tops, and of nothing else. -/
theorem toList_foldl_adopt (parent : Nat) {ts : List Tree}
    (h : arena.cells.toList = before ++ cellsAll before.length none ts) :
    ((roots before.length ts).foldl (adopt parent) arena).cells.toList =
      before ++ cellsAll before.length (some parent) ts := by
  induction ts generalizing arena before with
  | nil => exact h
  | cons t ts ih =>
    have hfirst := toList_adopt parent h
    have hlength : (before ++ t.cells before.length (some parent)).length = before.length + t.size := by
      rw [List.length_append, length_cells]
    rw [← List.append_assoc, ← hlength] at hfirst
    have hrest := ih hfirst
    rw [hlength, List.append_assoc] at hrest
    exact hrest

theorem size_of_listed {ts : List Tree} (h : arena.cells.toList = before ++ cellsAll before.length none ts) :
    arena.size = before.length + sizeAll ts := by
  rw [Arena.size, ← Array.length_toList, h, List.length_append, length_cellsAll]

/-- A node that is put behind listed trees, over these, is listed itself. -/
theorem toList_put (kind : Kind) (span : Span) {ts : List Tree}
    (h : arena.cells.toList = before ++ cellsAll before.length none ts) :
    (arena.put kind span (roots before.length ts)).2.cells.toList =
      before ++ (Tree.node kind span ts).cells before.length none := by
  show (Array.push _ _).toList = _
  rw [Array.toList_push, toList_foldl_adopt _ h, size_of_listed h, List.append_assoc, Tree.cells]

theorem toList_put_leaf (atom : Atom) (span : Span) (arena : Arena) :
    (arena.put atom.kind span []).2.cells.toList =
      arena.cells.toList ++ (Tree.leaf atom span).cells arena.cells.toList.length none := by
  show (Array.push _ _).toList = _
  rw [Array.toList_push, Tree.cells]
  rfl

end Arena

/-! ## Trees and cells in step -/

/-- The trees are listed in the arena behind other cells, and the indices are those of their tops. -/
structure Listed (base : List Cell) (ps : List (Tree × Nat)) (s : TokenStream) (t : ArenaStream) : Prop where
  stream_eq : t.stream = s
  cells_eq : t.arena.cells.toList = base ++ Tree.cellsAll base.length none (ps.map Prod.fst)
  roots_eq : ps.map Prod.snd = Tree.roots base.length (ps.map Prod.fst)

namespace Listed

variable {base : List Cell} {ps qs : List (Tree × Nat)} {s : TokenStream} {t : ArenaStream}

theorem nil (t : ArenaStream) : Listed t.arena.cells.toList [] t.stream t :=
  ⟨rfl, (List.append_nil _).symm, rfl⟩

/-- Trees that are listed first can be taken for other cells. -/
theorem append_iff : Listed base (ps ++ qs) s t ↔ ps.map Prod.snd = Tree.roots base.length (ps.map Prod.fst) ∧
    Listed (base ++ Tree.cellsAll base.length none (ps.map Prod.fst)) qs s t := by
  have hlength : (base ++ Tree.cellsAll base.length none (ps.map Prod.fst)).length =
      base.length + Tree.sizeAll (ps.map Prod.fst) := by
    rw [List.length_append, Tree.length_cellsAll]
  have hcells : base ++ Tree.cellsAll base.length none ((ps ++ qs).map Prod.fst) =
      base ++ Tree.cellsAll base.length none (ps.map Prod.fst) ++
        Tree.cellsAll (base.length + Tree.sizeAll (ps.map Prod.fst)) none (qs.map Prod.fst) := by
    rw [List.map_append, Tree.cellsAll_append, List.append_assoc]
  have hroots : (ps ++ qs).map Prod.snd = Tree.roots base.length ((ps ++ qs).map Prod.fst) ↔
      ps.map Prod.snd = Tree.roots base.length (ps.map Prod.fst) ∧
        qs.map Prod.snd = Tree.roots (base.length + Tree.sizeAll (ps.map Prod.fst)) (qs.map Prod.fst) := by
    rw [List.map_append, List.map_append, Tree.roots_append]
    constructor
    · intro h
      exact List.append_inj h (by simp [Tree.roots])
    · rintro ⟨h1, h2⟩
      rw [h1, h2]
  constructor
  · rintro ⟨hs, hc, hr⟩
    exact ⟨(hroots.1 hr).1, hs, by rw [hc, hcells, hlength], by rw [(hroots.1 hr).2, hlength]⟩
  · rintro ⟨hp, hs, hc, hr⟩
    rw [hlength] at hc hr
    exact ⟨hs, by rw [hc, hcells], hroots.2 ⟨hp, hr⟩⟩

theorem startOf {n : Tree} {m : Nat} (h : Listed base ps s t) (hmem : (n, m) ∈ ps) :
    n.span.start = t.arena.startOf m := by
  obtain ⟨before, after, rfl⟩ := List.append_of_mem hmem
  obtain ⟨-, -, hcells, hroots⟩ := append_iff.1 h
  generalize base ++ Tree.cellsAll base.length none (before.map Prod.fst) = first at hcells hroots
  have hm : m = first.length + Tree.sizeAll n.children := (List.cons.inj hroots).1
  have htop : t.arena.cell? m = some ⟨n.kind, n.span, none, Tree.roots first.length n.children⟩ := by
    rw [Arena.cell?, ← Array.getElem?_toList, hcells, hm]
    exact Tree.getElem?_top first _ none n
  rw [Arena.startOf, htop]
  rfl

/-- A leaf of the next token is listed. -/
theorem leaf (h : Listed base ps s t) (atom : Atom) :
    ∃ n s' m t', Parse.leaf atom s = .ok n s' ∧ Parse.leaf atom t = .ok m t' ∧ Listed base (ps ++ [(n, m)]) s' t' := by
  obtain ⟨hs, hcells, hroots⟩ := h
  subst hs
  refine ⟨_, _, _, _, rfl, rfl, append_iff.2 ⟨hroots, rfl, ?_, ?_⟩⟩
  · rw [← hcells]
    refine (Arena.toList_put_leaf atom _ t.arena).trans ?_
    rw [List.map_singleton, Tree.cellsAll, Tree.cellsAll, List.append_nil]
    rfl
  · rw [← hcells, Array.length_toList]
    rfl

/-- A node over the trees that are listed last is listed. -/
theorem node {i : Nat} (h : Listed base (ps ++ qs) s t) (kind : Kind) :
    ∃ n s' m t', Parse.close kind i (qs.map Prod.fst) s = .ok n s' ∧
      Parse.close kind i (qs.map Prod.snd) t = .ok m t' ∧ Listed base (ps ++ [(n, m)]) s' t' := by
  obtain ⟨hroots, hs, hcells, hlast⟩ := append_iff.1 h
  subst hs
  refine ⟨_, _, _, _, rfl, rfl, append_iff.2 ⟨hroots, rfl, ?_, ?_⟩⟩
  · rw [hlast]
    refine (Arena.toList_put kind _ hcells).trans ?_
    rw [List.map_singleton, Tree.cellsAll, Tree.cellsAll, List.append_nil]
    rfl
  · show [t.arena.size] = _
    rw [Arena.size_of_listed hcells]
    rfl

end Listed

/-- Trees, and the same trees listed in an arena. -/
def listing : Simulation (List Cell) TokenStream ArenaStream where
  rel := Listed
  starts := Eq
  alike := by
    intro _ _ s t h
    cases h.stream_eq
    exact AllAlike.refl _
  place := by
    intro _ _ s t h
    cases h.stream_eq
    rfl
  startOf h hmem := h.startOf hmem
  advance h := ⟨congrArg TokenStream.advance h.stream_eq, h.cells_eq, h.roots_eq⟩
  leaf := by
    intro _ _ s t x y a b h hs ht ha hb
    cases h.stream_eq
    cases hs.symm.trans ht
    cases ha.symm.trans hb
    exact h.leaf a
  node := by
    rintro _ _ _ _ _ i _ kind h rfl
    exact h.node kind
  forget h := ⟨_, h.stream_eq ▸ Listed.nil _⟩

/-! ## Sessions -/

namespace ArenaSession

variable {cap : Nat} {session : Session} {fileName : String}

/-- A session that reads into an arena finds as many faults as one that does not. If there are none,
then its items are listed. -/
theorem items_listed (cap : Nat) (s : TokenStream) :
    (Parse.itemsFor cap s.ahead (⟨s, .empty⟩ : ArenaStream)).faults.length = (Parse.items cap s).faults.length ∧
      ((Parse.items cap s).faults = [] → ∃ qs, (Parse.items cap s).nodes = qs.map Prod.fst ∧
        (Parse.itemsFor cap s.ahead (⟨s, .empty⟩ : ArenaStream)).nodes = qs.map Prod.snd ∧
        Listed [] qs (Parse.items cap s).state (Parse.itemsFor cap s.ahead (⟨s, .empty⟩ : ArenaStream)).state) := by
  have hstart : listing.rel [] [] s ⟨s, .empty⟩ := Listed.nil ⟨s, .empty⟩
  obtain ⟨hcount, hnodes⟩ := Simulation.itemsFor_agree cap (rfl : s.ahead.length = s.ahead.length) hstart
  exact ⟨hcount.symm, hnodes⟩

/-- A root over listed items makes the listed document. -/
theorem put_root {qs : List (Tree × Nat)} {s : TokenStream} {t : ArenaStream} (h : Listed [] qs s t) (span : Span) :
    t.put .unit span (qs.map Prod.snd) =
      (Tree.sizeAll (qs.map Prod.fst),
        ⟨s, ⟨((Tree.node .unit span (qs.map Prod.fst)).cells 0 none).toArray⟩⟩) := by
  have hsize := Arena.size_of_listed h.cells_eq
  have hput : (t.arena.put .unit span (Tree.roots 0 (qs.map Prod.fst))).2 =
      ⟨((Tree.node .unit span (qs.map Prod.fst)).cells 0 none).toArray⟩ :=
    congrArg Arena.mk (Array.toList_inj.1 (Arena.toList_put .unit span h.cells_eq))
  rw [h.roots_eq, ← h.stream_eq]
  show (t.arena.size, (⟨t.stream, (t.arena.put .unit span (Tree.roots 0 (qs.map Prod.fst))).2⟩ : ArenaStream)) = _
  rw [hsize, hput, List.length_nil, Nat.zero_add]

/-- If nothing is faulty, the document is the listed one, and no cells are left behind. -/
theorem readWithin_of_ok {doc : Document} (h : (session.readWithin cap fileName).1 = .ok doc) :
    (ofSession session).readWithin cap fileName = (.ok doc.toArena, ofSession (session.readWithin cap fileName).2) := by
  obtain ⟨hcount, hlisted⟩ := items_listed cap session.stream
  unfold Session.readWithin at h ⊢
  dsimp only at h ⊢
  by_cases hempty : (session.faults ++ (Parse.items cap session.stream).faults.map Fault.grammar).isEmpty = true
  · rw [if_pos hempty] at h
    cases h
    obtain ⟨hbefore, hmap⟩ := List.append_eq_nil_iff.1 (List.isEmpty_iff.1 hempty)
    have hnone := List.map_eq_nil_iff.1 hmap
    rw [hnone, List.length_nil, List.length_eq_zero_iff] at hcount
    obtain ⟨qs, hfst, hsnd, hqs⟩ := hlisted hnone
    unfold readWithin
    dsimp only [ofSession]
    rw [hbefore, hcount, hnone, hsnd, put_root hqs, hfst]
    rfl
  · rw [if_neg hempty] at h
    cases h

/-- If something is faulty, it is so for the arena as well, and both sessions stay faulty. -/
theorem readWithin_of_error {faults : List Fault} (h : (session.readWithin cap fileName).1 = .error faults) :
    (session.readWithin cap fileName).2.faults ≠ [] ∧ ((ofSession session).readWithin cap fileName).2.faults ≠ [] ∧
      ∃ faults', ((ofSession session).readWithin cap fileName).1 = .error faults' := by
  obtain ⟨hcount, -⟩ := items_listed cap session.stream
  unfold Session.readWithin at h ⊢
  dsimp only at h ⊢
  by_cases hempty : (session.faults ++ (Parse.items cap session.stream).faults.map Fault.grammar).isEmpty = true
  · rw [if_pos hempty] at h
    cases h
  · have hempty' : ¬ (session.faults ++ (Parse.itemsFor cap session.stream.ahead
        (⟨session.stream, .empty⟩ : ArenaStream)).faults.map Fault.grammar).isEmpty = true := by
      rw [List.isEmpty_iff_length_eq_zero, List.length_append, List.length_map] at hempty ⊢
      rwa [hcount]
    unfold readWithin
    dsimp only [ofSession]
    rw [if_neg hempty']
    rw [List.isEmpty_iff] at hempty hempty'
    exact ⟨hempty, hempty', _, rfl⟩

/-- A faulty text has as many faults when it is read into an arena. -/
theorem length_of_readWithin_error {faults : List Fault} (h : (session.readWithin cap fileName).1 = .error faults) :
    ∃ faults', ((ofSession session).readWithin cap fileName).1 = .error faults' ∧ faults'.length = faults.length := by
  obtain ⟨hcount, -⟩ := items_listed cap session.stream
  obtain ⟨-, -, faults', herror⟩ := readWithin_of_error h
  refine ⟨faults', herror, ?_⟩
  unfold Session.readWithin at h
  unfold readWithin at herror
  dsimp only [ofSession] at h herror
  split at h
  · cases h
  · split at herror
    · cases herror
    · cases h
      cases herror
      rw [List.length_append, List.length_append, List.length_map, List.length_map, hcount]

theorem readAll_of_faults {session : ArenaSession} (h : session.faults ≠ []) (fileNames : List String) :
    (session.readAll fileNames).map Except.toOption = fileNames.map fun _ => none := by
  induction fileNames generalizing session with
  | nil => rfl
  | cons fileName fileNames ih =>
    have hempty : ¬ (session.faults ++ (Parse.itemsFor nestingCap session.state.stream.ahead
        session.state).faults.map Fault.grammar).isEmpty = true := by
      simp [h]
    rw [readAll, read, readWithin]
    dsimp only
    rw [if_neg hempty]
    exact congrArg (none :: ·) (ih (by simpa [List.isEmpty_iff] using hempty))

end ArenaSession

theorem Session.readAll_of_faults {session : Session} (h : session.faults ≠ []) (fileNames : List String) :
    (session.readAll fileNames).map Except.toOption = fileNames.map fun _ => none := by
  induction fileNames generalizing session with
  | nil => rfl
  | cons fileName fileNames ih =>
    have hempty : ¬ (session.faults ++ (Parse.items nestingCap session.stream).faults.map
        Fault.grammar).isEmpty = true := by
      simp [h]
    rw [readAll, read, readWithin]
    dsimp only
    rw [if_neg hempty]
    exact congrArg (none :: ·) (ih (by simpa [List.isEmpty_iff] using hempty))

namespace ArenaSession

/-- However often a session reads, its documents are the listed ones. -/
theorem readAll_ofSession (session : Session) (fileNames : List String) :
    ((ofSession session).readAll fileNames).map Except.toOption =
      ((session.readAll fileNames).map Except.toOption).map (·.map Document.toArena) := by
  induction fileNames generalizing session with
  | nil => rfl
  | cons fileName fileNames ih =>
    have hsecond : (session.readAll (fileName :: fileNames)).map Except.toOption =
        (session.readWithin nestingCap fileName).1.toOption ::
          ((session.readWithin nestingCap fileName).2.readAll fileNames).map Except.toOption := rfl
    have hfirst : ((ofSession session).readAll (fileName :: fileNames)).map Except.toOption =
        ((ofSession session).readWithin nestingCap fileName).1.toOption ::
          (((ofSession session).readWithin nestingCap fileName).2.readAll fileNames).map Except.toOption := rfl
    rw [hfirst, hsecond]
    rcases hread : (session.readWithin nestingCap fileName).1 with faults | doc
    · obtain ⟨hfaults, hfaults', _, herror⟩ := readWithin_of_error hread
      rw [herror, readAll_of_faults hfaults', Session.readAll_of_faults hfaults]
      simp [Except.toOption]
    · rw [readWithin_of_ok hread]
      dsimp only
      rw [ih]
      rfl

/-- However many tokens or faults were taken from a text before, and however often the session then
reads, the documents are those that are read as trees, and the arena of each is in order: it holds
one tree in post-order and nothing else. -/
theorem readAll_wellFormed (text : String) (taken : Nat) (fileNames : List String) :
    let session := Session.ofCursor text ((Cursor.ofText text).skip taken)
    ((ofSession session).readAll fileNames).map Except.toOption =
        ((session.readAll fileNames).map Except.toOption).map (·.map Document.toArena) ∧
      ∀ d, .ok d ∈ (ofSession session).readAll fileNames → d.WellFormed := by
  intro session
  refine ⟨readAll_ofSession session fileNames, fun d hd => ?_⟩
  have hmem : some d ∈ ((ofSession session).readAll fileNames).map Except.toOption :=
    List.mem_map_of_mem (f := Except.toOption) hd
  rw [readAll_ofSession, List.mem_map] at hmem
  obtain ⟨outcome, -, houtcome⟩ := hmem
  obtain ⟨doc, -, rfl⟩ := Option.map_eq_some_iff.1 houtcome
  exact doc.wellFormed_toArena

theorem readAll_wellFormed_taken : ∃ d, d.arena.size = 27 ∧ d.WellFormed ∧
    .ok d ∈ (ofSession (.ofCursor "f ; L<T> F(T a); var x = (b) => -F(b).c;"
      ((Cursor.ofText "f ; L<T> F(T a); var x = (b) => -F(b).c;").skip 2))).readAll ["m.cs", "n.cs"] := by
  have hread : ((ofSession (.ofCursor "f ; L<T> F(T a); var x = (b) => -F(b).c;"
      ((Cursor.ofText "f ; L<T> F(T a); var x = (b) => -F(b).c;").skip 2))).readAll ["m.cs", "n.cs"]).head?.bind
        (fun outcome => outcome.toOption.map (·.arena.size)) = some 27 := by
    decide +kernel
  obtain ⟨outcome, hhead, hsome⟩ := Option.bind_eq_some_iff.1 hread
  obtain ⟨d, hd, hsize⟩ := Option.map_eq_some_iff.1 hsome
  have hmem := List.mem_of_head? hhead
  cases outcome with
  | error faults => cases hd
  | ok d' =>
    cases hd
    exact ⟨d, hsize, (readAll_wellFormed _ 2 ["m.cs", "n.cs"]).2 d hmem, hmem⟩

end ArenaSession

end LetLint
