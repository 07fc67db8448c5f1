/-
What a production may change. A machine holds all that reading has to do with: the source, the tokens, the position
among them, the depth of the nesting as a count that is raised and lowered, and the arena. It also notes whether
every index that it followed was in range and every subtraction came out. The productions of the machine go in step
with those of an arena, in which the depth is the number of levels that are left; so whatever the machine reads,
it leaves what was there as it was, its count is what it was before, and nothing has gone wrong.
-/
import LetLint.Proofs.Parse.Progress

namespace LetLint

open Parse

/-! ## Cells that are kept -/

namespace Arena

variable {arena : Arena} {kind : Kind} {span : Span} {children : List Nat} {i : Nat}

theorem cell?_adopt_of_ne {parent child : Nat} (h : i ≠ child) :
    (adopt parent arena child).cell? i = arena.cell? i := by
  unfold adopt cell?
  rw [Array.getElem?_modify, if_neg h.symm]

theorem size_foldl_adopt (parent : Nat) : (children.foldl (adopt parent) arena).size = arena.size := by
  induction children generalizing arena with
  | nil => rfl
  | cons child children ih => rw [List.foldl_cons, ih, adopt, size, Array.size_modify, size]

theorem cell?_foldl_adopt_of_not_mem {parent : Nat} (h : i ∉ children) :
    (children.foldl (adopt parent) arena).cell? i = arena.cell? i := by
  induction children generalizing arena with
  | nil => rfl
  | cons child children ih =>
    rw [List.mem_cons, not_or] at h
    rw [List.foldl_cons, ih h.2, cell?_adopt_of_ne h.1]

/-- Putting a node changes no other node but its parts. -/
theorem cell?_put_of_not_mem (h : i ∉ children) (hi : i < arena.size) :
    (arena.put kind span children).2.cell? i = arena.cell? i := by
  refine (Array.getElem?_push.trans (if_neg (Nat.ne_of_lt ?_))).trans (cell?_foldl_adopt_of_not_mem h)
  exact Nat.lt_of_lt_of_eq hi (size_foldl_adopt arena.size).symm

/-- A node that is put has no parent. -/
theorem cell?_put_self : (arena.put kind span children).2.cell? arena.size = some ⟨kind, span, none, children⟩ := by
  have hsize : (children.foldl (adopt arena.size) arena).size = arena.size := size_foldl_adopt arena.size
  exact Array.getElem?_push.trans (if_pos hsize.symm)

/-- A node that is put over parts behind some cells leaves these cells as they are. -/
theorem prefix_put {base : List Cell} (h : base <+: arena.cells.toList) (hc : ∀ i ∈ children, base.length ≤ i) :
    base <+: (arena.put kind span children).2.cells.toList := by
  rw [List.prefix_iff_getElem?] at h ⊢
  intro i hi
  have hcell : arena.cell? i = some base[i] := Array.getElem?_toList.symm.trans (h i hi)
  have hsize : i < arena.size := (Array.getElem?_eq_some_iff.1 hcell).1
  rw [← hcell, Array.getElem?_toList]
  exact cell?_put_of_not_mem (fun hmem => Nat.not_le.2 hi (hc i hmem)) hsize

end Arena

/-! ## Machines -/

/-- All that is at hand when a text is read. -/
structure Machine where
  source : Source
  tokens : Tokens
  /-- The index of the next token, or the number of the tokens at the end. -/
  pos : Nat
  /-- The number of levels of nesting that have been entered and not left. -/
  depth : Nat
  arena : Arena
  /-- Every index that was followed was in range, and every subtraction came out. -/
  intact : Bool

namespace Machine

/-- Puts a node into the arena. The last token that was taken and the parts of the node have to be there; the start
of a node is only asked for where the node is one of these parts. -/
def put (kind : Kind) (span : Span) (children : List Nat) (m : Machine) : Nat × Machine :=
  let (index, arena) := m.arena.put kind span children
  let found := decide (m.pos ≤ m.tokens.lexemes.length) && children.all fun child => decide (child < m.arena.size)
  (index, { m with arena, intact := m.intact && found })

/-- Enters a level of nesting. -/
def enter (m : Machine) : Machine := { m with depth := m.depth + 1 }

/-- Leaves a level of nesting. There has to be one to leave. -/
def leave (m : Machine) : Machine := { m with depth := m.depth - 1, intact := m.intact && decide (0 < m.depth) }

/-- The stream of the tokens from the next one on, and the arena. -/
def view (m : Machine) : ArenaStream := ⟨m.tokens.streamAt m.pos, m.arena⟩

end Machine

/-- A stream is the index of its first token. -/
instance : Builder Machine Nat where
  stream m := m.tokens.streamAt m.pos
  withStream stream m := { m with pos := m.tokens.lexemes.length - stream.ahead.length }
  makeLeaf atom span m := m.put atom.kind span []
  makeNode kind span children m := m.put kind span children
  startOf index m := m.arena.startOf index

namespace Parse

/-- Reads one level of nesting deeper, unless the cap is reached. -/
def deeper {α : Type} (cap : Nat) (p : Reading Machine α) : Reading Machine α := fun m =>
  if cap ≤ m.depth then fail (.tooDeep cap) m
  else
    match p m.enter with
    | .ok a m' => .ok a m'.leave
    | .error fault m' => .error fault m'.leave

/-- The productions of a machine, which call each other to at most the given number of levels. -/
def counted (cap : Nat) : Nat → NestedIn Machine Nat
  | 0 =>
    { type := fail (.tooDeep cap)
      block := fail (.tooDeep cap)
      expression := fail (.tooDeep cap)
      operand := fail (.tooDeep cap) }
  | levels + 1 =>
    let inner := counted cap levels
    { type := deeper cap (typeBody inner)
      block := deeper cap (blockBody inner)
      expression := deeper cap (expressionBody inner)
      operand := deeper cap (unary inner) }

/-- The productions of a machine. Behind as many levels as the cap allows the next one is refused. -/
def machine (cap : Nat) : NestedIn Machine Nat := counted cap (cap + 1)

end Parse

namespace Machine

variable {m m' : Machine}

/-- Taking a token moves the index on by one, unless it is at the end. -/
theorem advance_eq (h : m.pos ≤ m.tokens.lexemes.length) :
    Builder.advance m = { m with pos := m.tokens.after m.pos } := by
  have hstream : (m.tokens.streamAt m.pos).advance.ahead.length = m.tokens.lexemes.length - m.tokens.after m.pos := by
    rw [Tokens.advance_streamAt_after h]
    exact List.length_drop
  have hle : m.tokens.after m.pos ≤ m.tokens.lexemes.length := Nat.min_le_right _ _
  show { m with pos := m.tokens.lexemes.length - (m.tokens.streamAt m.pos).advance.ahead.length } = _
  rw [hstream, Nat.sub_sub_self hle]

theorem view_advance (h : m.pos ≤ m.tokens.lexemes.length) : (Builder.advance m).view = Builder.advance m.view := by
  rw [advance_eq h]
  show (⟨m.tokens.streamAt (m.tokens.after m.pos), m.arena⟩ : ArenaStream) =
    ⟨(m.tokens.streamAt m.pos).advance, m.arena⟩
  rw [Tokens.advance_streamAt_after h]

/-- What a machine may have come to: it holds the same source and tokens, it counts the same depth, it has not gone
back nor beyond the end, it has only appended to the arena, and nothing has gone wrong. -/
structure Frame (m m' : Machine) : Prop where
  source_eq : m'.source = m.source
  tokens_eq : m'.tokens = m.tokens
  depth_eq : m'.depth = m.depth
  le_pos : m.pos ≤ m'.pos
  pos_le : m'.pos ≤ m'.tokens.lexemes.length
  cells : m.arena.cells.toList <+: m'.arena.cells.toList
  intact : m'.intact = true

namespace Frame

theorem refl (hpos : m.pos ≤ m.tokens.lexemes.length) (hintact : m.intact = true) : m.Frame m :=
  ⟨rfl, rfl, rfl, Nat.le_refl _, hpos, List.prefix_refl _, hintact⟩

theorem advance (h : m.Frame m') : m.Frame (Builder.advance m') := by
  rw [advance_eq h.pos_le]
  exact ⟨h.source_eq, h.tokens_eq, h.depth_eq, Nat.le_trans h.le_pos (Tokens.le_after h.pos_le), Nat.min_le_right _ _,
    h.cells, h.intact⟩

/-- The parts of a node that is put have been put since. -/
theorem put {kind : Kind} {span : Span} {children : List Nat} (h : m.Frame m')
    (hc : ∀ i ∈ children, m.arena.size ≤ i ∧ i < m'.arena.size) : m.Frame (m'.put kind span children).2 := by
  refine ⟨h.source_eq, h.tokens_eq, h.depth_eq, h.le_pos, h.pos_le, ?_, ?_⟩
  · exact Arena.prefix_put h.cells fun i hi => Array.length_toList ▸ (hc i hi).1
  · have hall : (children.all fun child => decide (child < m'.arena.size)) = true :=
      List.all_eq_true.2 fun i hi => decide_eq_true (hc i hi).2
    show (m'.intact && (decide (m'.pos ≤ m'.tokens.lexemes.length) && _)) = true
    rw [h.intact, decide_eq_true h.pos_le, hall]
    rfl

theorem enter (h : m.Frame m') : m.enter.Frame m'.enter :=
  ⟨h.source_eq, h.tokens_eq, congrArg (· + 1) h.depth_eq, h.le_pos, h.pos_le, h.cells, h.intact⟩

theorem leave (h : m.enter.Frame m') : m.Frame m'.leave := by
  have hdepth : m'.depth = m.depth + 1 := h.depth_eq
  refine ⟨h.source_eq, h.tokens_eq, ?_, h.le_pos, h.pos_le, h.cells, ?_⟩
  · show m'.depth - 1 = m.depth
    rw [hdepth, Nat.add_sub_cancel]
  · show (m'.intact && decide (0 < m'.depth)) = true
    rw [h.intact, hdepth]
    exact decide_eq_true (Nat.succ_pos m.depth)

end Frame

end Machine

/-! ## Machines in step with arenas -/

/-- A machine that has come from another one is seen as a stream and an arena. The pending nodes are the same ones;
they have been put since, none of them twice, and have no parent yet. -/
structure Framed (start : Machine) (ps : List (Nat × Nat)) (s : ArenaStream) (m : Machine) : Prop where
  view_eq : m.view = s
  frame : start.Frame m
  same : ps.map Prod.fst = ps.map Prod.snd
  pending : ∀ i ∈ ps.map Prod.snd, start.arena.size ≤ i ∧ ∃ cell, m.arena.cell? i = some cell ∧ cell.parent = none
  nodup : (ps.map Prod.snd).Nodup

namespace Framed

variable {start m : Machine} {ps qs : List (Nat × Nat)} {s : ArenaStream}

theorem advance (h : Framed start ps s m) : Framed start ps (Builder.advance s) (Builder.advance m) := by
  have hcells : (Builder.advance m).arena = m.arena := rfl
  refine ⟨?_, h.frame.advance, h.same, hcells ▸ h.pending, h.nodup⟩
  rw [Machine.view_advance h.frame.pos_le, h.view_eq]

theorem forget (h : Framed start ps s m) : Framed start [] s m :=
  ⟨h.view_eq, h.frame, rfl, fun _ hi => absurd hi List.not_mem_nil, .nil⟩

/-- Putting a node over the last of the pending ones. -/
theorem put (h : Framed start (ps ++ qs) s m) (kind : Kind) (span : Span) :
    Framed start (ps ++ [(s.arena.size, m.arena.size)]) (s.put kind span (qs.map Prod.fst)).2
      (m.put kind span (qs.map Prod.snd)).2 := by
  obtain ⟨hview, hframe, hsame, hpending, hnodup⟩ := h
  subst hview
  rw [List.map_append, List.map_append] at hsame
  obtain ⟨hps, hqs⟩ := List.append_inj hsame (by simp)
  rw [List.map_append] at hpending hnodup
  obtain ⟨hnodup, -, hapart⟩ := List.nodup_append.1 hnodup
  have hsize : ∀ i ∈ ps.map Prod.snd ++ qs.map Prod.snd, i < m.arena.size := fun i hi => by
    obtain ⟨-, cell, hcell, -⟩ := hpending i hi
    exact (Array.getElem?_eq_some_iff.1 hcell).1
  have hkept : ∀ i ∈ ps.map Prod.snd, (m.put kind span (qs.map Prod.snd)).2.arena.cell? i = m.arena.cell? i :=
    fun i hi => Arena.cell?_put_of_not_mem (fun hmem => hapart i hi i hmem rfl) (hsize i (List.mem_append_left _ hi))
  refine ⟨by rw [hqs]; rfl, hframe.put fun i hi => ?_, ?_, ?_, ?_⟩
  · have hi := List.mem_append_right (ps.map Prod.snd) hi
    exact ⟨(hpending i hi).1, hsize i hi⟩
  · rw [List.map_append, List.map_append, hps]
    rfl
  · intro i hi
    rw [List.map_append, List.map_singleton, List.mem_append, List.mem_singleton] at hi
    rcases hi with hi | rfl
    · obtain ⟨hle, hcell⟩ := hpending i (List.mem_append_left _ hi)
      exact ⟨hle, hkept i hi ▸ hcell⟩
    · have hle := hframe.cells.length_le
      rw [Array.length_toList, Array.length_toList] at hle
      exact ⟨hle, _, Arena.cell?_put_self, rfl⟩
  · rw [List.map_append, List.map_singleton]
    refine List.nodup_append.2 ⟨hnodup, List.nodup_singleton _, fun i hi j hj => ?_⟩
    rw [List.mem_singleton.1 hj]
    exact Nat.ne_of_lt (hsize i (List.mem_append_left _ hi))

theorem enter (h : Framed start ps s m) : Framed start.enter ps s m.enter :=
  ⟨h.view_eq, h.frame.enter, h.same, h.pending, h.nodup⟩

theorem leave (h : Framed start.enter ps s m) : Framed start ps s m.leave :=
  ⟨h.view_eq, h.frame.leave, h.same, h.pending, h.nodup⟩

end Framed

/-- An arena, and a machine that has come from the given one. -/
def framing (start : Machine) : Simulation Unit ArenaStream Machine where
  rel _ := Framed start
  starts := Eq
  alike := by
    rintro _ _ _ m ⟨rfl, -⟩
    exact AllAlike.refl _
  place := by
    rintro _ _ _ m ⟨rfl, -⟩
    rfl
  startOf := by
    rintro _ _ _ m i j ⟨rfl, -, hsame, -, -⟩ hmem
    have hij : i = j := List.map_inj_left.1 hsame (i, j) hmem
    rw [hij]
    rfl
  advance := Framed.advance
  leaf := by
    rintro _ ps s m x y a b h hs hm ha hb
    obtain rfl := h.view_eq
    cases hs.symm.trans hm
    cases ha.symm.trans hb
    have hnext : Framed start (ps ++ []) (Builder.advance m.view) (Builder.advance m) :=
      (List.append_nil ps).symm ▸ h.advance
    have hstream : Builder.stream (Builder.advance m) = Builder.stream (Builder.advance m.view) :=
      congrArg ArenaStream.stream (Machine.view_advance h.frame.pos_le)
    have hleaf : Parse.leaf a m = .ok (Builder.advance m).arena.size ((Builder.advance m).put a.kind
        ⟨(Builder.stream m).place.offset, max (Builder.stream (Builder.advance m.view)).lastEnd
          (Builder.stream m).place.offset⟩ []).2 := by
      rw [← hstream]
      rfl
    exact ⟨_, _, _, _, rfl, hleaf, hnext.put a.kind _⟩
  node := by
    rintro _ _ _ _ m i _ kind h rfl
    obtain rfl := h.view_eq
    exact ⟨_, _, _, _, rfl, rfl, h.put kind _⟩
  forget h := ⟨(), h.forget⟩

/-! ## Levels -/

section

variable {α : Type} {cap : Nat} {start : Machine} {p : Reading ArenaStream Nat} {q : Reading Machine Nat}

theorem deeper_of_le {m : Machine} (h : cap ≤ m.depth) (q : Reading Machine α) :
    deeper cap q m = fail (.tooDeep cap) m := if_pos h

theorem deeper_of_ok {m m' : Machine} {a : α} {q : Reading Machine α} (h : ¬ cap ≤ m.depth)
    (hq : q m.enter = .ok a m') : deeper cap q m = .ok a m'.leave := by
  unfold deeper
  rw [if_neg h, hq]

theorem deeper_of_error {m m' : Machine} {fault : ParseFault} {q : Reading Machine α} (h : ¬ cap ≤ m.depth)
    (hq : q m.enter = .error fault m') : deeper cap q m = .error fault m'.leave := by
  unfold deeper
  rw [if_neg h, hq]

/-- Beyond the cap, nothing is entered. -/
theorem refused_makes (h : cap ≤ start.depth) : (framing start).Makes (fail (.tooDeep cap)) (deeper cap q) := by
  intro w ps s m hr
  have hm : Framed start (ps ++ []) s m := hr
  rw [deeper_of_le (by rw [hm.frame.depth_eq]; exact h)]
  exact Simulation.fail_agrees _ hr

/-- A level is left as it was entered. -/
theorem deeper_makes (h : start.depth < cap) (hq : (framing start.enter).Makes p q) :
    (framing start).Makes p (deeper cap q) := by
  intro w ps s m hr
  have hm : Framed start (ps ++ []) s m := hr
  have hdepth : ¬ cap ≤ m.depth := by
    rw [hm.frame.depth_eq]
    exact Nat.not_le.2 h
  have henter : (framing start.enter).rel w (ps ++ []) s m.enter := hm.enter
  rcases hq henter with ⟨n, s', i, m', qs, h1, h2, hmade, h'⟩ | ⟨cause, s', m', w', h1, h2, h'⟩
  · have hleave : Framed start.enter (ps ++ qs) s' m' := h'
    exact .inl ⟨n, s', i, m'.leave, qs, h1, deeper_of_ok hdepth h2, hmade, hleave.leave⟩
  · have hleave : Framed start.enter [] s' m' := h'
    exact .inr ⟨cause, s', m'.leave, w', h1, deeper_of_error hdepth h2, hleave.leave⟩

/-- The machine counts the levels that are left: with more of them to go than that, it never runs out. -/
theorem counted_agrees (cap : Nat) : ∀ {levels : Nat} {start : Machine}, cap - start.depth < levels →
    (framing start).NestedAgrees (nestedIn cap (cap - start.depth)) (counted cap levels)
  | levels + 1, start, hlevels => by
    by_cases h : cap ≤ start.depth
    · rw [Nat.sub_eq_zero_of_le h]
      exact ⟨refused_makes h, refused_makes h, refused_makes h, refused_makes h⟩
    · have hlt := Nat.not_le.1 h
      have hnext : cap - start.enter.depth = cap - start.depth - 1 := rfl
      have hi : (framing start.enter).NestedAgrees (nestedIn cap (cap - start.enter.depth)) (counted cap levels) :=
        counted_agrees cap (by rw [hnext]; omega)
      have hlevel : cap - start.depth = cap - start.enter.depth + 1 := by
        rw [hnext]
        omega
      rw [hlevel]
      exact ⟨deeper_makes hlt (Simulation.typeBody_makes hi), deeper_makes hlt (Simulation.blockBody_makes hi),
        deeper_makes hlt (Simulation.expressionBody_makes hi), deeper_makes hlt (Simulation.unary_makes hi)⟩

end

/-! ## Readings of a machine -/

/-- In step, each production makes a node with the nodes of the next level. -/
theorem Parse.Production.makes {ω ν μ σ τ : Type} [Builder σ ν] [Builder τ μ] {sim : Simulation ω σ τ}
    {inner : NestedIn σ ν} {inner' : NestedIn τ μ} (hi : sim.NestedAgrees inner inner') (cap : Nat) (x : Production) :
    sim.Makes (x.read cap inner) (x.read cap inner') := by
  induction x with
  | name slot => exact Simulation.name_makes slot
  | typeArgumentList => exact Simulation.typeArgumentList_makes hi
  | typeBody => exact Simulation.typeBody_makes hi
  | type => exact hi.type
  | typedParameter => exact Simulation.typedParameter_makes hi
  | lambdaParameter => exact Simulation.lambdaParameter_makes hi
  | lambdaBody => exact Simulation.lambdaBody_makes hi
  | bareLambda => exact Simulation.bareLambda_makes hi
  | parenthesizedLambda => exact Simulation.parenthesizedLambda_makes hi
  | argument => exact Simulation.argument_makes hi
  | argumentList => exact Simulation.argumentList_makes hi
  | group => exact Simulation.group_makes hi
  | primary => exact Simulation.primary_makes hi
  | call => exact Simulation.call_makes hi
  | unary => exact Simulation.unary_makes hi
  | operand => exact hi.operand
  | binaryLevel operators next ih => exact Simulation.binaryLevel_makes ih operators
  | expressionBody => exact Simulation.expressionBody_makes hi
  | expression => exact hi.expression
  | localDeclaration => exact Simulation.localDeclaration_makes hi
  | returnStatement => exact Simulation.returnStatement_makes hi
  | expressionStatement => exact Simulation.expressionStatement_makes hi
  | statement => exact Simulation.statement_makes hi
  | blockBody => exact Simulation.blockBody_makes hi
  | block => exact hi.block
  | methodDeclaration => exact Simulation.methodDeclaration_makes hi
  | item =>
    exact Simulation.stream_agrees.step fun h => .cond (Lookahead.startsMethod_alike cap h)
      (Simulation.methodDeclaration_makes hi) (Simulation.statement_makes hi)

/-- A result with the state of the machine seen as a stream and an arena. -/
def Machine.viewResult {α : Type} : EStateM.Result ParseFault Machine α → EStateM.Result ParseFault ArenaStream α
  | .ok a m => .ok a m.view
  | .error fault m => .error fault m.view

/-- What a production reads at a machine. It is what the production reads into the arena with as many levels left as
the count leaves, and more levels make no difference to it. Whether it succeeds or not, the machine keeps its
frame. If it succeeds, it has taken a token, and it gives the index of a node that has no parent. -/
structure Parse.Production.FramesAt (x : Production) (cap : Nat) (m : Machine) : Prop where
  view_eq : Machine.viewResult (x.read cap (machine cap) m) = x.read cap (nestedIn cap (cap - m.depth)) m.view
  levels_eq : ∀ levels, cap - m.depth < levels → x.read cap (counted cap levels) m = x.read cap (machine cap) m
  ok : ∀ {i : Nat} {m' : Machine}, x.read cap (machine cap) m = .ok i m' →
    m.Frame m' ∧ m.pos < m'.pos ∧ ∃ cell, m'.arena.cell? i = some cell ∧ cell.parent = none
  error : ∀ {fault : ParseFault} {m' : Machine}, x.read cap (machine cap) m = .error fault m' → m.Frame m'

section

variable {cap levels : Nat} {m m' m'' : Machine}

/-- Of what a machine may have come to, a stream and an arena are seen in one machine alone. -/
theorem Machine.Frame.eq_of_view (h' : m.Frame m') (h'' : m.Frame m'') (hview : m'.view = m''.view) : m' = m'' := by
  obtain ⟨source', tokens', pos', depth', arena', intact'⟩ := m'
  obtain ⟨source'', tokens'', pos'', depth'', arena'', intact''⟩ := m''
  obtain ⟨rfl, rfl, rfl, -, hle', -, rfl⟩ := h'
  obtain ⟨rfl, rfl, rfl, -, hle'', -, rfl⟩ := h''
  dsimp only at hle' hle''
  have hahead : m.tokens.lexemes.drop pos' = m.tokens.lexemes.drop pos'' :=
    congrArg (fun view : ArenaStream => view.stream.ahead) hview
  have hpos : pos' = pos'' := by
    have hlength := congrArg List.length hahead
    rw [List.length_drop, List.length_drop] at hlength
    omega
  have harena : arena' = arena'' := congrArg ArenaStream.arena hview
  rw [hpos, harena]

theorem Parse.Production.read_outcome (x : Production) (hpos : m.pos ≤ m.tokens.lexemes.length)
    (hintact : m.intact = true) (hlevels : cap - m.depth < levels) :
    (∃ i m', x.read cap (nestedIn cap (cap - m.depth)) m.view = .ok i m'.view ∧
      x.read cap (counted cap levels) m = .ok i m' ∧ m.Frame m' ∧
      ∃ cell, m'.arena.cell? i = some cell ∧ cell.parent = none) ∨
    ∃ fault m', x.read cap (nestedIn cap (cap - m.depth)) m.view = .error fault m'.view ∧
      x.read cap (counted cap levels) m = .error fault m' ∧ m.Frame m' := by
  have hstart : (framing m).rel () ([] ++ []) m.view m :=
    ⟨rfl, .refl hpos hintact, rfl, fun _ hi => absurd hi List.not_mem_nil, .nil⟩
  rcases x.makes (counted_agrees cap hlevels) cap hstart with
    ⟨i, _, j, m', _, h1, h2, rfl, hview, hframe, hsame, hpending, -⟩ | ⟨cause, _, m', _, h1, h2, hview, hframe, -⟩
  · have hij : i = j := (List.cons.inj hsame).1
    subst hij hview
    exact .inl ⟨i, m', h1, h2, hframe, (hpending i (List.mem_singleton.2 rfl)).2⟩
  · subst hview
    exact .inr ⟨_, m', h1, h2, hframe⟩

/-- The number of levels that a machine is given makes no difference, if it is more than are left. -/
theorem Parse.Production.read_counted_eq (x : Production) {levels' : Nat} (hpos : m.pos ≤ m.tokens.lexemes.length)
    (hintact : m.intact = true) (h : cap - m.depth < levels) (h' : cap - m.depth < levels') :
    x.read cap (counted cap levels) m = x.read cap (counted cap levels') m := by
  rcases x.read_outcome hpos hintact h with ⟨i, m₁, h1, h2, hm₁, -⟩ | ⟨fault, m₁, h1, h2, hm₁⟩
  · rcases x.read_outcome hpos hintact h' with ⟨j, m₂, h1', h2', hm₂, -⟩ | ⟨fault, m₂, h1', -, -⟩
    · obtain ⟨hij, hview⟩ := EStateM.Result.ok.inj (h1.symm.trans h1')
      rw [h2, h2', hij, hm₁.eq_of_view hm₂ hview]
    · cases h1.symm.trans h1'
  · rcases x.read_outcome hpos hintact h' with ⟨j, m₂, h1', -, -, -⟩ | ⟨fault', m₂, h1', h2', hm₂⟩
    · cases h1.symm.trans h1'
    · obtain ⟨hfault, hview⟩ := EStateM.Result.error.inj (h1.symm.trans h1')
      rw [h2, h2', hfault, hm₁.eq_of_view hm₂ hview]

theorem Parse.Production.framesAt (x : Production) (cap : Nat) (hpos : m.pos ≤ m.tokens.lexemes.length)
    (hintact : m.intact = true) : x.FramesAt cap m := by
  have hcap : cap - m.depth < cap + 1 := Nat.lt_succ_of_le (Nat.sub_le _ _)
  have hlevels (levels : Nat) (h : cap - m.depth < levels) :
      x.read cap (counted cap levels) m = x.read cap (machine cap) m := x.read_counted_eq hpos hintact h hcap
  have hleft (m : Machine) : left m.view = m.tokens.lexemes.length - m.pos := List.length_drop
  rcases x.read_outcome hpos hintact hcap with ⟨i, m₁, h1, h2, hframe, hcell⟩ | ⟨fault, m₁, h1, h2, hframe⟩
  · have htaken := x.takes (nestedIn_takes cap (cap - m.depth)) cap h1
    rw [hleft, hleft, hframe.tokens_eq] at htaken
    refine ⟨?_, hlevels, ?_, ?_⟩
    · rw [h1]
      exact congrArg Machine.viewResult h2
    · intro j m' h
      cases h2.symm.trans h
      exact ⟨hframe, by omega, hcell⟩
    · intro fault m' h
      cases h2.symm.trans h
  · refine ⟨?_, hlevels, ?_, ?_⟩
    · rw [h1]
      exact congrArg Machine.viewResult h2
    · intro j m' h
      cases h2.symm.trans h
    · intro fault m' h
      cases h2.symm.trans h
      exact hframe

end

/-- Whatever a production does at a machine, it keeps the frame, and it takes a token if it succeeds; so the loops
end. -/
theorem Machine.reads_within_frame (cap : Nat) (m : Machine) (hpos : m.pos ≤ m.tokens.lexemes.length)
    (hintact : m.intact = true) :
    (∀ x : Production, x.FramesAt cap m) ∧ LoopsEnd cap (cap - m.depth) m.view :=
  ⟨fun x => x.framesAt cap hpos hintact, loopsEnd cap _ _⟩

/-- In the middle of `x - a.b`, one level deep: at the operator, with the node of the first name put. -/
def Machine.atOperator : Machine where
  source := .ofText "x-a.b"
  tokens := .counted [.identifier "x", .punct .minus, .identifier "a", .punct .dot, .identifier "b"]
  pos := 1
  depth := 1
  arena := ⟨#[⟨.identifier, ⟨0, 1⟩, none, []⟩]⟩
  intact := true

theorem Machine.reads_within_frame_atOperator : ∃ m', Production.unary.read 3 (machine 3) .atOperator = .ok 4 m' ∧
    Machine.atOperator.Frame m' ∧ 1 < m'.pos ∧ ∃ cell, m'.arena.cell? 4 = some cell ∧ cell.parent = none :=
  have h := (Machine.reads_within_frame 3 .atOperator (by decide) rfl).1 .unary
  have hread : ∃ m', Production.unary.read 3 (machine 3) Machine.atOperator = .ok 4 m' := ⟨_, rfl⟩
  hread.imp fun _ hread => ⟨hread, h.ok hread⟩

end LetLint
