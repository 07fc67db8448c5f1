/-
Going on behind a faulty item. Nothing but the tokens ahead decides what an item is: neither what was read
before it, nor the nodes that were made, also below items that turned out faulty. So at every head of the loop
over the items, reading goes on as if it began there, and finds the faults that are found there. A fault lies
at or behind the head of the loop, and the loop goes on behind the next semicolon; so there is a semicolon
between any two faults.
-/
import LetLint.Proofs.Parse.Arena
import LetLint.Proofs.Parse.Counted

namespace LetLint

open Parse

/-! ## Builders -/

/-- A builder that holds the stream it is given, and makes nodes without a change to it. -/
class LawfulBuilder (σ : Type) {ν : outParam Type} [Builder σ ν] : Prop where
  stream_withStream (stream : TokenStream) (s : σ) : Builder.stream (Builder.withStream stream s) = stream
  stream_makeLeaf (atom : Atom) (span : Span) (s : σ) :
    Builder.stream (Builder.makeLeaf atom span s).2 = Builder.stream s
  stream_makeNode (kind : Kind) (span : Span) (children : List ν) (s : σ) :
    Builder.stream (Builder.makeNode kind span children s).2 = Builder.stream s

instance : LawfulBuilder TokenStream := ⟨fun _ _ => rfl, fun _ _ _ => rfl, fun _ _ _ _ => rfl⟩

instance : LawfulBuilder ArenaStream := ⟨fun _ _ => rfl, fun _ _ _ => rfl, fun _ _ _ _ => rfl⟩

/-! ## Where a state stands -/

section

variable {σ ν : Type} [Builder σ ν] {tokens : Tokens} {i j : Nat} {s : σ}

/-- The tokens from an index on are ahead. What was read before may be anything. -/
structure StandsAt (tokens : Tokens) (i : Nat) (s : σ) : Prop where
  le : i ≤ tokens.lexemes.length
  ahead_eq : (Builder.stream s).ahead = tokens.lexemes.drop i
  finish_eq : (Builder.stream s).finish = tokens.finish

/-- The index behind the next token, which is the same one at the end. -/
def Tokens.after (tokens : Tokens) (i : Nat) : Nat := min (i + 1) tokens.lexemes.length

theorem Tokens.le_after (h : i ≤ tokens.lexemes.length) : i ≤ tokens.after i := Nat.le_min.2 ⟨Nat.le_succ i, h⟩

theorem Tokens.advance_streamAt_after (h : i ≤ tokens.lexemes.length) :
    (tokens.streamAt i).advance = tokens.streamAt (tokens.after i) := by
  rcases Nat.lt_or_eq_of_le h with hi | rfl
  · rw [advance_streamAt hi, after, Nat.min_eq_left hi]
  · rw [advance_streamAt_length, after, Nat.min_eq_right (Nat.le_succ _)]

namespace StandsAt

theorem streamAt (h : i ≤ tokens.lexemes.length) : StandsAt tokens i (tokens.streamAt i) := ⟨h, rfl, rfl⟩

/-- A state stands before all that is ahead of it. -/
theorem self (s : σ) : StandsAt ⟨(Builder.stream s).ahead, (Builder.stream s).finish⟩ 0 s := ⟨Nat.zero_le _, rfl, rfl⟩

theorem fault (h : StandsAt tokens i s) (cause : ParseCause) :
    (Builder.stream s).fault cause = (tokens.streamAt i).fault cause := by
  obtain ⟨-, hahead, hfinish⟩ := h
  unfold TokenStream.fault TokenStream.current? TokenStream.place
  rw [hahead, hfinish]
  rfl

theorem isEmpty_iff (h : StandsAt tokens i s) :
    (Builder.stream s).ahead.isEmpty = true ↔ tokens.lexemes.length ≤ i := by
  rw [h.ahead_eq, List.isEmpty_iff, List.drop_eq_nil_iff]

theorem lt_of_ne_nil (h : StandsAt tokens i s) (hne : (Builder.stream s).ahead ≠ []) :
    i < tokens.lexemes.length :=
  Nat.not_le.1 fun hle => hne (List.isEmpty_iff.1 (h.isEmpty_iff.2 hle))

/-- A state stands at one index. -/
theorem index_unique (h : StandsAt tokens i s) (h' : StandsAt tokens j s) : i = j := by
  have hlength := congrArg List.length (h.ahead_eq.symm.trans h'.ahead_eq)
  have hi := h.le
  have hj := h'.le
  rw [List.length_drop, List.length_drop] at hlength
  omega

theorem of_stream_eq (h : StandsAt tokens i s) {s' : σ} (hs : Builder.stream s' = Builder.stream s) :
    StandsAt tokens i s' :=
  ⟨h.le, hs ▸ h.ahead_eq, hs ▸ h.finish_eq⟩

theorem advance [LawfulBuilder σ] (h : StandsAt tokens i s) : StandsAt tokens (tokens.after i) (Builder.advance s) := by
  have hstream : Builder.stream (Builder.advance s) = (Builder.stream s).advance :=
    LawfulBuilder.stream_withStream _ _
  refine ⟨Nat.min_le_right _ _, ?_, ?_⟩
  · rw [hstream, TokenStream.ahead_advance, h.ahead_eq, List.tail_drop, Tokens.after]
    rcases Nat.le_total (i + 1) tokens.lexemes.length with hle | hle
    · rw [Nat.min_eq_left hle]
    · rw [Nat.min_eq_right hle, List.drop_length, List.drop_eq_nil_iff.2 hle]
  · rw [hstream, TokenStream.finish_advance, h.finish_eq]

end StandsAt

/-- Reading the tokens from the beginning, and any state that stands where this stands, from some index on. -/
def shadowing [LawfulBuilder σ] (tokens : Tokens) (first : Nat) : Simulation Unit TokenStream σ where
  rel _ _ s t := ∃ i, first ≤ i ∧ s = tokens.streamAt i ∧ StandsAt tokens i t
  starts _ _ := True
  alike := by
    rintro _ _ _ t ⟨i, -, rfl, h⟩
    rw [h.ahead_eq]
    exact AllAlike.refl _
  place _ := trivial
  startOf _ _ := trivial
  advance := by
    rintro _ _ _ t ⟨i, hi, rfl, h⟩
    exact ⟨tokens.after i, Nat.le_trans hi (Tokens.le_after h.le), Tokens.advance_streamAt_after h.le, h.advance⟩
  leaf := by
    rintro _ _ _ t _ _ a b ⟨i, hi, rfl, h⟩ _ _ _ _
    refine ⟨_, _, _, _, rfl, rfl, tokens.after i, Nat.le_trans hi (Tokens.le_after h.le),
      Tokens.advance_streamAt_after h.le, h.advance.of_stream_eq ?_⟩
    exact LawfulBuilder.stream_makeLeaf _ _ _
  node := by
    rintro _ _ _ _ t _ _ kind ⟨i, hi, rfl, h⟩ -
    refine ⟨_, _, _, _, rfl, rfl, i, hi, rfl, h.of_stream_eq ?_⟩
    exact LawfulBuilder.stream_makeNode _ _ _ _
  forget h := ⟨(), h⟩

variable [LawfulBuilder σ]

/-- The index behind the next semicolon among some lexemes, the first of which has the given index, or the
index behind all of them. -/
def indexBehind : List Lexeme → Nat → Nat
  | [], i => i
  | l :: rest, i => if l.token = .punct .semicolon then i + 1 else indexBehind rest (i + 1)

/-- The index behind the next semicolon, or the end. -/
def Tokens.resumeAt (tokens : Tokens) (i : Nat) : Nat := indexBehind (tokens.lexemes.drop i) i

theorem Tokens.resumeAt_of_lt (hi : i < tokens.lexemes.length) : tokens.resumeAt i =
    if tokens.lexemes[i].token = .punct .semicolon then i + 1 else tokens.resumeAt (i + 1) := by
  rw [resumeAt, List.drop_eq_getElem_cons hi]
  rfl

theorem Tokens.resumeAt_of_le (hi : tokens.lexemes.length ≤ i) : tokens.resumeAt i = i := by
  rw [resumeAt, List.drop_eq_nil_iff.2 hi]
  rfl

/-- There is a semicolon at an index from the first on and before the second. -/
def Tokens.Separated (tokens : Tokens) (i j : Nat) : Prop :=
  ∃ m, i ≤ m ∧ m < j ∧ tokens.words[m]? = some (.punct .semicolon)

/-- Going on takes at least one token, and unless it takes all it takes a semicolon. -/
theorem Tokens.resumeAt_spec (hi : i ≤ tokens.lexemes.length) :
    i ≤ tokens.resumeAt i ∧ tokens.resumeAt i ≤ tokens.lexemes.length ∧
      (i < tokens.lexemes.length → i < tokens.resumeAt i) ∧
      (tokens.resumeAt i < tokens.lexemes.length → tokens.Separated i (tokens.resumeAt i)) := by
  induction hlength : tokens.lexemes.length - i generalizing i with
  | zero =>
    rw [resumeAt_of_le (by omega)]
    exact ⟨Nat.le_refl i, hi, fun h => absurd h (by omega), fun h => absurd h (by omega)⟩
  | succ more ih =>
    have hlt : i < tokens.lexemes.length := by omega
    rw [resumeAt_of_lt hlt]
    split
    · rename_i hsemicolon
      refine ⟨Nat.le_succ i, hlt, fun _ => Nat.lt_succ_self i, fun _ => ⟨i, Nat.le_refl i, Nat.lt_succ_self i, ?_⟩⟩
      rw [words, List.getElem?_map, List.getElem?_eq_getElem hlt, Option.map_some, hsemicolon]
    · obtain ⟨hle, hend, -, hapart⟩ := @ih (i + 1) hlt (by omega)
      refine ⟨by omega, hend, fun _ => by omega, fun h => ?_⟩
      obtain ⟨m, hm, hmlt, hsemicolon⟩ := hapart h
      exact ⟨m, by omega, hmlt, hsemicolon⟩

theorem StandsAt.resume (h : StandsAt tokens i s) : StandsAt tokens (tokens.resumeAt i) (Parse.resume s) := by
  have hgoal : ∀ {ls i} {s : σ}, ls = tokens.lexemes.drop i → StandsAt tokens i s →
      StandsAt tokens (tokens.resumeAt i) (resumeFrom ls s) := by
    intro ls
    induction ls with
    | nil =>
      intro i s hls h
      rw [Tokens.resumeAt_of_le (List.drop_eq_nil_iff.1 hls.symm)]
      exact h
    | cons l rest ih =>
      intro i s hls h
      have hlt : i < tokens.lexemes.length := by
        rw [← Nat.not_le, ← List.drop_eq_nil_iff, ← hls]
        simp
      rw [List.drop_eq_getElem_cons hlt] at hls
      obtain ⟨rfl, hrest⟩ := List.cons.inj hls
      have hnext := h.advance
      rw [Tokens.after, Nat.min_eq_left hlt] at hnext
      rw [resumeFrom, Tokens.resumeAt_of_lt hlt]
      split
      · exact hnext
      · exact ih hrest hnext
  exact hgoal h.ahead_eq h

theorem Tokens.resume_streamAt (hi : i ≤ tokens.lexemes.length) :
    Parse.resume (tokens.streamAt i) = tokens.streamAt (tokens.resumeAt i) := by
  have hstands : StandsAt tokens i (tokens.streamAt i) := .streamAt hi
  have hrel : (shadowing tokens i).rel () [] (tokens.streamAt i) (tokens.streamAt i) := ⟨i, Nat.le_refl i, rfl, hstands⟩
  obtain ⟨k, -, hresume, hk⟩ := Simulation.resumeFrom_rel (AllAlike.refl (tokens.streamAt i).ahead) hrel
  rw [hk.index_unique hstands.resume] at hresume
  exact hresume

/-! ## One item -/

/-- What an item comes to is decided by where it starts. It takes at least one token, or it stops with a fault
at or behind its first one. -/
theorem item_of_standsAt (cap : Nat) (h : StandsAt tokens i s) :
    (∃ node j node' s', i < j ∧ item cap (tokens.streamAt i) = .ok node (tokens.streamAt j) ∧
      item cap s = .ok node' s' ∧ StandsAt tokens j s') ∨
    ∃ cause j s', i ≤ j ∧ item cap (tokens.streamAt i) = .error ((tokens.streamAt j).fault cause) (tokens.streamAt j) ∧
      item cap s = .error ((tokens.streamAt j).fault cause) s' ∧ StandsAt tokens j s' := by
  have hrel : (shadowing tokens i).rel () ([] ++ []) (tokens.streamAt i) s := ⟨i, Nat.le_refl i, rfl, h⟩
  rcases Simulation.item_makes cap hrel with
    ⟨node, _, node', s', _, hread, hread', -, j, -, rfl, hs'⟩ | ⟨cause, _, s', _, hread, hread', j, hj, rfl, hs'⟩
  · obtain ⟨ls, hreads, hderives, -⟩ := item_yields cap hread
    have hlength : (tokens.lexemes.drop i).length = (ls ++ tokens.lexemes.drop j).length :=
      congrArg List.length hreads.ahead
    have htaken := List.length_pos_iff.2 (hderives.ne_nil (by simp))
    rw [List.length_append, List.length_drop, List.length_drop] at hlength
    have hi := h.le
    exact .inl ⟨node, j, node', s', by omega, hread, hread', hs'⟩
  · rw [hs'.fault] at hread'
    exact .inr ⟨cause, j, s', hj, hread, hread', hs'⟩

end

/-! ## All items -/

section

variable {σ ν : Type} [Builder σ ν] {tokens : Tokens} {cap i : Nat} {s start : σ}
variable {rounds rounds' : List Lexeme} {found : List ParseFault}

theorem itemsFor_of_le (h : StandsAt tokens i s) (hi : tokens.lexemes.length ≤ i) :
    itemsFor cap rounds s = ⟨[], [], s⟩ := by
  cases rounds with
  | nil => rfl
  | cons _ rounds => rw [itemsFor, if_pos (h.isEmpty_iff.2 hi)]

variable [LawfulBuilder σ]

/-- The place where a state stands decides which faults are found from there on, if there are enough rounds. -/
theorem faults_eq (h : StandsAt tokens i s) (hrounds : tokens.lexemes.length ≤ i + rounds.length)
    (hrounds' : tokens.lexemes.length ≤ i + rounds'.length) :
    (itemsFor cap rounds s).faults = (itemsFor cap rounds' (tokens.streamAt i)).faults := by
  induction rounds generalizing i s rounds' with
  | nil => rw [itemsFor_of_le h hrounds, itemsFor_of_le (.streamAt h.le) hrounds]
  | cons _ rounds ih =>
    by_cases hend : tokens.lexemes.length ≤ i
    · rw [itemsFor_of_le h hend, itemsFor_of_le (.streamAt h.le) hend]
    cases rounds' with
    | nil => exact absurd hrounds' hend
    | cons _ rounds' =>
      rw [List.length_cons] at hrounds hrounds'
      rw [itemsFor, itemsFor, if_neg (mt h.isEmpty_iff.1 hend), if_neg (mt (StandsAt.streamAt h.le).isEmpty_iff.1 hend)]
      rcases item_of_standsAt cap h with ⟨_, j, _, s', hj, hread, hread', hs'⟩ | ⟨cause, j, s', hj, hread, hread', hs'⟩
      · rw [hread, hread']
        exact ih hs' (by omega) (by omega)
      · obtain ⟨hle, -, hlt, -⟩ := Tokens.resumeAt_spec hs'.le
        rw [hread, hread']
        dsimp only
        rw [Tokens.resume_streamAt hs'.le]
        exact congrArg (_ :: ·) (ih hs'.resume (by omega) (by omega))

/-- The faults that are found from an index on. -/
def Tokens.faultsAt (tokens : Tokens) (cap i : Nat) : List ParseFault := (items cap (tokens.streamAt i)).faults

theorem StandsAt.faults (h : StandsAt tokens i s) (hrounds : tokens.lexemes.length ≤ i + rounds.length) :
    (itemsFor cap rounds s).faults = tokens.faultsAt cap i := by
  refine faults_eq h hrounds ?_
  show _ ≤ i + (tokens.lexemes.drop i).length
  rw [List.length_drop]
  omega

theorem Tokens.faultsAt_length (tokens : Tokens) (cap : Nat) : tokens.faultsAt cap tokens.lexemes.length = [] :=
  congrArg Items.faults (itemsFor_of_le (.streamAt (Nat.le_refl _)) (Nat.le_refl _))

/-- Where tokens are left, the faults are those of one round and of the rounds behind it. -/
theorem StandsAt.faultsAt_eq (h : StandsAt tokens i s) (hne : (Builder.stream s).ahead ≠ []) :
    tokens.faultsAt cap i =
      match item cap s with
      | .ok _ after => (itemsFor cap tokens.lexemes after).faults
      | .error fault after => fault :: (itemsFor cap tokens.lexemes (Parse.resume after)).faults := by
  have hi := h.lt_of_ne_nil hne
  have hrounds : tokens.lexemes.length ≤ i + (tokens.lexemes[i] :: tokens.lexemes).length := by
    rw [List.length_cons]
    omega
  rw [← h.faults hrounds, itemsFor, if_neg (mt List.isEmpty_iff.1 hne)]
  cases item cap s <;> rfl

/-- Behind an item, there are the faults that are found there. -/
theorem StandsAt.of_item {node : ν} {after : σ} (h : StandsAt tokens i s) (hne : (Builder.stream s).ahead ≠ [])
    (hread : item cap s = .ok node after) :
    ∃ j, i < j ∧ StandsAt tokens j after ∧ tokens.faultsAt cap i = tokens.faultsAt cap j := by
  rcases item_of_standsAt cap h with ⟨_, j, _, s', hj, -, hread', hs'⟩ | ⟨_, _, _, -, -, hread', -⟩
  · cases hread.symm.trans hread'
    refine ⟨j, hj, hs', ?_⟩
    rw [h.faultsAt_eq hne, hread]
    exact hs'.faults (Nat.le_add_left _ _)
  · cases hread.symm.trans hread'

/-- A faulty item is found at or behind its first token, and then there are the faults that are found behind
the next semicolon. -/
theorem StandsAt.of_faulty {fault : ParseFault} {after : σ} (h : StandsAt tokens i s)
    (hne : (Builder.stream s).ahead ≠ []) (hread : item cap s = .error fault after) :
    ∃ cause j, i ≤ j ∧ j ≤ tokens.lexemes.length ∧ fault = (tokens.streamAt j).fault cause ∧
      StandsAt tokens (tokens.resumeAt j) (Parse.resume after) ∧
      tokens.faultsAt cap i = fault :: tokens.faultsAt cap (tokens.resumeAt j) := by
  rcases item_of_standsAt cap h with ⟨_, _, _, _, -, -, hread', -⟩ | ⟨cause, j, s', hj, -, hread', hs'⟩
  · cases hread.symm.trans hread'
  · cases hread.symm.trans hread'
    refine ⟨cause, j, hj, hs'.le, rfl, hs'.resume, ?_⟩
    rw [h.faultsAt_eq hne, hread]
    exact congrArg (_ :: ·) (hs'.resume.faults (Nat.le_add_left _ _))

end

/-! ## Heads of the loop -/

section

variable {σ ν : Type} [Builder σ ν]

/-- From the first state, the loop over the items comes to its head in a state, with some faults found. -/
inductive Parse.Arrives (cap : Nat) (start : σ) : List ParseFault → σ → Prop
  | start : Arrives cap start [] start
  | item {found : List ParseFault} {s after : σ} {node : ν} (h : Arrives cap start found s)
      (hne : (Builder.stream s).ahead ≠ []) (hread : Parse.item cap s = .ok node after) :
      Arrives cap start found after
  | faulty {found : List ParseFault} {s after : σ} {fault : ParseFault} (h : Arrives cap start found s)
      (hne : (Builder.stream s).ahead ≠ []) (hread : Parse.item cap s = .error fault after) :
      Arrives cap start (found ++ [fault]) (resume after)

/-- The faults were found at these indices, with a semicolon between any two of them, and between each of
them and the next token, if there is one. -/
structure Tokens.FoundAt (tokens : Tokens) (indices : List Nat) (next : Nat) (found : List ParseFault) : Prop where
  faults : List.Forall₂ (fun i fault => i ≤ tokens.lexemes.length ∧ ∃ cause, fault = (tokens.streamAt i).fault cause)
    indices found
  apart : indices.Pairwise tokens.Separated
  behind : next < tokens.lexemes.length → ∀ i ∈ indices, tokens.Separated i next

theorem Tokens.Separated.mono {tokens : Tokens} {i j k : Nat} (h : tokens.Separated i j) (hjk : j ≤ k) :
    tokens.Separated i k := by
  obtain ⟨m, hm, hmj, hsemicolon⟩ := h
  exact ⟨m, hm, Nat.lt_of_lt_of_le hmj hjk, hsemicolon⟩

variable [LawfulBuilder σ] {tokens : Tokens} {cap first : Nat} {start s : σ} {found : List ParseFault}

/-- At every head of the loop, what is found from the first token on is what has been found, and then what is
found from the next token on. -/
theorem Parse.Arrives.standsAt (hstart : StandsAt tokens first start) (h : Arrives cap start found s) :
    ∃ next indices, StandsAt tokens next s ∧ tokens.FoundAt indices next found ∧
      tokens.faultsAt cap first = found ++ tokens.faultsAt cap next := by
  induction h with
  | start => exact ⟨first, [], hstart, ⟨.nil, .nil, by simp⟩, rfl⟩
  | item _ hne hread ih =>
    obtain ⟨i, indices, hs, hfound, heq⟩ := ih
    obtain ⟨j, hj, hafter, hfaults⟩ := hs.of_item hne hread
    refine ⟨j, indices, hafter, ⟨hfound.faults, hfound.apart, fun hlt k hk => ?_⟩, hfaults ▸ heq⟩
    exact (hfound.behind (Nat.lt_trans hj hlt) k hk).mono (Nat.le_of_lt hj)
  | faulty _ hne hread ih =>
    obtain ⟨i, indices, hs, hfound, heq⟩ := ih
    obtain ⟨cause, j, hj, hle, rfl, hafter, hfaults⟩ := hs.of_faulty hne hread
    obtain ⟨hresume, -, -, hsemicolon⟩ := Tokens.resumeAt_spec hle
    have hbehind := hfound.behind (hs.lt_of_ne_nil hne)
    refine ⟨tokens.resumeAt j, indices ++ [j], hafter, ⟨?_, ?_, ?_⟩, ?_⟩
    · exact List.rel_append hfound.faults (.cons ⟨hle, cause, rfl⟩ .nil)
    · refine List.pairwise_append.2 ⟨hfound.apart, List.pairwise_singleton _ _, fun k hk l hl => ?_⟩
      rw [List.mem_singleton.1 hl]
      exact (hbehind k hk).mono hj
    · intro hlt k hk
      rcases List.mem_append.1 hk with hk | hk
      · exact (hbehind k hk).mono (Nat.le_trans hj hresume)
      · rw [List.mem_singleton.1 hk]
        exact hsemicolon hlt
    · rw [heq, hfaults, List.append_assoc, List.singleton_append]

/-- The loop comes to the end with all that it finds. -/
theorem Parse.Arrives.exists_end {rounds : List Lexeme} {next : Nat} (h : Arrives cap start found s)
    (hs : StandsAt tokens next s) (hrounds : tokens.lexemes.length ≤ next + rounds.length) :
    ∃ last, Arrives cap start (found ++ tokens.faultsAt cap next) last ∧
      StandsAt tokens tokens.lexemes.length last := by
  induction rounds generalizing found s next with
  | nil =>
    have hend : next = tokens.lexemes.length := Nat.le_antisymm hs.le hrounds
    subst hend
    rw [Tokens.faultsAt_length, List.append_nil]
    exact ⟨s, h, hs⟩
  | cons _ rounds ih =>
    rw [List.length_cons] at hrounds
    by_cases hne : (Builder.stream s).ahead = []
    · have hend := hs.isEmpty_iff.1 (List.isEmpty_iff.2 hne)
      exact ih h hs (Nat.le_trans hend (Nat.le_add_right _ _))
    rcases hread : Parse.item cap s with ⟨node, after⟩ | ⟨fault, after⟩
    · obtain ⟨j, hj, hafter, hfaults⟩ := hs.of_item hne hread
      rw [hfaults]
      exact ih (h.item hne hread) hafter (by omega)
    · obtain ⟨cause, j, hj, hle, -, hafter, hfaults⟩ := hs.of_faulty hne hread
      obtain ⟨-, -, hlt, -⟩ := Tokens.resumeAt_spec hle
      have hi := hs.lt_of_ne_nil hne
      have hresume := (Tokens.resumeAt_spec hle).1
      rw [hfaults, List.append_cons]
      exact ih (h.faulty hne hread) hafter (by omega)

/-- All faults from an index on are found with a semicolon between any two of them. -/
theorem Tokens.exists_foundAt (h : first ≤ tokens.lexemes.length) : ∃ indices,
    tokens.FoundAt indices tokens.lexemes.length (tokens.faultsAt cap first) := by
  have hstart : StandsAt tokens first (tokens.streamAt first) := .streamAt h
  have harrive : Arrives cap (tokens.streamAt first) [] (tokens.streamAt first) := .start
  obtain ⟨last, hlast, hend⟩ := harrive.exists_end hstart (Nat.le_add_left _ _)
  obtain ⟨next, indices, hnext, hfound, -⟩ := hlast.standsAt hstart
  rw [hnext.index_unique hend] at hfound
  exact ⟨indices, hfound⟩

/-- There are at most as many places with semicolons between them as there are semicolons, and one more. -/
theorem Tokens.length_le_of_separated {indices : List Nat} (h : indices.Pairwise tokens.Separated) :
    indices.length ≤ tokens.words.count (.punct .semicolon) + 1 := by
  have hgoal : ∀ {i rest}, (i :: rest).Pairwise tokens.Separated →
      rest.length ≤ (tokens.words.drop i).count (.punct .semicolon) := by
    intro i rest
    induction rest generalizing i with
    | nil => exact fun _ => Nat.zero_le _
    | cons j rest ih =>
      intro h
      obtain ⟨hfirst, hrest⟩ := List.pairwise_cons.1 h
      obtain ⟨m, him, hmj, hsemicolon⟩ := hfirst j List.mem_cons_self
      have hsplit : tokens.words.drop i = (tokens.words.drop i).take (j - i) ++ tokens.words.drop j := by
        rw [← Nat.add_sub_cancel' (Nat.le_trans him (Nat.le_of_lt hmj)), ← List.drop_drop, Nat.add_sub_cancel_left,
          List.take_append_drop]
      have hmem : Token.punct .semicolon ∈ (tokens.words.drop i).take (j - i) := by
        refine List.mem_of_getElem? (i := m - i) ?_
        rw [List.getElem?_take_of_lt (by omega), List.getElem?_drop, Nat.add_sub_cancel' him, hsemicolon]
      have hpos := List.count_pos_iff.2 hmem
      have hlater := ih hrest
      rw [hsplit, List.count_append, List.length_cons]
      omega
  cases indices with
  | nil => exact Nat.zero_le _
  | cons i rest =>
    have hle := hgoal h
    have hdrop := (List.drop_sublist i tokens.words).count_le (Token.punct .semicolon)
    rw [List.length_cons]
    omega

end

/-! ## Sessions -/

/-- The faults of a document that could not be read. -/
def faultsOf {α : Type} : Except (List Fault) α → List Fault
  | .ok _ => []
  | .error faults => faults

theorem Session.faultsOf_readWithin (cap : Nat) (session : Session) (fileName : String) :
    faultsOf (session.readWithin cap fileName).1 =
      session.faults ++ (Parse.items cap session.stream).faults.map .grammar := by
  unfold readWithin
  dsimp only
  split
  · rename_i hempty
    exact (List.isEmpty_iff.1 hempty).symm
  · rfl

namespace ArenaSession

theorem faultsOf_readWithin (cap : Nat) (session : ArenaSession) (fileName : String) :
    faultsOf (session.readWithin cap fileName).1 =
      session.faults ++ (Parse.itemsFor cap session.state.stream.ahead session.state).faults.map .grammar := by
  unfold readWithin
  dsimp only
  split
  · rename_i hempty
    exact (List.isEmpty_iff.1 hempty).symm
  · rfl

/-- A session of its own finds what is found from an index on. -/
theorem faultsOf_fresh {tokens : Tokens} {i : Nat} (hi : i ≤ tokens.lexemes.length) (cap : Nat) (source : Source)
    (fileName : String) :
    faultsOf ((ofSession ⟨source, .ofTokens ⟨tokens.lexemes.drop i, tokens.finish⟩, []⟩).readWithin cap fileName).1 =
      (tokens.faultsAt cap i).map .grammar := by
  let state : ArenaStream := ⟨.ofTokens ⟨tokens.lexemes.drop i, tokens.finish⟩, .empty⟩
  have hstate : StandsAt tokens i state := ⟨hi, rfl, rfl⟩
  have hrounds : tokens.lexemes.length ≤ i + (tokens.lexemes.drop i).length := by
    rw [List.length_drop]
    omega
  rw [faultsOf_readWithin]
  exact congrArg (List.map Fault.grammar) (hstate.faults hrounds)

/-- Behind a faulty item reading goes on as if it began there. Wherever the loop over the items of a session
comes to its head, the faults of the session are those found so far and then those that a session of its own
over the tokens from there on has. The faults are found at tokens with a semicolon from the one on and before
the next, so they are at most one more than there are semicolons. A session that builds trees has the same
faults, and if the text has a lexical fault, then this is the only one. -/
theorem faults_of_readWithin (source : Source) (tokens : Tokens) (cap : Nat) (fileName : String) :
    let session (lexemes : List Lexeme) : Session := ⟨source, .ofTokens ⟨lexemes, tokens.finish⟩, []⟩
    let faults (lexemes : List Lexeme) := faultsOf ((ofSession (session lexemes)).readWithin cap fileName).1
    (∀ found s, Parse.Arrives cap (ofSession (session tokens.lexemes)).state found s →
      ∃ next ≤ tokens.lexemes.length, s.stream.ahead = tokens.lexemes.drop next ∧
        faults tokens.lexemes = found.map .grammar ++ faults (tokens.lexemes.drop next)) ∧
      (∃ indices found, faults tokens.lexemes = found.map .grammar ∧
        List.Forall₂ (fun i fault => i ≤ tokens.lexemes.length ∧ ∃ cause, fault = (tokens.streamAt i).fault cause)
          indices found ∧
        indices.Pairwise fun i j => ∃ m, i ≤ m ∧ m < j ∧ tokens.words[m]? = some (.punct .semicolon)) ∧
      (faults tokens.lexemes).length ≤ tokens.words.count (.punct .semicolon) + 1 ∧
      faultsOf ((session tokens.lexemes).readWithin cap fileName).1 = faults tokens.lexemes ∧
      ∀ text (cursor : Cursor) fault, cursor.tokenize.1 = .error fault →
        ((ofSession (.ofCursor text cursor)).readWithin cap fileName).1 = .error [.lexical fault] := by
  intro session faults
  have hfaults {i : Nat} (hi : i ≤ tokens.lexemes.length) :
      faults (tokens.lexemes.drop i) = (tokens.faultsAt cap i).map .grammar := faultsOf_fresh hi cap source fileName
  have hall : faults tokens.lexemes = (tokens.faultsAt cap 0).map .grammar := by
    rw [← hfaults (Nat.zero_le _), List.drop_zero]
  have hstart : StandsAt tokens 0 (ofSession (session tokens.lexemes)).state := ⟨Nat.zero_le _, rfl, rfl⟩
  obtain ⟨indices, hfound⟩ : ∃ indices, tokens.FoundAt indices tokens.lexemes.length (tokens.faultsAt cap 0) :=
    Tokens.exists_foundAt (Nat.zero_le _)
  refine ⟨fun found s harrive => ?_, ⟨indices, _, hall, hfound.faults, hfound.apart⟩, ?_, ?_, ?_⟩
  · obtain ⟨next, -, hs, -, heq⟩ := harrive.standsAt hstart
    exact ⟨next, hs.le, hs.ahead_eq, by rw [hall, hfaults hs.le, heq, List.map_append]⟩
  · rw [hall, List.length_map, ← hfound.faults.length_eq]
    exact Tokens.length_le_of_separated hfound.apart
  · rw [hall, Session.faultsOf_readWithin]
    rfl
  · intro text cursor fault hfault
    unfold Session.ofCursor
    rw [hfault]
    rfl

/-- Behind the first of two faulty items, the second fault is what a session of its own finds. -/
theorem faults_of_readWithin_two : ∃ tokens fault s, tokenize "a.Let(;\nvar = 2;\nok();" = .ok tokens ∧
    Parse.Arrives nestingCap (ofSession ⟨.ofText "", .ofTokens tokens, []⟩).state [fault] s ∧
    ∃ next ≤ tokens.lexemes.length, s.stream.ahead = tokens.lexemes.drop next ∧
      faultsOf ((ofSession ⟨.ofText "", .ofTokens tokens, []⟩).readWithin nestingCap "m.cs").1 = [.grammar fault] ++
        faultsOf ((ofSession ⟨.ofText "", .ofTokens ⟨tokens.lexemes.drop next, tokens.finish⟩, []⟩).readWithin
          nestingCap "m.cs").1 := by
  have hfaulty : (tokenize "a.Let(;\nvar = 2;\nok();").toOption.any (fun tokens => !tokens.lexemes.isEmpty &&
      match Parse.item nestingCap (⟨.ofTokens tokens, .empty⟩ : ArenaStream) with
      | .ok _ _ => false
      | .error _ _ => true) = true := by
    decide +kernel
  obtain ⟨tokens, htokens, hfirst⟩ := (Option.any_eq_true _ _).1 hfaulty
  obtain ⟨hsome, hread⟩ := Bool.and_eq_true_iff.1 hfirst
  split at hread
  · cases hread
  · rename_i fault after herror
    have hne : tokens.lexemes ≠ [] := by
      rintro hnil
      rw [hnil] at hsome
      cases hsome
    have harrive : Parse.Arrives nestingCap (ofSession ⟨.ofText "", .ofTokens tokens, []⟩).state ([] ++ [fault])
        (resume after) := .faulty .start hne herror
    exact ⟨tokens, fault, _, eq_ok_of_toOption htokens, harrive,
      (faults_of_readWithin (.ofText "") tokens nestingCap "m.cs").1 _ _ harrive⟩

end ArenaSession

end LetLint
