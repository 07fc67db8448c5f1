/-
Reading again. A session that has read has no token left, whatever it read from and whatever it found, and unless
it keeps faults it keeps no nodes. Reading changes nothing more in such a session: it gives the faults again, or a
document that is nothing but its root. So what is given the second time is given every time from then on.
-/
import LetLint.Proofs.Parse.Recovery

namespace LetLint

open Parse

/-! ## The end of the items -/

section

variable {σ ν : Type} [Builder σ ν] [LawfulBuilder σ] {tokens : Tokens} {cap i : Nat} {s : σ} {rounds : List Lexeme}

/-- With enough rounds, the loop over the items leaves no token, however many of them are faulty. -/
theorem StandsAt.state_itemsFor (h : StandsAt tokens i s) (hrounds : tokens.lexemes.length ≤ i + rounds.length) :
    StandsAt tokens tokens.lexemes.length (itemsFor cap rounds s).state := by
  induction rounds generalizing i s with
  | nil =>
    have hend : i = tokens.lexemes.length := Nat.le_antisymm h.le hrounds
    exact hend ▸ h
  | cons _ rounds ih =>
    rw [List.length_cons] at hrounds
    by_cases hend : tokens.lexemes.length ≤ i
    · rw [itemsFor_of_le h hend]
      exact Nat.le_antisymm h.le hend ▸ h
    · rw [itemsFor, if_neg (mt h.isEmpty_iff.1 hend)]
      rcases item_of_standsAt cap h with ⟨_, j, _, s', hj, -, hread, hs'⟩ | ⟨_, j, s', hj, -, hread, hs'⟩
      · rw [hread]
        exact ih hs' (by omega)
      · obtain ⟨hle, -, hlt, -⟩ := Tokens.resumeAt_spec hs'.le
        rw [hread]
        exact ih hs'.resume (by omega)

end

/-! ## Sessions that have read -/

/-- The document over a source that has no items: its root, which spans the source, and no other node. -/
def ArenaDocument.bare (fileName : String) (source : Source) : ArenaDocument :=
  ⟨fileName, source, ⟨#[⟨.unit, ⟨0, source.size⟩, none, []⟩]⟩, 0⟩

namespace ArenaSession

variable {session : ArenaSession}

/-- No token is left, and unless there are faults, no node either. -/
structure Spent (session : ArenaSession) : Prop where
  ahead_eq : session.state.stream.ahead = []
  arena_eq : session.faults = [] → session.state.arena = .empty

/-- Whatever a session reads, it is spent afterwards. -/
theorem spent_readWithin (cap : Nat) (session : ArenaSession) (fileName : String) :
    (session.readWithin cap fileName).2.Spent := by
  let tokens : Tokens := ⟨session.state.stream.ahead, session.state.stream.finish⟩
  have hstart : StandsAt tokens 0 session.state := .self session.state
  have hend : (itemsFor cap session.state.stream.ahead session.state).state.stream.ahead = [] := by
    have hlast : StandsAt tokens tokens.lexemes.length (itemsFor cap session.state.stream.ahead session.state).state :=
      hstart.state_itemsFor (by simp [tokens])
    exact List.isEmpty_iff.1 (hlast.isEmpty_iff.2 (Nat.le_refl _))
  unfold readWithin
  dsimp only
  split
  · exact ⟨hend, fun _ => rfl⟩
  · rename_i hfaults
    exact ⟨hend, fun hnone => absurd (List.isEmpty_iff.2 hnone) hfaults⟩

/-- What a spent session gives: its faults, or a document without items. -/
def again (session : ArenaSession) (fileName : String) : Except (List Fault) ArenaDocument :=
  if session.faults.isEmpty then .ok (.bare fileName session.source) else .error session.faults

/-- Reading does not change a spent session. -/
theorem Spent.readWithin_eq (h : session.Spent) (cap : Nat) (fileName : String) :
    session.readWithin cap fileName = (session.again fileName, session) := by
  obtain ⟨source, ⟨stream, arena⟩, faults⟩ := session
  obtain ⟨hahead, harena⟩ := h
  dsimp only at hahead harena
  unfold readWithin again
  dsimp only
  rw [hahead, itemsFor, List.map_nil, List.append_nil]
  split
  · rename_i hnone
    rw [harena (List.isEmpty_iff.1 hnone)]
    rfl
  · rfl

/-- A spent session gives the same however often it reads. -/
theorem Spent.readAll_eq (h : session.Spent) (fileNames : List String) :
    session.readAll fileNames = fileNames.map session.again := by
  induction fileNames with
  | nil => rfl
  | cons fileName fileNames ih =>
    rw [readAll, read, h.readWithin_eq, List.map_cons]
    exact congrArg _ ih

/-- What a session gives from its first reading on: after faults these faults again, and after a document one
without items. -/
theorem again_readWithin (cap : Nat) (session : ArenaSession) (fileName again : String) :
    (session.readWithin cap fileName).2.again again = match (session.readWithin cap fileName).1 with
      | .error faults => .error faults
      | .ok _ => .ok (.bare again session.source) := by
  unfold readWithin
  dsimp only
  split
  · rename_i hnone
    exact if_pos hnone
  · rename_i hsome
    exact if_neg hsome

/-- However many tokens or faults were taken from a text before, what a session gives for its first file name
decides what it gives for all others: after faults exactly these, with nothing added, and after a document the
bare root over the text, under the file name. -/
theorem readAll_again (text : String) (taken : Nat) (fileName : String) (fileNames : List String) :
    let session := ofSession (.ofCursor text ((Cursor.ofText text).skip taken))
    session.readAll (fileName :: fileNames) = (session.read fileName).1 :: fileNames.map fun again =>
      match (session.read fileName).1 with
      | .error faults => .error faults
      | .ok _ => .ok (.bare again (.ofText text)) := by
  intro session
  have hsource : session.source = .ofText text := by
    show (Session.ofCursor text _).source = _
    unfold Session.ofCursor
    dsimp only
    split <;> rfl
  have hspent : (session.read fileName).2.Spent := spent_readWithin nestingCap session fileName
  have hfirst : session.readAll (fileName :: fileNames) =
      (session.read fileName).1 :: (session.read fileName).2.readAll fileNames := rfl
  rw [hfirst, hspent.readAll_eq, ← hsource]
  exact congrArg _ (List.map_congr_left fun again _ => again_readWithin nestingCap session fileName again)

end ArenaSession

end LetLint
