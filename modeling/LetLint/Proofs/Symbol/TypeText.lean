/-
Searching in the text of a type. Names are put together with dots, angle brackets, commas and
spaces only. A piece without any of these that occurs in the text occurs in one of the names, at
whatever depth; it cannot run across a boundary.
-/
import LetLint.Proofs.Rule.Selection

namespace LetLint

/-! ## Occurrences across a boundary -/

/-- If the second part starts with a character that the piece lacks, the piece lies in one of the parts. -/
theorem Text.infix_append_iff {piece before after : List Char} (h : ∀ c ∈ after.head?, c ∉ piece) :
    piece <:+: before ++ after ↔ piece <:+: before ∨ piece <:+: after := by
  refine ⟨fun hin => ?_, ?_⟩
  · obtain ⟨left, right, heq⟩ := hin
    rw [List.append_assoc] at heq
    rcases List.append_eq_append_iff.1 heq with ⟨more, rfl, hpiece⟩ | ⟨more, rfl, hafter⟩
    · -- the piece starts in the first part
      rcases List.append_eq_append_iff.1 hpiece with ⟨rest, rfl, -⟩ | ⟨rest, hrest, hafter⟩
      · exact .inl ⟨left, rest, List.append_assoc ..⟩
      · cases rest with
        | nil => exact .inl ⟨left, [], by simp [hrest]⟩
        | cons c rest =>
          rw [hafter] at h
          exact absurd (hrest ▸ by simp) (h c rfl)
    · exact .inr ⟨more, right, by rw [List.append_assoc, hafter]⟩
  · rintro (hin | hin)
    · exact hin.trans (List.prefix_append ..).isInfix
    · exact hin.trans (List.suffix_append ..).isInfix

theorem Text.infix_cons_iff {piece cs : List Char} {c : Char} (hne : piece ≠ []) (h : c ∉ piece) :
    piece <:+: c :: cs ↔ piece <:+: cs := by
  obtain ⟨first, rest, rfl⟩ := List.exists_cons_of_ne_nil hne
  rw [List.infix_cons_iff, List.cons_prefix_cons]
  have hc : first ≠ c := fun heq => h (heq ▸ List.mem_cons_self)
  exact or_iff_right fun hp => hc hp.1

namespace TypeRef

/-! ## Parts -/

/-- The second type is the first one, or one of its type arguments at some depth. -/
inductive HasPart : TypeRef → TypeRef → Prop
  | self {t : TypeRef} : HasPart t t
  | argument {t a u : TypeRef} (ha : a ∈ t.arguments) (h : HasPart a u) : HasPart t u

theorem hasPart_iff {t u : TypeRef} : t.HasPart u ↔ u = t ∨ ∃ a ∈ t.arguments, a.HasPart u := by
  constructor
  · rintro (_ | ⟨ha, h⟩)
    · exact .inl rfl
    · exact .inr ⟨_, ha, h⟩
  · rintro (rfl | ⟨a, ha, h⟩)
    · exact .self
    · exact .argument ha h

/-- The piece occurs in a name of the type or of one of its parts. -/
def Names (piece : List Char) (t : TypeRef) : Prop := ∃ u, t.HasPart u ∧ ∃ s ∈ u.segments, piece <:+: s.toList

/-- The piece is not empty, and has none of the characters that stand between names. -/
structure Unbroken (piece : List Char) : Prop where
  ne_nil : piece ≠ []
  plain : ∀ c ∈ ['.', '<', ',', ' ', '>'], c ∉ piece

theorem names_iff {piece : List Char} {segments : List String} {arguments : List TypeRef} :
    Names piece ⟨segments, arguments⟩ ↔
      (∃ s ∈ segments, piece <:+: s.toList) ∨ ∃ a ∈ arguments, Names piece a := by
  unfold Names
  constructor
  · rintro ⟨u, hpart, s, hs, hin⟩
    rcases hasPart_iff.1 hpart with rfl | ⟨a, ha, hpart⟩
    · exact .inl ⟨s, hs, hin⟩
    · exact .inr ⟨a, ha, u, hpart, s, hs, hin⟩
  · rintro (⟨s, hs, hin⟩ | ⟨a, ha, u, hpart, hu⟩)
    · exact ⟨_, .self, s, hs, hin⟩
    · exact ⟨u, .argument ha hpart, hu⟩

section

variable {piece : List Char} (hp : Unbroken piece)
include hp

theorem infix_intercalate_iff (segments : List String) :
    piece <:+: (".".intercalate segments).toList ↔ ∃ s ∈ segments, piece <:+: s.toList := by
  induction segments with
  | nil => simpa using hp.ne_nil
  | cons s more ih =>
    cases more with
    | nil => simp
    | cons next more =>
      have hdot : '.' ∉ piece := hp.plain '.' (by simp)
      have hjoin : (".".intercalate (s :: next :: more)).toList =
          s.toList ++ '.' :: (".".intercalate (next :: more)).toList := by
        rw [String.intercalate_cons_cons, String.toList_append, String.toList_append, List.append_assoc]
        rfl
      rw [hjoin, Text.infix_append_iff (by simpa using hdot), Text.infix_cons_iff hp.ne_nil hdot, ih]
      simp only [List.exists_mem_cons_iff]

mutual

/-- A piece that nothing between names can be part of occurs in the text of a type exactly if it
occurs in a name, at some depth. -/
theorem infix_text_iff : (t : TypeRef) → (piece <:+: t.text.toList ↔ Names piece t)
  | ⟨segments, arguments⟩ => by
    have hopen : ∀ c ∈ (argumentsText arguments).toList.head?, c ∉ piece := by
      cases arguments with
      | nil => simp [argumentsText]
      | cons argument more =>
        simpa [argumentsText] using hp.plain '<' (by simp)
    rw [text, String.toList_append, Text.infix_append_iff hopen, infix_intercalate_iff hp,
      infix_argumentsText_iff, names_iff]

theorem infix_argumentsText_iff :
    (arguments : List TypeRef) → (piece <:+: (argumentsText arguments).toList ↔ ∃ a ∈ arguments, Names piece a)
  | [] => by simpa [argumentsText] using hp.ne_nil
  | argument :: more => by
    have hopen : '<' ∉ piece := hp.plain '<' (by simp)
    have hclose : '>' ∉ piece := hp.plain '>' (by simp)
    have hends : ¬ piece <:+: ['>'] := by
      rw [Text.infix_cons_iff hp.ne_nil hclose]
      simpa using hp.ne_nil
    have hmore : ∀ c ∈ (moreText more).toList.head?, c ∉ piece := by
      cases more with
      | nil => simp [moreText]
      | cons next more =>
        simpa [moreText] using hp.plain ',' (by simp)
    rw [argumentsText, String.toList_append, Text.infix_append_iff (by simpa using hclose),
      String.toList_append, Text.infix_append_iff hmore, infix_moreText_iff, String.toList_append]
    simp [Text.infix_cons_iff hp.ne_nil hopen, infix_text_iff, hends]

theorem infix_moreText_iff :
    (arguments : List TypeRef) → (piece <:+: (moreText arguments).toList ↔ ∃ a ∈ arguments, Names piece a)
  | [] => by simpa [moreText] using hp.ne_nil
  | argument :: more => by
    have hcomma : ',' ∉ piece := hp.plain ',' (by simp)
    have hspace : ' ' ∉ piece := hp.plain ' ' (by simp)
    have hmore : ∀ c ∈ (moreText more).toList.head?, c ∉ piece := by
      cases more with
      | nil => simp [moreText]
      | cons next more => simpa [moreText] using hcomma
    rw [moreText, String.toList_append, Text.infix_append_iff hmore, infix_moreText_iff,
      String.toList_append]
    simp [Text.infix_cons_iff hp.ne_nil, hcomma, hspace, infix_text_iff]

end

end

/-! ## Names in a tree -/

/-- The piece occurs in an identifier among the trees and what is below them. -/
def NamesIn (piece : List Char) (ts : List Tree) : Prop :=
  ∃ word span, Tree.leaf (.identifier word) span ∈ Tree.preorderAll ts ∧ piece <:+: word.toList

namespace NamesIn

variable {piece : List Char} {t : Tree} {ts : List Tree}

theorem head (h : NamesIn piece [t]) : NamesIn piece (t :: ts) := by
  obtain ⟨word, span, hmem, hin⟩ := h
  rw [Tree.preorderAll, Tree.preorderAll, List.append_nil] at hmem
  exact ⟨word, span, by rw [Tree.preorderAll]; exact List.mem_append_left _ hmem, hin⟩

theorem tail (h : NamesIn piece ts) : NamesIn piece (t :: ts) := by
  obtain ⟨word, span, hmem, hin⟩ := h
  exact ⟨word, span, by rw [Tree.preorderAll]; exact List.mem_append_right _ hmem, hin⟩

theorem node {kind : Kind} {span : Span} (h : NamesIn piece ts) : NamesIn piece [.node kind span ts] := by
  obtain ⟨word, place, hmem, hin⟩ := h
  refine ⟨word, place, ?_, hin⟩
  rw [Tree.preorderAll, Tree.preorder, List.cons_append]
  exact List.mem_cons_of_mem _ (List.mem_append_left _ hmem)

theorem of_name {word : String} (ht : t ∈ ts) (hname : t.name? = some word) (hin : piece <:+: word.toList) :
    NamesIn piece ts := by
  unfold Tree.name? at hname
  split at hname
  · cases hname
    exact ⟨word, _, Tree.mem_preorderAll ht, hin⟩
  · cases hname

end NamesIn

mutual

/-- A piece that occurs in a name of the type that a tree spells occurs in an identifier of the tree. -/
theorem namesIn_of_ofTree {piece : List Char} : (t : Tree) → Names piece (ofTree t) → NamesIn piece [t]
  | .leaf _ _, h => by
    rw [ofTree, names_iff] at h
    simp at h
  | .node _ _ children, h => by
    rw [ofTree, names_iff] at h
    rcases h with ⟨word, hword, hin⟩ | ⟨a, ha, h⟩
    · obtain ⟨c, hc, hname⟩ := List.mem_filterMap.1 hword
      exact .node (.of_name hc hname hin)
    · exact .node (namesIn_of_argumentsOf children ha h)

theorem namesIn_of_argumentsOf {piece : List Char} : (ts : List Tree) → {a : TypeRef} → a ∈ argumentsOf ts →
    Names piece a → NamesIn piece ts
  | [], _, ha, _ => by
    rw [argumentsOf] at ha
    cases ha
  | .leaf _ _ :: ts, _, ha, h => by
    rw [argumentsOf] at ha
    · exact .tail (namesIn_of_argumentsOf ts ha h)
    · simp
  | .node kind _ types :: ts, _, ha, h => by
    by_cases hk : kind = .typeArgumentList
    · subst hk
      rw [argumentsOf] at ha
      rcases List.mem_append.1 ha with ha | ha
      · exact .head (.node (namesIn_of_typesOf types ha h))
      · exact .tail (namesIn_of_argumentsOf ts ha h)
    · rw [argumentsOf] at ha
      · exact .tail (namesIn_of_argumentsOf ts ha h)
      · simp [hk]

theorem namesIn_of_typesOf {piece : List Char} : (ts : List Tree) → {a : TypeRef} → a ∈ typesOf ts →
    Names piece a → NamesIn piece ts
  | [], _, ha, _ => by
    rw [typesOf] at ha
    cases ha
  | t :: ts, _, ha, h => by
    rw [typesOf] at ha
    split at ha
    · rcases List.mem_cons.1 ha with rfl | ha
      · exact .head (namesIn_of_ofTree t h)
      · exact .tail (namesIn_of_typesOf ts ha h)
    · exact .tail (namesIn_of_typesOf ts ha h)

end

/-! ## The response marker -/

theorem unbroken_responseMarker : Unbroken LetSafety.responseMarker.toList :=
  ⟨by decide, by simp [LetSafety.responseMarker]⟩

/-- A type in a tree whose text has the marker has it in an identifier. -/
theorem namesIn_of_contains {t : Tree} (h : Text.contains (ofTree t).text LetSafety.responseMarker = true) :
    NamesIn LetSafety.responseMarker.toList [t] :=
  namesIn_of_ofTree t ((infix_text_iff unbroken_responseMarker _).1 (Text.occursIn_iff.1 h))

/-- The test on the text of a return type is a test on its names: the response marker occurs in the
text exactly if it occurs in one name of the type or of one of its type arguments, at any depth. -/
theorem contains_text_iff (t : TypeRef) :
    Text.contains t.text LetSafety.responseMarker = true ↔
      ∃ u, t.HasPart u ∧ ∃ s ∈ u.segments, Text.contains s LetSafety.responseMarker = true := by
  unfold Text.contains
  simp only [Text.occursIn_iff]
  exact infix_text_iff unbroken_responseMarker t

end TypeRef

end LetLint
