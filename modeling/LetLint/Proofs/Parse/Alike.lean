/-
Reading looks at tokens, and never at what an identifier is called or where a token stands. Lexemes
are alike if their tokens are the same up to the names of identifiers; whatever is asked of the
lexemes ahead, the answers on alike lexemes are the same.
-/
import LetLint.Parse.Session
import Mathlib.Data.List.Forall2

namespace LetLint

/-- The token without the name that it may carry. -/
def Token.form : Token → Token
  | .identifier _ => .identifier ""
  | token => token

theorem Token.eq_or_isIdentifier_of_form {t u : Token} (h : t.form = u.form) :
    t = u ∨ ∃ n m, t = .identifier n ∧ u = .identifier m := by
  cases t <;> cases u <;> simp_all [Token.form]

/-- The tokens of the lexemes are the same up to the names of identifiers. -/
def Lexeme.Alike (l m : Lexeme) : Prop := l.token.form = m.token.form

namespace Lexeme.Alike

variable {l m : Lexeme}

theorem isIdentifier_eq (h : l.Alike m) : l.token.isIdentifier = m.token.isIdentifier := by
  rcases Token.eq_or_isIdentifier_of_form h with heq | ⟨a, b, hl, hm⟩
  · rw [heq]
  · rw [hl, hm]
    rfl

theorem punct_iff (h : l.Alike m) (p : Punct) : l.token = .punct p ↔ m.token = .punct p := by
  rcases Token.eq_or_isIdentifier_of_form h with heq | ⟨a, b, hl, hm⟩
  · rw [heq]
  · simp [hl, hm]

theorem beq_punct (h : l.Alike m) (p : Punct) : (l.token == .punct p) = (m.token == .punct p) := by
  rw [Bool.eq_iff_iff, beq_iff_eq, beq_iff_eq, h.punct_iff]

end Lexeme.Alike

/-- Lists of lexemes that are alike one by one. -/
def AllAlike : List Lexeme → List Lexeme → Prop := List.Forall₂ Lexeme.Alike

theorem AllAlike.refl (ls : List Lexeme) : AllAlike ls ls := List.forall₂_same.2 fun _ _ => rfl

theorem AllAlike.isEmpty_eq {ls ms : List Lexeme} (h : AllAlike ls ms) : ls.isEmpty = ms.isEmpty := by
  cases h <;> rfl

namespace Lookahead

variable {ls ms : List Lexeme}

/-! ## Declarations ahead -/

theorem afterSegments_alike (h : AllAlike ls ms) : AllAlike (afterSegments ls) (afterSegments ms) := by
  fun_induction afterSegments ls generalizing ms with
  | case1 => cases h; exact .nil
  | case2 l =>
    obtain ⟨m, ms, hl, hnil, rfl⟩ := List.forall₂_cons_left_iff.1 h
    cases hnil
    exact h
  | case3 l k rest hdot ih =>
    obtain ⟨l', ms, hl, htail, rfl⟩ := List.forall₂_cons_left_iff.1 h
    obtain ⟨k', ms, hk, hrest, rfl⟩ := List.forall₂_cons_left_iff.1 htail
    rw [hl.punct_iff, hk.isIdentifier_eq] at hdot
    rw [afterSegments, if_pos hdot]
    exact ih hrest
  | case4 l k rest hdot =>
    obtain ⟨l', ms, hl, htail, rfl⟩ := List.forall₂_cons_left_iff.1 h
    obtain ⟨k', ms, hk, hrest, rfl⟩ := List.forall₂_cons_left_iff.1 htail
    rw [hl.punct_iff, hk.isIdentifier_eq] at hdot
    rw [afterSegments, if_neg hdot]
    exact h

/-- Two ways to go on answer alike on alike lexemes. -/
def AnswerAlike (f g : List Lexeme → Option (List Lexeme)) : Prop :=
  ∀ {ls ms : List Lexeme}, AllAlike ls ms → Option.Rel AllAlike (f ls) (g ms)

theorem bind_alike {f g : List Lexeme → Option (List Lexeme)} (hf : AnswerAlike f g)
    {x y : Option (List Lexeme)} (h : Option.Rel AllAlike x y) : Option.Rel AllAlike (x.bind f) (y.bind g) := by
  cases h with
  | none => exact .none
  | some h => exact hf h

theorem afterCommas_alike {f g : List Lexeme → Option (List Lexeme)} (hf : AnswerAlike f g) :
    ∀ {rounds rounds' ls ms : List Lexeme}, rounds.length = rounds'.length → AllAlike ls ms →
      Option.Rel AllAlike (afterCommas f rounds ls) (afterCommas g rounds' ms)
  | [], [], _, _, _, h => .some h
  | [], _ :: _, _, _, hlen, _ => by cases hlen
  | _ :: _, [], _, _, hlen, _ => by cases hlen
  | _ :: _, _ :: _, [], _, _, h => by cases h; exact .some .nil
  | _ :: rounds, _ :: rounds', l :: rest, ms, hlen, h => by
    obtain ⟨m, ms, hl, hrest, rfl⟩ := List.forall₂_cons_left_iff.1 h
    rw [afterCommas, afterCommas]
    simp only [hl.punct_iff]
    split
    · exact bind_alike (fun h => afterCommas_alike hf (Nat.succ.inj hlen) h) (hf hrest)
    · exact .some h

theorem afterTypeArguments_alike {f g : List Lexeme → Option (List Lexeme)} (hf : AnswerAlike f g) :
    AnswerAlike (afterTypeArguments f) (afterTypeArguments g) := by
  intro ls ms h
  refine bind_alike (fun {ls ms} h => ?_) (hf h)
  refine bind_alike (fun {ls ms} h => ?_) (afterCommas_alike hf h.length_eq h)
  cases h with
  | nil => exact .none
  | cons hl hrest =>
    simp only [hl.punct_iff]
    split
    · exact .some hrest
    · exact .none

theorem afterType?_alike : ∀ levels, AnswerAlike (afterType? levels) (afterType? levels)
  | 0, _, _, _ => .none
  | _ + 1, _, _, .nil => .none
  | levels + 1, l :: ls, m :: ms, .cons hl hrest => by
    rw [afterType?, afterType?, hl.isIdentifier_eq]
    split
    · have hsegments := afterSegments_alike hrest
      revert hsegments
      generalize afterSegments ls = after
      generalize afterSegments ms = after'
      intro hsegments
      cases hsegments with
      | nil => exact .some .nil
      | cons hk hinner =>
        simp only [hk.punct_iff]
        split
        · exact afterTypeArguments_alike (afterType?_alike levels) hinner
        · exact .some (.cons hk hinner)
    · exact .none

theorem startsMethod_alike (cap : Nat) (h : AllAlike ls ms) : startsMethod cap ls = startsMethod cap ms := by
  unfold startsMethod
  have htype := afterType?_alike cap h
  revert htype
  generalize afterType? cap ls = x
  generalize afterType? cap ms = y
  intro htype
  cases htype with
  | none => rfl
  | some h =>
    cases h with
    | nil => rfl
    | cons hl h =>
      cases h with
      | nil => rfl
      | cons hm _ => simp only [hl.isIdentifier_eq, hm.beq_punct]

/-! ## Lambdas ahead -/

theorem startsBareLambda_alike (h : AllAlike ls ms) : startsBareLambda ls = startsBareLambda ms := by
  cases h with
  | nil => rfl
  | cons hl h =>
    cases h with
    | nil => rfl
    | cons hm _ => simp only [startsBareLambda, hl.isIdentifier_eq, hm.beq_punct]

theorem startsUntypedParameter_alike (h : AllAlike ls ms) :
    startsUntypedParameter ls = startsUntypedParameter ms := by
  cases h with
  | nil => rfl
  | cons _ h =>
    cases h with
    | nil => rfl
    | cons hm _ => simp only [startsUntypedParameter, hm.beq_punct]

theorem afterClosing_alike : ∀ {opened : Nat} {ls ms : List Lexeme}, AllAlike ls ms →
    Option.Rel AllAlike (afterClosing opened ls) (afterClosing opened ms)
  | _, _, _, .nil => .none
  | opened, l :: ls, m :: ms, .cons hl hrest => by
    unfold afterClosing
    simp only [hl.punct_iff]
    split
    · exact afterClosing_alike hrest
    · split
      · cases opened with
        | zero => exact .some hrest
        | succ opened => exact afterClosing_alike hrest
      · exact afterClosing_alike hrest

theorem startsParenthesizedLambda_alike (h : AllAlike ls ms) :
    startsParenthesizedLambda ls = startsParenthesizedLambda ms := by
  cases h with
  | nil => rfl
  | @cons l m ls ms hl h =>
    have hclosing : Option.Rel AllAlike (afterClosing 0 ls) (afterClosing 0 ms) := afterClosing_alike h
    simp only [startsParenthesizedLambda, hl.beq_punct]
    congr 1
    revert hclosing
    generalize afterClosing 0 ls = x
    generalize afterClosing 0 ms = y
    intro hclosing
    cases hclosing with
    | none => rfl
    | some h =>
      cases h with
      | nil => rfl
      | cons hk _ => exact hk.beq_punct .fatArrow

end Lookahead

/-! ## Streams -/

namespace TokenStream

variable {s t : TokenStream}

/-- The next tokens of streams with alike lexemes ahead are the same, or both are identifiers. -/
theorem current?_alike (h : AllAlike s.ahead t.ahead) :
    s.current? = t.current? ∨ ∃ n m, s.current? = some (.identifier n) ∧ t.current? = some (.identifier m) := by
  unfold current?
  revert h
  generalize s.ahead = ls
  generalize t.ahead = ms
  intro h
  cases h with
  | nil => exact .inl rfl
  | @cons l m _ _ hl _ =>
    rcases Token.eq_or_isIdentifier_of_form hl with heq | ⟨a, b, ha, hb⟩
    · exact .inl (congrArg some heq)
    · exact .inr ⟨a, b, congrArg some ha, congrArg some hb⟩

theorem isAt_alike (h : AllAlike s.ahead t.ahead) : s.isAt = t.isAt := by
  funext mark
  unfold isAt
  rcases current?_alike h with heq | ⟨n, m, hs, ht⟩
  · rw [heq]
  · rw [hs, ht]
    rfl

end TokenStream

end LetLint
