/-
What phrases start with and what can stand behind them. The first token of a phrase tells an
expression from a brace, a keyword or a closing parenthesis, and a call from a prefix operator; what
stands behind an operand ends it, unless it is an operator that binds at least as strongly. Between
the parentheses of a phrase the parentheses are balanced.
-/
import LetLint.Parse.Lookahead
import LetLint.Proofs.Grammar.Derivation

namespace LetLint

/-! ## First tokens -/

namespace Token

/-- A name, a literal or an opening parenthesis. -/
def opensPrimary (token : Token) : Bool := token.atom?.isSome || token == .punct .leftParen

/-- The first token of an expression. -/
def opensExpression (token : Token) : Bool :=
  token.opensPrimary || token == .punct .bang || token == .punct .minus

/-- The first token of a statement. -/
def opensStatement (token : Token) : Bool :=
  token.opensExpression || token == .punct .leftBrace || token == .keyword .varWord || token == .keyword .returnWord

theorem isIdentifier_iff {token : Token} : token.isIdentifier = true ↔ ∃ name, token = .identifier name := by
  cases token <;> simp [isIdentifier]

end Token

/-- The token can be the first one of the phrase. -/
def Phrase.opens (token : Token) : Phrase → Bool
  | .name | .type | .bareParameter | .parameter _ => token.isIdentifier
  | .separated _ X => X.opens token
  | .list _ | .statements => true
  | .typeArguments => token == .punct .less
  | .parameters _ | .arguments => token == .punct .leftParen
  | .primary | .call => token.opensPrimary
  | .unary | .binary _ | .expression | .argument => token.opensExpression
  | .lambdaBody => token.opensExpression || token == .punct .leftBrace
  | .block => token == .punct .leftBrace
  | .statement | .item => token.opensStatement

namespace Derives

variable {X : Phrase} {ls : List Lexeme} {ts : List Tree} {t : Tree}

/-- The first lexeme of a phrase is one that can be. -/
theorem opens_head (h : Derives X ls ts) : ∀ l ∈ ls.head?, X.opens l.token = true := by
  have front : ∀ {ls ms : List Lexeme} {Y : Phrase}, ls ≠ [] → (∀ l ∈ ls.head?, Y.opens l.token = true) →
      ∀ l ∈ (ls ++ ms).head?, Y.opens l.token = true := by
    intro ls ms Y hne h l hl
    obtain ⟨m, ns, rfl⟩ := List.exists_cons_of_ne_nil hne
    exact h l hl
  induction h with
  | noItems | noStatements | items | statements => intro l _; rfl
  | name hl => simp [hl, Phrase.opens, Token.isIdentifier]
  | atom hl => simp [hl, Phrase.opens, Token.opensPrimary]
  | last _ ih | bareParameter _ ih | untyped _ ih | noLambda _ ih | callee _ ih | operand _ ih | stronger _ ih
  | argument _ ih => exact ih
  | plainType _ ih => exact ih
  | next h _ _ ih _ => exact front (h.ne_nil (by simp)) ih
  | genericType h _ ih _ => exact front (h.ne_nil h.trees_ne_nil) ih
  | typedParameter h _ ih _ | invocation h _ ih _ | access h _ _ ih _ | operation h _ _ _ ih _ =>
    exact front (h.ne_nil (by simp)) ih
  | bareLambda h _ _ ih _ =>
    intro l hl
    have hid := front (h.ne_nil (by simp)) ih l hl
    obtain ⟨name, hname⟩ := Token.isIdentifier_iff.1 hid
    simp [Phrase.opens, Token.opensExpression, Token.opensPrimary, hname, Token.atom?]
  | lambda h _ _ ih _ =>
    intro l hl
    have hparen := front (h.ne_nil (by simp)) ih l hl
    simp_all [Phrase.opens, Token.opensExpression, Token.opensPrimary]
  | unsigned _ ih =>
    intro l hl
    have hprimary := ih l hl
    simp_all [Phrase.opens, Token.opensExpression]
  | bodyBlock _ ih | bodyValue _ ih | blockStatement _ ih =>
    intro l hl
    have hbody := ih l hl
    simp_all [Phrase.opens, Token.opensStatement]
  | itemStatement _ ih => exact ih
  | expressionStatement h _ ih =>
    intro l hl
    have hvalue := front (h.ne_nil (by simp)) ih l hl
    simp_all [Phrase.opens, Token.opensStatement]
  | method h _ _ _ ih _ _ =>
    intro l hl
    have hid := front (h.ne_nil (by simp)) ih l hl
    obtain ⟨name, hname⟩ := Token.isIdentifier_iff.1 hid
    simp [Phrase.opens, Token.opensStatement, Token.opensExpression, Token.opensPrimary, hname, Token.atom?]
  | @signed o p _ _ ho hp _ _ =>
    cases p <;> simp_all [Phrase.opens, Token.opensExpression, Punct.isSign]
  | _ => simp_all [Phrase.opens, Token.opensStatement, Token.opensPrimary]

/-- A phrase that stands for a tree has a first lexeme. -/
theorem exists_head (h : Derives X ls [t]) : ∃ l ms, ls = l :: ms ∧ X.opens l.token = true := by
  obtain ⟨l, ms, rfl⟩ := List.exists_cons_of_ne_nil (h.ne_nil (by simp))
  exact ⟨l, ms, rfl, h.opens_head l rfl⟩

end Derives

/-! ## What ends an operand -/

/-- The punctuation ends an operand of the level: it ends the expression, or it is an operator of a
weaker level. -/
def Punct.ends (level : Nat) (p : Punct) : Bool :=
  p = .semicolon || p = .rightParen || p = .comma || p.level?.any (· < level)

/-- The lexemes start with punctuation that ends an operand of the level. -/
def Stops (level : Nat) (rest : List Lexeme) : Prop :=
  ∃ l ms p, rest = l :: ms ∧ l.token = .punct p ∧ p.ends level = true

namespace Stops

variable {level : Nat} {rest : List Lexeme} {l : Lexeme} {p : Punct}

theorem cons (hl : l.token = .punct p) (hp : p.ends level = true) : Stops level (l :: rest) :=
  ⟨l, rest, p, rfl, hl, hp⟩

theorem mono {stronger : Nat} (h : Stops level rest) (hle : level ≤ stronger) : Stops stronger rest := by
  obtain ⟨l, ms, p, rfl, hl, hp⟩ := h
  refine .cons hl ?_
  simp only [Punct.ends, Bool.or_eq_true, Option.any_eq_true, decide_eq_true_eq] at hp ⊢
  rcases hp with hp | ⟨j, hj, hlt⟩
  · exact .inl hp
  · exact .inr ⟨j, hj, by omega⟩

end Stops

/-! ## Balance -/

/-- Every parenthesis of the lexemes is closed among them. -/
def Balanced (ls : List Lexeme) : Prop :=
  ∀ (opened : Nat) (rest : List Lexeme),
    Lookahead.afterClosing opened (ls ++ rest) = Lookahead.afterClosing opened rest

namespace Balanced

variable {ls ms : List Lexeme} {l o c : Lexeme}

theorem nil : Balanced [] := fun _ _ => rfl

theorem append (hl : Balanced ls) (hm : Balanced ms) : Balanced (ls ++ ms) := by
  intro opened rest
  rw [List.append_assoc, hl, hm]

theorem one (ho : l.token ≠ .punct .leftParen) (hc : l.token ≠ .punct .rightParen) : Balanced [l] := by
  intro opened rest
  simp only [List.singleton_append, Lookahead.afterClosing, if_neg ho, if_neg hc]

theorem parens (ho : o.token = .punct .leftParen) (hl : Balanced ls) (hc : c.token = .punct .rightParen) :
    Balanced (o :: (ls ++ [c])) := by
  intro opened rest
  have hopen : ∀ ms, Lookahead.afterClosing opened (o :: ms) = Lookahead.afterClosing (opened + 1) ms := by
    intro ms
    rw [Lookahead.afterClosing.eq_def]
    simp only [ho, if_true]
  rw [List.cons_append, List.append_assoc, hopen, hl]
  simp [Lookahead.afterClosing, hc]

theorem punct {p : Punct} (hl : l.token = .punct p) (ho : p ≠ .leftParen) (hc : p ≠ .rightParen) : Balanced [l] :=
  one (by rw [hl]; simpa using ho) (by rw [hl]; simpa using hc)

theorem between {p : Punct} (hl : Balanced ls) (hc : c.token = .punct p) (hm : Balanced ms)
    (h : p ≠ .leftParen ∧ p ≠ .rightParen) : Balanced (ls ++ c :: ms) := hl.append ((punct hc h.1 h.2).append hm)

end Balanced

/-- The items of the phrase, if it is a list, have no parentheses between them. -/
def Phrase.regular : Phrase → Bool
  | .separated mark X => mark != .leftParen && mark != .rightParen && X.regular
  | .list X => X.regular
  | _ => true

/-- The parentheses of a phrase are balanced. -/
theorem Derives.balanced {X : Phrase} {ls : List Lexeme} {ts : List Tree} (h : Derives X ls ts)
    (hX : X.regular = true) : Balanced ls := by
  have closing : ∀ {ls : List Lexeme} {c : Lexeme} {p : Punct}, Balanced ls → c.token = .punct p →
      p ≠ .leftParen ∧ p ≠ .rightParen → Balanced (ls ++ [c]) := fun hl hc hp => hl.between hc .nil hp
  induction h with
  | noItems | noStatements => exact .nil
  | name hl => exact .one (by rw [hl]; simp) (by rw [hl]; simp)
  | atom hl => exact .one (by intro h; rw [h] at hl; cases hl) (by intro h; rw [h] at hl; cases hl)
  | last _ ih =>
    simp only [Phrase.regular, Bool.and_eq_true] at hX
    exact ih hX.2
  | next _ hc _ ih ihm =>
    have hmark := hX
    simp only [Phrase.regular, Bool.and_eq_true, bne_iff_ne] at hmark
    exact (ih hmark.2).between hc (ihm hX) hmark.1
  | items _ ih => exact ih (by simpa [Phrase.regular] using hX)
  | plainType _ ih | bareParameter _ ih | untyped _ ih | noLambda _ ih | bodyBlock _ ih | bodyValue _ ih
  | operand _ ih | stronger _ ih | unsigned _ ih | callee _ ih | argument _ ih | blockStatement _ ih
  | itemStatement _ ih => exact ih rfl
  | genericType _ _ ih iha | typedParameter _ _ ih iha | invocation _ _ ih iha | statements _ _ ih iha =>
    exact (ih rfl).append (iha rfl)
  | typeArguments ho _ hc ih | block ho _ hc ih =>
    exact (Balanced.punct ho (by simp) (by simp)).append (closing (ih rfl) hc (by simp))
  | parameters ho _ hc ih | arguments ho _ hc ih | group ho _ hc ih => exact .parens ho (ih rfl) hc
  | bareLambda _ ha _ ihp ihb | lambda _ ha _ ihp ihb | access _ ha _ ihp ihb =>
    exact (ihp rfl).between ha (ihb rfl) (by simp)
  | operation _ ho hp _ iha ihb =>
    -- no operator is a parenthesis
    refine (iha rfl).between ho (ihb rfl) ?_
    constructor <;> (rintro rfl; cases hp)
  | signed ho hp _ ih =>
    refine (Balanced.punct ho ?_ ?_).append (ih rfl) <;> (rintro rfl; cases hp)
  | localDeclaration hv _ he _ hs ihn ihx =>
    have hword : Balanced [_] := .one (by rw [hv]; simp) (by rw [hv]; simp)
    exact hword.append ((ihn rfl).between he (closing (ihx rfl) hs (by simp)) (by simp))
  | returnNothing hr hs =>
    have hword : Balanced [_] := .one (by rw [hr]; simp) (by rw [hr]; simp)
    exact closing hword hs (by simp)
  | returnValue hr _ hs ihx =>
    have hword : Balanced [_] := .one (by rw [hr]; simp) (by rw [hr]; simp)
    exact hword.append (closing (ihx rfl) hs (by simp))
  | expressionStatement _ hs ihx => exact closing (ihx rfl) hs (by simp)
  | method _ _ _ hs iht ihn ihp => exact (iht rfl).append ((ihn rfl).append (closing (ihp rfl) hs (by simp)))

end LetLint
