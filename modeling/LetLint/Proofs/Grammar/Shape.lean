/-
The shapes of nodes. Each phrase gives trees of certain kinds, and the kind of a node fixes the
kinds of its parts: a call is a callee and an argument list, a member access a receiver and a name,
a parameter an optional type and a name, and so on. `Kind.admits` lists these shapes as a test on
the kinds of the parts; every node of a derived tree passes it.
-/
import LetLint.Proofs.Grammar.Derivation
import LetLint.Proofs.Tree.Preorder

namespace LetLint

namespace Kind

/-- A literal, a name, or an expression between parentheses. -/
def isPrimary : Kind → Bool
  | .identifier | .parenthesized | .numericLiteral | .stringLiteral | .trueLiteral | .falseLiteral
  | .nullLiteral => true
  | _ => false

/-- What can be called or asked for a member. -/
def isCallee (kind : Kind) : Bool := kind.isPrimary || kind = .invocation || kind = .memberAccess

/-- What can stand behind a prefix operator. -/
def isOperand (kind : Kind) : Bool := kind.isCallee || kind = .unary

/-- What can stand beside a binary operator. -/
def isOperation (kind : Kind) : Bool := kind.isOperand || kind = .binary

/-- An expression. -/
def isExpression (kind : Kind) : Bool := kind.isOperation || kind.isLambda

/-- A statement. -/
def isStatement : Kind → Bool
  | .localDeclaration | .returnStatement | .block | .expressionStatement => true
  | _ => false

/-- The kinds that the parts of a node of the kind can have. -/
def admits : Kind → List Kind → Bool
  | .unit, parts => parts.all fun part => part = .method || part.isStatement
  | .method, parts => parts = [.qualifiedType, .identifier, .parameterList]
  | .parameterList, parts => parts.all (· = .parameter)
  | .parameter, parts => parts = [.identifier] || parts = [.qualifiedType, .identifier]
  | .localDeclaration, [name, value] => name = .identifier && value.isExpression
  | .qualifiedType, parts =>
    parts.head? = some .identifier &&
      (parts.dropWhile (· = .identifier) = [] || parts.dropWhile (· = .identifier) = [.typeArgumentList])
  | .typeArgumentList, parts => parts != [] && parts.all (· = .qualifiedType)
  | .expressionStatement, [value] => value.isExpression
  | .returnStatement, [] => true
  | .returnStatement, [value] => value.isExpression
  | .block, parts => parts.all isStatement
  | .invocation, [callee, arguments] => callee.isCallee && arguments = .argumentList
  | .argumentList, parts => parts.all (· = .argument)
  | .argument, [value] => value.isExpression
  | .memberAccess, [receiver, name] => receiver.isCallee && name = .identifier
  | .simpleLambda, [parameter, body] => parameter = .parameter && (body.isExpression || body = .block)
  | .parenthesizedLambda, [list, body] => list = .parameterList && (body.isExpression || body = .block)
  | .parenthesized, [value] => value.isExpression
  | .binary, [left, right] => left.isOperation && right.isOperation
  | .unary, [operand] => operand.isOperand
  | .identifier, parts | .numericLiteral, parts | .stringLiteral, parts | .trueLiteral, parts
  | .falseLiteral, parts | .nullLiteral, parts => parts = []
  | _, _ => false

/-- The parts of a type are names and type arguments. -/
theorem mem_of_admits_type {part : Kind} {parts : List Kind} (h : Kind.qualifiedType.admits parts = true)
    (hp : part ∈ parts) : part = .identifier ∨ part = .typeArgumentList := by
  simp only [admits, Bool.and_eq_true, Bool.or_eq_true, decide_eq_true_eq] at h
  have hsplit := List.takeWhile_append_dropWhile (p := fun k : Kind => decide (k = .identifier)) (l := parts)
  rw [← hsplit, List.mem_append] at hp
  rcases hp with hp | hp
  · exact .inl (by simpa using List.all_eq_true.1 List.all_takeWhile part hp)
  · rcases h.2 with h | h
    · rw [h] at hp
      cases hp
    · rw [h] at hp
      exact .inr (List.mem_singleton.1 hp)

/-- A unit is no part of anything, and a method is a part of a unit only. -/
theorem of_admits_top {kind top : Kind} {parts : List Kind} (h : kind.admits parts = true) (hp : top ∈ parts)
    (htop : top = .unit ∨ top = .method) : kind = .unit ∧ top = .method := by
  by_cases hk : kind = .qualifiedType
  · subst hk
    rcases mem_of_admits_type h hp with rfl | rfl <;> rcases htop with h | h <;> cases h
  · -- every other kind of parent lists the kinds of its parts, and neither is among them
    unfold admits at h
    split at h
    all_goals grind [isExpression, isOperation, isOperand, isCallee, isPrimary, isStatement, isLambda]

/-- The second part of a lambda is its body, an expression or a block. -/
theorem body_of_admits_lambda {kind body : Kind} {parts : List Kind} (h : kind.admits parts = true)
    (hk : kind.isLambda = true) (hb : parts[1]? = some body) : body.isExpression = true ∨ body = .block := by
  unfold admits at h
  split at h
  all_goals simp_all [isLambda]

end Kind

namespace Tree

variable {t : Tree}

theorem invocation_parts (h : t.kind.admits (t.children.map kind) = true) (hk : t.kind = .invocation) :
    ∃ callee arguments, t.children = [callee, arguments] ∧ callee.kind.isCallee = true ∧
      arguments.kind = .argumentList := by
  rw [hk] at h
  match hc : t.children, h with
  | [callee, arguments], h =>
    simp only [List.map_cons, List.map_nil, Kind.admits, Bool.and_eq_true, decide_eq_true_eq] at h
    exact ⟨callee, arguments, rfl, h.1, h.2⟩

theorem memberAccess_parts (h : t.kind.admits (t.children.map kind) = true) (hk : t.kind = .memberAccess) :
    ∃ receiver name, t.children = [receiver, name] := by
  rw [hk] at h
  match hc : t.children, h with
  | [receiver, name], _ => exact ⟨receiver, name, rfl⟩

end Tree

/-- The kinds of the trees that a phrase stands for. -/
def Phrase.yields (kind : Kind) : Phrase → Bool
  | .name => kind = .identifier
  | .separated _ X => X.yields kind
  | .list X => X.yields kind
  | .type => kind = .qualifiedType
  | .typeArguments => kind = .typeArgumentList
  | .bareParameter | .parameter _ => kind = .parameter
  | .parameters _ => kind = .parameterList
  | .lambdaBody => kind.isExpression || kind = .block
  | .expression => kind.isExpression
  | .binary _ => kind.isOperation
  | .unary => kind.isOperand
  | .call => kind.isCallee
  | .primary => kind.isPrimary
  | .argument => kind = .argument
  | .arguments => kind = .argumentList
  | .statement | .statements => kind.isStatement
  | .block => kind = .block
  | .item => kind = .method || kind.isStatement

/-- Every node of the trees has parts of the kinds that its own kind admits. -/
def Shaped (ts : List Tree) : Prop :=
  ∀ t ∈ Tree.preorderAll ts, t.kind.admits (t.children.map Tree.kind) = true

namespace Shaped

theorem nil : Shaped [] := by simp [Shaped, Tree.preorderAll]

theorem append {ts us : List Tree} (ht : Shaped ts) (hu : Shaped us) : Shaped (ts ++ us) := by
  intro t h
  rw [Tree.preorderAll_append, List.mem_append] at h
  exact h.elim (ht t) (hu t)

theorem leaf (a : Atom) (span : Span) : Shaped [.leaf a span] := by
  intro t h
  simp only [Tree.preorderAll, Tree.preorder, List.append_nil, List.mem_singleton] at h
  subst h
  cases a <;> rfl

theorem node {kind : Kind} {span : Span} {ts : List Tree} (ha : kind.admits (ts.map Tree.kind) = true)
    (ht : Shaped ts) : Shaped [.node kind span ts] := by
  intro t h
  simp only [Tree.preorderAll, Tree.preorder, List.append_nil, List.mem_cons] at h
  rcases h with rfl | h
  · exact ha
  · exact ht t h

end Shaped

namespace Derives

variable {X : Phrase} {ls : List Lexeme} {ts : List Tree}

/-- The trees of a phrase have the kinds of the phrase. -/
theorem yields (h : Derives X ls ts) : ∀ t ∈ ts, X.yields t.kind = true := by
  induction h with
  | atom hl => rename_i a; cases a <;> simp [Phrase.yields, Tree.kind, Atom.kind, Kind.isPrimary]
  | _ => simp_all [Phrase.yields, Kind.isExpression, Kind.isOperation, Kind.isOperand, Kind.isCallee,
      Kind.isPrimary, Kind.isStatement, Kind.isLambda, Tree.kind_leaf, Tree.kind_node, Atom.kind]

theorem yields_one {t : Tree} (h : Derives X ls [t]) : X.yields t.kind = true := h.yields t (by simp)

/-- The dotted names of a type, and its type arguments if it has some. -/
theorem admits_type {more : List Kind} (h : Derives (.separated .dot .name) ls ts)
    (hm : more = [] ∨ more = [.typeArgumentList]) :
    Kind.qualifiedType.admits (ts.map Tree.kind ++ more) = true := by
  have hk : ∀ t ∈ ts, t.kind = .identifier := by simpa [Phrase.yields] using h.yields
  obtain ⟨t, ts, rfl⟩ := List.exists_cons_of_ne_nil h.trees_ne_nil
  have hdrop : ((t :: ts).map Tree.kind ++ more).dropWhile (· = .identifier) = more := by
    rw [List.dropWhile_append_of_pos (by simpa using hk)]
    rcases hm with rfl | rfl <;> simp
  simp only [Kind.admits, hdrop]
  rcases hm with rfl | rfl <;> simp [hk t (by simp)]

/-- Every node of a derived tree has parts of the kinds that its kind admits. -/
theorem shaped (h : Derives X ls ts) : Shaped ts := by
  induction h with
  | name _ | atom _ => exact .leaf _ _
  | last _ ih | items _ ih | untyped _ ih | noLambda _ ih | bodyBlock _ ih
  | bodyValue _ ih | operand _ ih | stronger _ ih | unsigned _ ih | callee _ ih | blockStatement _ ih
  | itemStatement _ ih => exact ih
  | next _ _ _ ih ihm => exact .append ih ihm
  | noItems | noStatements => exact .nil
  | plainType h ih => exact .node (by simpa using h.admits_type (.inl rfl)) ih
  | genericType h ha ih iha =>
    have hk := ha.yields_one
    simp only [Phrase.yields, decide_eq_true_eq] at hk
    exact .node (by simpa [hk] using h.admits_type (.inr rfl)) (.append ih iha)
  | typeArguments _ h _ ih =>
    refine .node ?_ ih
    have hk := h.yields
    have hne := h.trees_ne_nil
    simpa [Kind.admits, Phrase.yields, hne] using hk
  | parameters _ h _ ih | arguments _ h _ ih | block _ h _ ih =>
    have hk := h.yields
    exact .node (by simpa [Kind.admits, Phrase.yields] using hk) ih
  | group _ h _ ih | argument h ih | expressionStatement h _ ih | returnValue _ h _ ih | signed _ _ h ih
  | bareParameter h ih =>
    have hk := h.yields_one
    exact .node (by simpa [Kind.admits, Phrase.yields] using hk) ih
  | typedParameter h g ih ihg | invocation h g ih ihg | access h _ g ih ihg | operation h _ _ g ih ihg
  | bareLambda h _ g ih ihg | lambda h _ g ih ihg | localDeclaration _ h _ g _ ih ihg =>
    have hk := h.yields_one
    have gk := g.yields_one
    refine .node ?_ (.append ih ihg)
    simp_all [Kind.admits, Phrase.yields]
  | returnNothing _ _ => exact .node rfl .nil
  | statements _ _ ih ihm => exact .append ih ihm
  | method ht hn hp _ iht ihn ihp =>
    have hk := ht.yields_one
    have nk := hn.yields_one
    have pk := hp.yields_one
    refine .node ?_ (.append iht (.append ihn ihp))
    simp_all [Kind.admits, Phrase.yields]

end Derives

end LetLint
