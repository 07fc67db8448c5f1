/-
The grammar as a relation between lexemes and trees. `Derives X ls ts` says that the lexemes `ls`
can be read as the phrase `X` and that they then stand for the trees `ts`: one tree for most
phrases, any number for lists. The relation knows nothing of streams, lookahead or loops. A node
covers the bytes from its first lexeme to its last one, binary operators of one level group to the
left, and a lambda stands only where an expression starts.

`Tree.levels` counts the levels of nesting on the deepest path of a tree. Two facts about all
derivations are proved here: a tree never comes from no lexemes at all, and whatever is kept by
putting pieces side by side and by closing a node over them holds of every derivation.
-/
import LetLint.Tree.Basic
import LetLint.Token.Cursor

namespace LetLint

/-! ## Tokens by their part in the grammar -/

/-- The level of a binary operator, the weakest first. -/
def Punct.level? : Punct → Option Nat
  | .barBar => some 0
  | .ampAmp => some 1
  | .equalEqual | .notEqual => some 2
  | .less | .lessEqual | .greater | .greaterEqual => some 3
  | .plus | .minus => some 4
  | .star | .slash | .percent => some 5
  | _ => none

/-- The punctuation that stands before an operand. -/
def Punct.isSign : Punct → Bool
  | .bang | .minus => true
  | _ => false

/-- What a token stands for as a leaf, if it is a name or a literal. -/
def Token.atom? : Token → Option Atom
  | .identifier name => some (.identifier name)
  | .number _ => some .number
  | .string _ => some .string
  | .keyword .trueWord => some .trueWord
  | .keyword .falseWord => some .falseWord
  | .keyword .nullWord => some .nullWord
  | _ => none

/-- The kinds of leaves: names and literals. -/
def Kind.isAtomic : Kind → Bool
  | .identifier | .numericLiteral | .stringLiteral | .trueLiteral | .falseLiteral | .nullLiteral => true
  | _ => false

theorem Atom.isAtomic_kind (a : Atom) : a.kind.isAtomic = true := by cases a <;> rfl

/-- Where the last of some lexemes ends, or `stop` if there is none. -/
def lastStop (stop : Nat) : List Lexeme → Nat
  | [] => stop
  | l :: ls => lastStop l.stop ls

/-- The bytes from the first of some lexemes to the last one. -/
def cover : List Lexeme → Span
  | [] => ⟨0, 0⟩
  | l :: ls => ⟨l.start.offset, max (lastStop l.stop ls) l.start.offset⟩

/-- The leaf that a lexeme stands for, if it is a name or a literal. -/
def Lexeme.leaf? (l : Lexeme) : Option Tree := l.token.atom?.map (.leaf · (cover [l]))

/-- Only an identifier is a leaf of that kind. -/
theorem Lexeme.identifier_of_leaf? {l : Lexeme} {t : Tree} (h : l.leaf? = some t) (hk : t.kind = .identifier) :
    ∃ name, l.token = .identifier name ∧ t = .leaf (.identifier name) (cover [l]) := by
  unfold leaf? at h
  cases htoken : l.token with
  | identifier name =>
    rw [htoken] at h
    cases h
    exact ⟨name, rfl, rfl⟩
  | keyword word =>
    rw [htoken] at h
    cases word <;> cases h <;> cases hk
  | number _ | string _ | punct _ =>
    rw [htoken] at h
    cases h <;> cases hk

/-! ## Phrases -/

/-- The phrases of the grammar. -/
inductive Phrase where
  | name
  /-- One or more items with the punctuation between them. -/
  | separated (mark : Punct) (item : Phrase)
  /-- Any number of items with commas between them. -/
  | list (item : Phrase)
  | type
  | typeArguments
  /-- A name without a type. -/
  | bareParameter
  /-- A name with its type, or without if it need not be typed. -/
  | parameter (typed : Bool)
  /-- Parameters between parentheses. -/
  | parameters (typed : Bool)
  | lambdaBody
  | expression
  /-- Operands with operators of the level or of stronger ones between them. -/
  | binary (level : Nat)
  | unary
  | call
  | primary
  | argument
  | arguments
  | statement
  | statements
  | block
  | item
  deriving Repr, DecidableEq

/-- The number of levels of binary operators. -/
def operatorLevels : Nat := 6

/-- The lexemes can be read as the phrase, and stand for the trees. -/
inductive Derives : Phrase → List Lexeme → List Tree → Prop
  -- Names and lists
  | name {l : Lexeme} {n : String} (hl : l.token = .identifier n) :
      Derives .name [l] [.leaf (.identifier n) (cover [l])]
  | last {mark : Punct} {X : Phrase} {ls : List Lexeme} {t : Tree} (h : Derives X ls [t]) :
      Derives (.separated mark X) ls [t]
  | next {mark : Punct} {X : Phrase} {ls ms : List Lexeme} {c : Lexeme} {t : Tree} {ts : List Tree}
      (h : Derives X ls [t]) (hc : c.token = .punct mark) (hm : Derives (.separated mark X) ms ts) :
      Derives (.separated mark X) (ls ++ c :: ms) (t :: ts)
  | noItems {X : Phrase} : Derives (.list X) [] []
  | items {X : Phrase} {ls : List Lexeme} {ts : List Tree} (h : Derives (.separated .comma X) ls ts) :
      Derives (.list X) ls ts
  -- Types and parameters
  | plainType {ls : List Lexeme} {ts : List Tree} (h : Derives (.separated .dot .name) ls ts) :
      Derives .type ls [.node .qualifiedType (cover ls) ts]
  | genericType {ls ms : List Lexeme} {ts : List Tree} {a : Tree}
      (h : Derives (.separated .dot .name) ls ts) (ha : Derives .typeArguments ms [a]) :
      Derives .type (ls ++ ms) [.node .qualifiedType (cover (ls ++ ms)) (ts ++ [a])]
  | typeArguments {o c : Lexeme} {ls : List Lexeme} {ts : List Tree} (ho : o.token = .punct .less)
      (h : Derives (.separated .comma .type) ls ts) (hc : c.token = .punct .greater) :
      Derives .typeArguments (o :: (ls ++ [c])) [.node .typeArgumentList (cover (o :: (ls ++ [c]))) ts]
  | typedParameter {typed : Bool} {ls ms : List Lexeme} {t n : Tree} (ht : Derives .type ls [t])
      (hn : Derives .name ms [n]) :
      Derives (.parameter typed) (ls ++ ms) [.node .parameter (cover (ls ++ ms)) [t, n]]
  | bareParameter {ls : List Lexeme} {n : Tree} (hn : Derives .name ls [n]) :
      Derives .bareParameter ls [.node .parameter (cover ls) [n]]
  | untyped {ls : List Lexeme} {p : Tree} (h : Derives .bareParameter ls [p]) : Derives (.parameter false) ls [p]
  | parameters {typed : Bool} {o c : Lexeme} {ls : List Lexeme} {ts : List Tree}
      (ho : o.token = .punct .leftParen) (h : Derives (.list (.parameter typed)) ls ts)
      (hc : c.token = .punct .rightParen) :
      Derives (.parameters typed) (o :: (ls ++ [c])) [.node .parameterList (cover (o :: (ls ++ [c]))) ts]
  -- Expressions
  | bareLambda {ls ms : List Lexeme} {a : Lexeme} {p b : Tree} (hp : Derives .bareParameter ls [p])
      (ha : a.token = .punct .fatArrow) (hb : Derives .lambdaBody ms [b]) :
      Derives .expression (ls ++ a :: ms) [.node .simpleLambda (cover (ls ++ a :: ms)) [p, b]]
  | lambda {ls ms : List Lexeme} {a : Lexeme} {p b : Tree}
      (hp : Derives (.parameters false) ls [p]) (ha : a.token = .punct .fatArrow)
      (hb : Derives .lambdaBody ms [b]) :
      Derives .expression (ls ++ a :: ms) [.node .parenthesizedLambda (cover (ls ++ a :: ms)) [p, b]]
  | noLambda {ls : List Lexeme} {t : Tree} (h : Derives (.binary 0) ls [t]) : Derives .expression ls [t]
  | bodyBlock {ls : List Lexeme} {t : Tree} (h : Derives .block ls [t]) : Derives .lambdaBody ls [t]
  | bodyValue {ls : List Lexeme} {t : Tree} (h : Derives .expression ls [t]) : Derives .lambdaBody ls [t]
  | operand {ls : List Lexeme} {t : Tree} (h : Derives .unary ls [t]) :
      Derives (.binary operatorLevels) ls [t]
  | stronger {k : Nat} {ls : List Lexeme} {t : Tree} (h : Derives (.binary (k + 1)) ls [t]) :
      Derives (.binary k) ls [t]
  | operation {k : Nat} {ls ms : List Lexeme} {o : Lexeme} {p : Punct} {a b : Tree}
      (ha : Derives (.binary k) ls [a]) (ho : o.token = .punct p) (hp : p.level? = some k)
      (hb : Derives (.binary (k + 1)) ms [b]) :
      Derives (.binary k) (ls ++ o :: ms) [.node .binary (cover (ls ++ o :: ms)) [a, b]]
  | signed {o : Lexeme} {p : Punct} {ls : List Lexeme} {t : Tree} (ho : o.token = .punct p)
      (hp : p.isSign = true) (h : Derives .unary ls [t]) :
      Derives .unary (o :: ls) [.node .unary (cover (o :: ls)) [t]]
  | unsigned {ls : List Lexeme} {t : Tree} (h : Derives .call ls [t]) : Derives .unary ls [t]
  | callee {ls : List Lexeme} {t : Tree} (h : Derives .primary ls [t]) : Derives .call ls [t]
  | invocation {ls ms : List Lexeme} {f a : Tree} (hf : Derives .call ls [f]) (ha : Derives .arguments ms [a]) :
      Derives .call (ls ++ ms) [.node .invocation (cover (ls ++ ms)) [f, a]]
  | access {ls ms : List Lexeme} {d : Lexeme} {r n : Tree} (hr : Derives .call ls [r])
      (hd : d.token = .punct .dot) (hn : Derives .name ms [n]) :
      Derives .call (ls ++ d :: ms) [.node .memberAccess (cover (ls ++ d :: ms)) [r, n]]
  | atom {l : Lexeme} {a : Atom} (hl : l.token.atom? = some a) : Derives .primary [l] [.leaf a (cover [l])]
  | group {o c : Lexeme} {ls : List Lexeme} {t : Tree} (ho : o.token = .punct .leftParen)
      (h : Derives .expression ls [t]) (hc : c.token = .punct .rightParen) :
      Derives .primary (o :: (ls ++ [c])) [.node .parenthesized (cover (o :: (ls ++ [c]))) [t]]
  | argument {ls : List Lexeme} {t : Tree} (h : Derives .expression ls [t]) :
      Derives .argument ls [.node .argument (cover ls) [t]]
  | arguments {o c : Lexeme} {ls : List Lexeme} {ts : List Tree} (ho : o.token = .punct .leftParen)
      (h : Derives (.list .argument) ls ts) (hc : c.token = .punct .rightParen) :
      Derives .arguments (o :: (ls ++ [c])) [.node .argumentList (cover (o :: (ls ++ [c]))) ts]
  -- Statements and items
  | localDeclaration {v e s : Lexeme} {ls ms : List Lexeme} {n x : Tree}
      (hv : v.token = .keyword .varWord) (hn : Derives .name ls [n]) (he : e.token = .punct .equal)
      (hx : Derives .expression ms [x]) (hs : s.token = .punct .semicolon) :
      Derives .statement (v :: (ls ++ e :: (ms ++ [s])))
        [.node .localDeclaration (cover (v :: (ls ++ e :: (ms ++ [s])))) [n, x]]
  | returnNothing {r s : Lexeme} (hr : r.token = .keyword .returnWord) (hs : s.token = .punct .semicolon) :
      Derives .statement [r, s] [.node .returnStatement (cover [r, s]) []]
  | returnValue {r s : Lexeme} {ls : List Lexeme} {x : Tree} (hr : r.token = .keyword .returnWord)
      (hx : Derives .expression ls [x]) (hs : s.token = .punct .semicolon) :
      Derives .statement (r :: (ls ++ [s])) [.node .returnStatement (cover (r :: (ls ++ [s]))) [x]]
  | blockStatement {ls : List Lexeme} {t : Tree} (h : Derives .block ls [t]) : Derives .statement ls [t]
  | expressionStatement {s : Lexeme} {ls : List Lexeme} {x : Tree} (hx : Derives .expression ls [x])
      (hs : s.token = .punct .semicolon) :
      Derives .statement (ls ++ [s]) [.node .expressionStatement (cover (ls ++ [s])) [x]]
  | noStatements : Derives .statements [] []
  | statements {ls ms : List Lexeme} {t : Tree} {ts : List Tree} (h : Derives .statement ls [t])
      (hm : Derives .statements ms ts) : Derives .statements (ls ++ ms) (t :: ts)
  | block {o c : Lexeme} {ls : List Lexeme} {ts : List Tree} (ho : o.token = .punct .leftBrace)
      (h : Derives .statements ls ts) (hc : c.token = .punct .rightBrace) :
      Derives .block (o :: (ls ++ [c])) [.node .block (cover (o :: (ls ++ [c]))) ts]
  | method {ls ms ps : List Lexeme} {s : Lexeme} {t n p : Tree} (ht : Derives .type ls [t])
      (hn : Derives .name ms [n]) (hp : Derives (.parameters true) ps [p])
      (hs : s.token = .punct .semicolon) :
      Derives .item (ls ++ (ms ++ (ps ++ [s])))
        [.node .method (cover (ls ++ (ms ++ (ps ++ [s])))) [t, n, p]]
  | itemStatement {ls : List Lexeme} {t : Tree} (h : Derives .statement ls [t]) : Derives .item ls [t]

/-- An item of a text: a tree with the lexemes that it is derived from. -/
structure DerivedItem where
  lexemes : List Lexeme
  tree : Tree
  derives : Derives .item lexemes [tree]

/-! ## All derivations -/

namespace Derives

variable {X : Phrase} {ls : List Lexeme} {ts : List Tree}

theorem trees_ne_nil {mark : Punct} (h : Derives (.separated mark X) ls ts) : ts ≠ [] := by
  cases h <;> simp

/-- A tree is never derived from no lexemes. -/
theorem ne_nil (h : Derives X ls ts) (hts : ts ≠ []) : ls ≠ [] := by
  induction h with
  | noItems | noStatements => exact absurd rfl hts
  | items _ ih => exact ih hts
  | plainType h ih => exact ih h.trees_ne_nil
  | genericType h _ ih _ => simp [ih h.trees_ne_nil]
  | last _ ih | bareParameter _ ih | untyped _ ih | noLambda _ ih
  | bodyBlock _ ih | bodyValue _ ih | operand _ ih | stronger _ ih | unsigned _ ih | callee _ ih | argument _ ih
  | blockStatement _ ih | itemStatement _ ih => exact ih (by simp)
  | _ => simp [*]

theorem eq_nil_of_statements (h : Derives .statements ls []) : ls = [] := by cases h; rfl

/-- A tree covers the lexemes that it is derived from. -/
theorem span_eq {t : Tree} (h : Derives X ls [t]) : t.span = cover ls := by
  generalize hts : [t] = ts at h
  induction h generalizing t with
  | next _ _ hm => exact absurd (List.cons.inj hts).2.symm hm.trees_ne_nil
  | noItems | noStatements => cases hts
  | statements _ hm ih =>
    obtain ⟨rfl, rfl⟩ := List.cons.inj hts
    rw [hm.eq_nil_of_statements, List.append_nil]
    exact ih rfl
  | last _ ih | items _ ih | untyped _ ih | noLambda _ ih | bodyBlock _ ih | bodyValue _ ih | operand _ ih
  | stronger _ ih | unsigned _ ih | callee _ ih | blockStatement _ ih | itemStatement _ ih => exact ih hts
  | _ => cases hts; rfl

/-- A semicolon ends an item that is an expression. -/
theorem exists_semicolon {t : Tree} (h : Derives .item ls [t]) (hk : t.kind = .expressionStatement) :
    ∃ ms c x, ls = ms ++ [c] ∧ c.token = .punct .semicolon ∧ Derives .expression ms [x] := by
  cases h with
  | method => cases hk
  | itemStatement h =>
    cases h with
    | localDeclaration | returnNothing | returnValue => cases hk
    | blockStatement h => cases h; cases hk
    | expressionStatement hx hs => exact ⟨_, _, _, rfl, hs, hx⟩

/-- What holds of single lexemes, of pieces side by side and of a node derived from a piece holds of
every derivation. -/
theorem compositional {P : List Lexeme → List Tree → Prop} (nil : P [] [])
    (skip : ∀ {l : Lexeme}, l.token.atom? = none → P [l] [])
    (leaf : ∀ {l : Lexeme} {a : Atom}, l.token.atom? = some a → P [l] [.leaf a (cover [l])])
    (append : ∀ {ls ms : List Lexeme} {ts us : List Tree}, P ls ts → P ms us → P (ls ++ ms) (ts ++ us))
    (node : ∀ {Y : Phrase} {kind : Kind} {ls : List Lexeme} {ts : List Tree}, kind.isAtomic = false →
      Derives Y ls [.node kind (cover ls) ts] → P ls ts → P ls [.node kind (cover ls) ts])
    (h : Derives X ls ts) : P ls ts := by
  have mark : ∀ {l : Lexeme} {p : Punct}, l.token = .punct p → P [l] [] := fun hl => skip (by rw [hl]; rfl)
  have word : ∀ {l : Lexeme}, l.token = .keyword .varWord ∨ l.token = .keyword .returnWord → P [l] [] := by
    rintro l (hl | hl) <;> exact skip (by rw [hl]; rfl)
  have between : ∀ {ls ms : List Lexeme} {l : Lexeme} {p : Punct} {ts us : List Tree}, P ls ts →
      l.token = .punct p → P ms us → P (ls ++ l :: ms) (ts ++ us) :=
    fun h hl hm => append h (append (mark hl) hm)
  have enclosed : ∀ {ls : List Lexeme} {o c : Lexeme} {p q : Punct} {ts : List Tree}, o.token = .punct p →
      P ls ts → c.token = .punct q → P (o :: (ls ++ [c])) ts := by
    intro ls o c p q ts ho h hc
    simpa using append (mark ho) (append h (mark hc))
  induction h with
  | name hl => exact leaf (by rw [hl]; rfl)
  | last _ ih | items _ ih | untyped _ ih | noLambda _ ih | bodyBlock _ ih
  | bodyValue _ ih | operand _ ih | stronger _ ih | unsigned _ ih | callee _ ih | blockStatement _ ih
  | itemStatement _ ih => exact ih
  | next _ hc _ ih ihm => exact between ih hc ihm
  | noItems | noStatements => exact nil
  | plainType h ih => exact node rfl (.plainType h) ih
  | genericType h ha ih iha => exact node rfl (.genericType h ha) (append ih iha)
  | typeArguments ho h hc ih => exact node rfl (.typeArguments ho h hc) (enclosed ho ih hc)
  | parameters ho h hc ih => exact node rfl (.parameters ho h hc) (enclosed ho ih hc)
  | arguments ho h hc ih => exact node rfl (.arguments ho h hc) (enclosed ho ih hc)
  | block ho h hc ih => exact node rfl (.block ho h hc) (enclosed ho ih hc)
  | group ho h hc ih => exact node rfl (.group ho h hc) (enclosed ho ih hc)
  | @typedParameter typed _ _ _ _ ht hn iht ihn =>
    have h : Derives (.parameter typed) _ _ := .typedParameter ht hn
    exact node rfl h (append iht ihn)
  | bareParameter h ih => exact node rfl (.bareParameter h) ih
  | argument h ih => exact node rfl (.argument h) ih
  | bareLambda hp ha hb ihp ihb => exact node rfl (.bareLambda hp ha hb) (between ihp ha ihb)
  | lambda hp ha hb ihp ihb => exact node rfl (.lambda hp ha hb) (between ihp ha ihb)
  | operation ha ho hp hb iha ihb => exact node rfl (.operation ha ho hp hb) (between iha ho ihb)
  | signed ho hp h ih => exact node rfl (.signed ho hp h) (append (mark ho) ih)
  | invocation hf ha ihf iha => exact node rfl (.invocation hf ha) (append ihf iha)
  | access hr hd hn ihr ihn => exact node rfl (.access hr hd hn) (between ihr hd ihn)
  | atom hl => exact leaf hl
  | localDeclaration hv hn he hx hs ihn ihx =>
    refine node rfl (.localDeclaration hv hn he hx hs) (append (word (.inl hv)) (between ihn he ?_))
    simpa using append ihx (mark hs)
  | returnNothing hr hs => exact node rfl (.returnNothing hr hs) (append (word (.inr hr)) (mark hs))
  | returnValue hr hx hs ihx =>
    refine node rfl (.returnValue hr hx hs) (append (word (.inr hr)) ?_)
    simpa using append ihx (mark hs)
  | expressionStatement hx hs ihx =>
    exact node rfl (.expressionStatement hx hs) (by simpa using append ihx (mark hs))
  | statements _ _ ih ihm => exact append ih ihm
  | method ht hn hp hs iht ihn ihp =>
    exact node rfl (.method ht hn hp hs) (append iht (append ihn (by simpa using append ihp (mark hs))))

end Derives

/-! ## Lists item by item -/

/-- The lexemes behind the first item of a list: none, or the punctuation and a list again. -/
def FollowsItem (mark : Punct) (X : Phrase) (ls : List Lexeme) (ts : List Tree) : Prop :=
  ls = [] ∧ ts = [] ∨ ∃ c ms, ls = c :: ms ∧ c.token = .punct mark ∧ Derives (.separated mark X) ms ts

theorem FollowsItem.derives {mark : Punct} {X : Phrase} {ls ms : List Lexeme} {t : Tree} {ts : List Tree}
    (hf : FollowsItem mark X ms ts) (h : Derives X ls [t]) : Derives (.separated mark X) (ls ++ ms) (t :: ts) := by
  rcases hf with ⟨rfl, rfl⟩ | ⟨c, ms, rfl, hc, hm⟩
  · rw [List.append_nil]; exact .last h
  · exact .next h hc hm

theorem Derives.exists_followsItem {mark : Punct} {X : Phrase} {ls : List Lexeme} {ts : List Tree}
    (h : Derives (.separated mark X) ls ts) :
    ∃ ms ns t us, ls = ms ++ ns ∧ ts = t :: us ∧ Derives X ms [t] ∧ FollowsItem mark X ns us := by
  cases h with
  | last h => exact ⟨ls, [], _, [], by simp, rfl, h, .inl ⟨rfl, rfl⟩⟩
  | @next _ _ ms ns c t us h hc hm => exact ⟨ms, c :: ns, t, us, rfl, rfl, h, .inr ⟨c, ns, rfl, hc, hm⟩⟩

/-- What holds of no more items, and of one item more whenever it holds of those behind it, holds
of all that can follow an item. -/
theorem FollowsItem.induction {mark : Punct} {X : Phrase} {P : List Lexeme → List Tree → Prop} (nil : P [] [])
    (cons : ∀ {c : Lexeme} {ls ms : List Lexeme} {t : Tree} {ts : List Tree}, c.token = .punct mark →
      Derives X ls [t] → FollowsItem mark X ms ts → P ms ts → P (c :: (ls ++ ms)) (t :: ts))
    {ls : List Lexeme} {ts : List Tree} (h : FollowsItem mark X ls ts) : P ls ts := by
  induction hlen : ls.length using Nat.strongRecOn generalizing ls ts with
  | ind length ih =>
    rcases h with ⟨rfl, rfl⟩ | ⟨c, ms, rfl, hc, hm⟩
    · exact nil
    · obtain ⟨ls, ns, t, us, rfl, rfl, ht, hf⟩ := hm.exists_followsItem
      have hshort : ns.length < length := by
        rw [← hlen, List.length_cons, List.length_append]
        omega
      exact cons hc ht hf (ih ns.length hshort hf rfl)

/-- What stands behind an item: the punctuation between items, or what stands behind all of them. -/
theorem FollowsItem.behind {mark : Punct} {X : Phrase} {ls rest : List Lexeme} {ts : List Tree}
    {F : List Lexeme → Prop} (h : FollowsItem mark X ls ts)
    (hmark : ∀ {c : Lexeme} {ms : List Lexeme}, c.token = .punct mark → F (c :: ms)) (hrest : F rest) :
    F (ls ++ rest) := by
  rcases h with ⟨rfl, rfl⟩ | ⟨c, ms, rfl, hc, -⟩
  · exact hrest
  · exact hmark hc

/-! ## Levels of nesting -/

/-- The part is entered as an expression or as an operand, which opens a level. -/
def Kind.enters (parent part : Kind) : Bool :=
  match parent with
  | .expressionStatement | .localDeclaration | .returnStatement | .argument | .parenthesized | .unary => true
  | .simpleLambda | .parenthesizedLambda => !(part matches .parameter | .parameterList | .block)
  | _ => false

/-- Types and blocks open a level by themselves. -/
def Kind.opensLevel : Kind → Bool
  | .qualifiedType | .block => true
  | _ => false

namespace Tree

mutual

/-- The number of levels on the deepest path of a tree. -/
def levels : Tree → Nat
  | .leaf _ _ => 0
  | .node kind _ children => kind.opensLevel.toNat + levelsBelow kind children

/-- The number of levels on the deepest path of the parts of a node. -/
def levelsBelow (parent : Kind) : List Tree → Nat
  | [] => 0
  | t :: ts => max ((parent.enters t.kind).toNat + t.levels) (levelsBelow parent ts)

end

@[simp] theorem levels_leaf (atom : Atom) (span : Span) : (Tree.leaf atom span).levels = 0 := by simp [levels]

@[simp] theorem levels_node (kind : Kind) (span : Span) (ts : List Tree) :
    (Tree.node kind span ts).levels = kind.opensLevel.toNat + levelsBelow kind ts := by simp [levels]

theorem levelsBelow_lt_iff {kind : Kind} {ts : List Tree} {n : Nat} :
    levelsBelow kind ts < n + 1 ↔ ∀ t ∈ ts, t.levels + (kind.enters t.kind).toNat < n + 1 := by
  induction ts with
  | nil => simp [levelsBelow]
  | cons t ts ih => rw [levelsBelow, Nat.max_lt, ih, List.forall_mem_cons, Nat.add_comm]

/-- The levels of a node, from those of its parts and whether they are entered. -/
theorem levels_node_lt_iff {kind : Kind} {span : Span} {ts : List Tree} {n : Nat} :
    (Tree.node kind span ts).levels < n + 1 + kind.opensLevel.toNat ↔
      ∀ t ∈ ts, t.levels + (kind.enters t.kind).toNat < n + 1 := by
  rw [← levelsBelow_lt_iff, levels_node]
  omega

end Tree

end LetLint
