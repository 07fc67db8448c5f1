/-
Syntax trees. A leaf stands for one token and keeps what the token says; a node stands for a
phrase and keeps its parts in the order of the text. Both carry the bytes that they cover.
-/
import LetLint.Source.Position
import LetLint.Tree.Kind

namespace LetLint

/-- What a leaf stands for. -/
inductive Atom where
  | identifier (name : String)
  | number
  | string
  | trueWord
  | falseWord
  | nullWord
  deriving Repr, DecidableEq, Inhabited

/-- The kind of a leaf. -/
def Atom.kind : Atom → Kind
  | .identifier _ => .identifier
  | .number => .numericLiteral
  | .string => .stringLiteral
  | .trueWord => .trueLiteral
  | .falseWord => .falseLiteral
  | .nullWord => .nullLiteral

/-- A syntax tree. -/
inductive Tree where
  | leaf (atom : Atom) (span : Span)
  | node (kind : Kind) (span : Span) (children : List Tree)
  deriving Repr, Inhabited

namespace Tree

/-- The kind of a tree's top. -/
def kind : Tree → Kind
  | .leaf atom _ => atom.kind
  | .node kind _ _ => kind

/-- The bytes that a tree covers. -/
def span : Tree → Span
  | .leaf _ span => span
  | .node _ span _ => span

/-- The parts of a tree, in the order of the text. -/
def children : Tree → List Tree
  | .leaf _ _ => []
  | .node _ _ children => children

/-- The name that a leaf stands for, if it is an identifier. -/
def name? : Tree → Option String
  | .leaf (.identifier name) _ => some name
  | _ => none

mutual

/-- The number of leaves and nodes of a tree. -/
def size : Tree → Nat
  | .leaf _ _ => 1
  | .node _ _ children => sizeAll children + 1

/-- The number of leaves and nodes of some trees. -/
def sizeAll : List Tree → Nat
  | [] => 0
  | t :: ts => t.size + sizeAll ts

end

theorem size_pos (t : Tree) : 0 < t.size := by
  cases t with
  | leaf _ _ => exact Nat.one_pos
  | node _ _ children => exact Nat.succ_pos _

mutual

/-- A tree and everything below it, each node before its parts and each part before the next. -/
def preorder : Tree → List Tree
  | t@(.leaf _ _) => [t]
  | t@(.node _ _ children) => t :: preorderAll children

/-- The trees and everything below them, one tree after the other. -/
def preorderAll : List Tree → List Tree
  | [] => []
  | t :: ts => t.preorder ++ preorderAll ts

end

end Tree

end LetLint
