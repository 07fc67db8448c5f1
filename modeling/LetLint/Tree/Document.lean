/-
A document: a file name, a source text and its syntax tree.
-/
import LetLint.Source.Basic
import LetLint.Text.Quoted
import LetLint.Tree.Node

namespace LetLint

/-- A source text under its file name, with its tree. -/
structure Document where
  fileName : String
  source : Source
  tree : Tree

namespace Document

/-- The root of the tree. -/
def root (doc : Document) : Node := .ofRoot doc.tree

/-- All nodes, in the order of the text. -/
def nodes (doc : Document) : List Node := doc.root.withDescendants

/-- The text that a tree of the document covers. -/
def textOf (doc : Document) (t : Tree) : String := doc.source.slice t.span

/-- A tree as messages name it: its kind, its bytes and its text. -/
def describe (doc : Document) (t : Tree) : String :=
  t.kind.label ++ "@" ++ toString t.span.start ++ ".." ++ toString t.span.stop ++ " " ++
    Text.quoted (doc.textOf t)

end Document

end LetLint
