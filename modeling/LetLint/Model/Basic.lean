/-
A model answers what an identifier stands for. Rules ask nothing else of it.
-/
import LetLint.Model.Log
import LetLint.Symbol.Basic
import LetLint.Tree.Node

namespace LetLint

/-- What an identifier stands for, and what is logged when that is asked. -/
structure Model where
  resolve : Node → Option Symbol
  records : Node → List LogRecord

namespace Node

/-- The name that a node stands for, empty if it is no identifier. -/
def name (n : Node) : String := n.tree.name?.getD ""

end Node

/-- What a name is declared to stand for, without a place. -/
inductive Declared where
  | method (returnType : TypeRef)
  | localVar
  | parameter (type : Option TypeRef)
  deriving Repr, DecidableEq

/-- The symbol of a declared name, placed at the identifier itself. -/
def Declared.symbol (declared : Declared) (n : Node) : Symbol :=
  match declared with
  | .method returnType => .method ⟨n.name, [], returnType, n.span⟩
  | .localVar => .localVar ⟨n.name, n.span⟩
  | .parameter type => .parameter ⟨n.name, type, n.span⟩

namespace Model

/-- The model that goes by the name alone, and logs nothing. -/
def byName (declared? : String → Option Declared) : Model where
  resolve n := (declared? n.name).map (·.symbol n)
  records _ := []

end Model

end LetLint
