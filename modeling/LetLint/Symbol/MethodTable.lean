/-
The declared methods of a document. A call picks, among the methods of its name, the first one
with as many parameters as it has arguments, and otherwise the first one of all.
-/
import LetLint.Symbol.Basic
import LetLint.Tree.Node

namespace LetLint

/-- Methods in the order of their declarations. -/
structure MethodTable where
  methods : List Method
  deriving Repr, DecidableEq

namespace MethodTable

/-- No methods. -/
def empty : MethodTable := ⟨[]⟩

/-- Adds a method behind the others. -/
def add (table : MethodTable) (method : Method) : MethodTable :=
  ⟨table.methods ++ [method]⟩

/-- The methods of a name, in the order of their declarations. -/
def overloads (table : MethodTable) (name : String) : List Method :=
  table.methods.filter (·.name == name)

/-- The method that a name stands for, with the number of arguments if it is called. -/
def lookup (table : MethodTable) (name : String) (arity : Option Nat) : Option Method :=
  let overloads := table.overloads name
  (arity.bind fun count => overloads.find? (·.parameters.length == count)).or overloads.head?

/-- The methods that a tree declares anywhere below its root. -/
def ofTree (t : Tree) : MethodTable :=
  ⟨(Node.ofRoot t).descendants.filterMap fun n => Method.ofTree? n.tree⟩

end MethodTable

end LetLint
