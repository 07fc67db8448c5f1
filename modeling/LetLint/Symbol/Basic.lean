/-
Symbols: what a name can stand for. A symbol remembers the bytes of its declaration.
-/
import LetLint.Symbol.TypeRef

namespace LetLint

/-- A parameter of a method or of a lambda; those of a lambda may have no type. -/
structure Parameter where
  name : String
  type : Option TypeRef
  span : Span
  deriving Repr, DecidableEq

/-- A declared method. -/
structure Method where
  name : String
  parameters : List Parameter
  returnType : TypeRef
  span : Span
  deriving Repr, DecidableEq

/-- A local declared by `var`. -/
structure LocalVar where
  name : String
  span : Span
  deriving Repr, DecidableEq

/-- What a name stands for. -/
inductive Symbol where
  | method (symbol : Method)
  | localVar (symbol : LocalVar)
  | parameter (symbol : Parameter)
  deriving Repr, DecidableEq

namespace Symbol

/-- The method that a symbol is. -/
def method? : Symbol → Option Method
  | .method symbol => some symbol
  | _ => none

end Symbol

namespace Parameter

/-- The parameter that a tree declares. -/
def ofTree (t : Tree) : Parameter :=
  ⟨t.parameterName, t.parameterType?.map TypeRef.ofTree, t.span⟩

end Parameter

namespace Method

/-- The method that a tree declares. -/
def ofTree? (t : Tree) : Option Method :=
  if t.kind = .method then do
    let name ← t.methodIdentifier?.bind Tree.name?
    let returnType ← t.returnType?
    return ⟨name, t.methodParameters.map .ofTree, .ofTree returnType, t.span⟩
  else
    none

end Method

end LetLint
