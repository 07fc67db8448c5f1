/-
Trees seen as what they stand for: a call, a member access, a declaration, a type and so on. A
view exists for the kinds that it names, and asks nothing else of the tree's shape.
-/
import LetLint.Tree.Basic

namespace LetLint.Tree

/-- The first part. -/
def firstChild? (t : Tree) : Option Tree := t.children.head?

/-- The last part. -/
def lastChild? (t : Tree) : Option Tree := t.children.getLast?

/-- The tree itself, if it has the kind. -/
def ofKind? (kind : Kind) (t : Tree) : Option Tree := if t.kind = kind then some t else none

/-- The parts of the first level that have the kind. -/
def childrenOfKind (kind : Kind) (t : Tree) : List Tree :=
  t.children.filter (·.kind = kind)

/-- The argument list of a call: its last part, if that is one. -/
def argumentList? (t : Tree) : Option Tree := t.lastChild?.bind (ofKind? .argumentList)

/-! ## Parameters -/

/-- The type of a parameter. -/
def parameterType? (t : Tree) : Option Tree := t.children.find? (·.kind = .qualifiedType)

/-- The name of a parameter is its last part. -/
def parameterIdentifier? (t : Tree) : Option Tree := t.lastChild?.bind (ofKind? .identifier)

/-- The name of a parameter as text, empty if it has none. -/
def parameterName (t : Tree) : String := (t.parameterIdentifier?.bind name?).getD ""

/-- The parameters of a lambda: the parts of its parameter list, or its one bare parameter. -/
def lambdaParameters (t : Tree) : List Tree :=
  match t.firstChild? with
  | none => []
  | some first =>
    if first.kind = .parameterList then first.childrenOfKind .parameter
    else if first.kind = .parameter then [first]
    else []

/-! ## Declarations -/

/-- The return type of a method is its first part. -/
def returnType? (t : Tree) : Option Tree := t.firstChild?.bind (ofKind? .qualifiedType)

/-- The name of a method is its first identifier. -/
def methodIdentifier? (t : Tree) : Option Tree := t.children.find? (·.kind = .identifier)

/-- The parameters of a method. -/
def methodParameters (t : Tree) : List Tree :=
  (t.childrenOfKind .parameterList).flatMap (·.childrenOfKind .parameter)

/-- The declared name of a local declaration is its first part. -/
def localIdentifier? (t : Tree) : Option Tree := t.firstChild?.bind (ofKind? .identifier)

/-! ## Types -/

/-- The dotted names of a type. -/
def typeSegments (t : Tree) : List String := t.children.filterMap name?

/-- The type arguments of a type. -/
def typeArguments (t : Tree) : List Tree :=
  (t.childrenOfKind .typeArgumentList).flatMap (·.childrenOfKind .qualifiedType)

end LetLint.Tree
