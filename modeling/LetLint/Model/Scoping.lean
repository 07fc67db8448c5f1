/-
Resolution by scopes. An identifier stands for the parameter of an enclosing lambda or for a local
declared earlier in an enclosing block, whichever is nearer, and otherwise for a declared method.
A member name behind a dot only ever stands for a method. Type names and the names that a
declaration introduces are no references at all.
-/
import LetLint.Model.Basic
import LetLint.Symbol.Describe
import LetLint.Symbol.MethodTable

namespace LetLint

/-- How an identifier is resolved. -/
inductive Resolution where
  /-- The identifier declares something or names a type. -/
  | notReference
  /-- A parameter or a local in scope. -/
  | scoped (symbol : Symbol)
  /-- A method, or nothing known. -/
  | declared (method : Option Method)
  deriving Repr, DecidableEq

namespace Resolution

/-- The symbol that was found. -/
def symbol? : Resolution → Option Symbol
  | .notReference => none
  | .scoped symbol => some symbol
  | .declared method => method.map .method

/-- What is found, as the log names it. -/
def describe? : Resolution → Option String
  | .notReference => none
  | .scoped symbol => some symbol.describe
  | .declared method => some (Describe.option (method.map fun m => (Symbol.method m).describe))

end Resolution

namespace Scope

/-- The parameter of the given name that a lambda binds; the first of equal names wins. -/
def parameter? (name : String) (scope : Tree) : Option Symbol :=
  if scope.kind.isLambda then
    (scope.lambdaParameters.find? (·.parameterName == name)).map fun p =>
      .parameter (.ofTree p)
  else
    none

/-- The local of the given name that a block declares before an offset; the last one wins. -/
def local? (name : String) (offset : Nat) (scope : Tree) : Option Symbol :=
  if scope.kind.isScope then
    let earlier := (scope.childrenOfKind .localDeclaration).filter (·.span.stop ≤ offset)
    let names := earlier.filterMap Tree.localIdentifier?
    (names.filter (·.name? == some name)).getLast?.map fun declared =>
      .localVar ⟨name, declared.span⟩
  else
    none

/-- What one enclosing node binds a name to. -/
def binding? (name : String) (offset : Nat) (scope : Tree) : Option Symbol :=
  (parameter? name scope).or (local? name offset scope)

/-- What the nearest enclosing node that binds the identifier binds it to. -/
def lookup (n : Node) : Option Symbol :=
  let name := n.name
  let offset := n.span.start
  n.above.findSome? fun crumb => binding? name offset crumb.parent

end Scope

namespace Node

/-- The node declares a name or names a type. -/
def isDeclaring (n : Node) : Bool :=
  match n.parent? with
  | none => true
  | some parent =>
    match parent.kind with
    | .qualifiedType | .method | .parameter => true
    | .localDeclaration => n.isFirstChild
    | _ => false

/-- The node is the name behind the dot of a member access. -/
def isMemberName (n : Node) : Bool :=
  match n.parent? with
  | none => false
  | some parent => parent.kind == .memberAccess && n.isLastChild

/-- The node that would be called if the identifier is: the member access that it ends, or the
identifier itself. -/
def calleeNode (n : Node) : Node :=
  if n.isMemberName then n.parent?.getD n else n

/-- The number of arguments, if the node is what a call calls. -/
def argumentCount? (callee : Node) : Option Nat := do
  let call ← callee.parent?
  if call.kind == .invocation && callee.isFirstChild then
    return (← call.tree.argumentList?).children.length
  else
    none

end Node

namespace MethodTable

/-- Resolves an identifier by the scopes around it and the methods of the table. -/
def resolution (table : MethodTable) (n : Node) : Resolution :=
  if n.isDeclaring then .notReference
  else
    match if n.isMemberName then none else Scope.lookup n with
    | some symbol => .scoped symbol
    | none => .declared (table.lookup n.name n.calleeNode.argumentCount?)

/-- The record of a resolution. -/
def resolutionRecords (table : MethodTable) (n : Node) : List LogRecord :=
  match (table.resolution n).describe? with
  | none => []
  | some text => [⟨.trace, "'" ++ n.name ++ "' resolved to " ++ text⟩]

end MethodTable

namespace Model

/-- The model of scopes and of the methods of a table. -/
def ofTable (table : MethodTable) : Model where
  resolve n := (table.resolution n).symbol?
  records n := table.resolutionRecords n

/-- The model of scopes and of the methods that a tree declares. -/
def ofTree (t : Tree) : Model := ofTable (.ofTree t)

end Model

end LetLint
