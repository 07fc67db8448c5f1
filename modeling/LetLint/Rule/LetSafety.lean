/-
The rule against calls that can fail inside a `Let`. A call `x.Name(…)` whose name contains `Let`
goes on when its argument fails, so nothing that it calls should return an `IServiceResponse`.
Both tests are on the text: any member whose name contains the one marker, any method whose
return type mentions the other. The first offending identifier in the order of the text is
reported, and only that one.
-/
import LetLint.Rule.Basic

namespace LetLint.LetSafety

/-- The marker of the members that go on after a failure. -/
def letMarker : String := "Let"

/-- The marker of the types that carry a failure. -/
def responseMarker : String := "IServiceResponse"

/-- A call of a member with the marker in its name: the name, and the list of arguments. -/
structure LetCall where
  name : Node
  arguments : Node

/-- The node as such a call. -/
def letCall? (n : Node) : Option LetCall := do
  guard (n.kind = .invocation)
  let access ← n.firstChild?
  guard (access.kind = .memberAccess)
  let name ← access.lastChild?
  guard (name.kind = .identifier)
  guard (Text.contains name.name letMarker)
  let arguments ← n.lastChild?
  guard (arguments.kind = .argumentList)
  return ⟨name, arguments⟩

/-- The identifiers below the calls among the arguments, call by call. A call inside another is
gone through with it and once more by itself. -/
def candidates (call : LetCall) : List Node :=
  (call.arguments.descendantsOfKind .invocation).flatMap (·.descendantsOfKind .identifier)

/-- The identifier stands for a method whose return type mentions the response marker. -/
def returnsResponse (model : Model) (n : Node) : Bool :=
  match (model.resolve n).bind Symbol.method? with
  | none => false
  | some method => Text.contains method.returnType.text responseMarker

/-- The first candidate that returns a response. -/
def firstUnsafe? (model : Model) (call : LetCall) : Option Node :=
  (candidates call).find? (returnsResponse model)

/-- The diagnostic at an identifier. -/
def report (doc : Document) (n : Node) : Diagnostic :=
  Descriptor.letSafety.diagnostic (doc.location n.span) n.name [n.name]

/-- What the rule finds at a node. -/
def check (doc : Document) (model : Model) (n : Node) : Option Diagnostic := do
  let call ← letCall? n
  let found ← firstUnsafe? model call
  return report doc found

/-- The candidates that are looked at: those before the first unsafe one, and that one. -/
def visited (model : Model) (call : LetCall) : List Node :=
  (candidates call).takeWhile (!returnsResponse model ·) ++ (firstUnsafe? model call).toList

/-- What the rule logs at a node. -/
def records (model : Model) (n : Node) : List LogRecord :=
  match letCall? n with
  | none => []
  | some call =>
    let decision := (firstUnsafe? model call).map fun found =>
      ⟨.debug, "'" ++ found.name ++ "' returns " ++ responseMarker ++
        " inside '" ++ call.name.name ++ "'"⟩
    (visited model call).flatMap model.records ++ decision.toList

/-- The rule. -/
def rule : Rule where
  descriptor := .letSafety
  interest := [.invocation]
  check := check
  records _ model n := records model n

end LetLint.LetSafety
