/-
Symbols as log records name them: every field with its name, on one line.
-/
import LetLint.Symbol.Basic
import LetLint.Text.Quoted

namespace LetLint

namespace Describe

/-- A record: its name, and its fields with theirs. -/
def fields (name : String) (entries : List (String × String)) : String :=
  let entry := fun (e : String × String) => e.1 ++ ": " ++ e.2
  name ++ " \x7b " ++ ", ".intercalate (entries.map entry) ++ " \x7d"

/-- A list between brackets. -/
def list (items : List String) : String := "[" ++ ", ".intercalate items ++ "]"

/-- A value that may be missing. -/
def option : Option String → String
  | none => "None"
  | some text => "Some(" ++ text ++ ")"

end Describe

namespace Span

/-- A span with its fields. -/
def describe (span : Span) : String :=
  Describe.fields "TextSpan" [("start", toString span.start), ("end", toString span.stop)]

end Span

namespace TypeRef

mutual

/-- A reference with its fields. -/
def describe : TypeRef → String
  | ⟨segments, arguments⟩ =>
    Describe.fields "TypeReference"
      [("segments", Describe.list (segments.map Text.quoted)),
       ("type_arguments", Describe.list (describeAll arguments))]

/-- References with their fields. -/
def describeAll : List TypeRef → List String
  | [] => []
  | type :: rest => type.describe :: describeAll rest

end

end TypeRef

namespace Parameter

/-- A parameter with its fields. -/
def describe (symbol : Parameter) : String :=
  Describe.fields "ParameterSymbol"
    [("name", Text.quoted symbol.name),
     ("type_ref", Describe.option (symbol.type.map TypeRef.describe)),
     ("span", symbol.span.describe)]

end Parameter

namespace Method

/-- A method with its fields. -/
def describe (symbol : Method) : String :=
  Describe.fields "MethodSymbol"
    [("name", Text.quoted symbol.name),
     ("parameters", Describe.list (symbol.parameters.map Parameter.describe)),
     ("return_type", symbol.returnType.describe),
     ("span", symbol.span.describe)]

end Method

namespace LocalVar

/-- A local with its fields. -/
def describe (symbol : LocalVar) : String :=
  Describe.fields "LocalSymbol"
    [("name", Text.quoted symbol.name), ("span", symbol.span.describe)]

end LocalVar

namespace Symbol

/-- A symbol with its fields. -/
def describe : Symbol → String
  | .method symbol => "Method(" ++ symbol.describe ++ ")"
  | .localVar symbol => "Local(" ++ symbol.describe ++ ")"
  | .parameter symbol => "Parameter(" ++ symbol.describe ++ ")"

end Symbol

end LetLint
