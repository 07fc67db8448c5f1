/-
A registry of rules, in the order of their identities. A rule that is registered takes the place
of one with the same identity.
-/
import LetLint.Rule.Basic

namespace LetLint

/-- Rules in ascending order of their identities. -/
structure Registry where
  rules : List Rule

namespace Registry

/-- No rules. -/
def empty : Registry := ⟨[]⟩

/-- Puts a rule into its place among rules in ascending order. -/
def place (rule : Rule) : List Rule → List Rule
  | [] => [rule]
  | other :: rest =>
    match compare rule.id other.id with
    | .lt => rule :: other :: rest
    | .eq => rule :: rest
    | .gt => other :: place rule rest

/-- Registers a rule. -/
def register (registry : Registry) (rule : Rule) : Registry := ⟨place rule registry.rules⟩

/-- The descriptors of the registered rules. -/
def supported (registry : Registry) : List Descriptor := registry.rules.map (·.descriptor)

end Registry

end LetLint
