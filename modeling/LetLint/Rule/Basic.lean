/-
Rules. A rule looks at one node of a kind that interests it, and finds at most one thing to say.
-/
import LetLint.Diagnostic.Basic
import LetLint.Model.Basic

namespace LetLint

/-- A rule: what is fixed about it, the kinds of nodes that it looks at, what it finds at a node,
and what it logs on the way. -/
structure Rule where
  descriptor : Descriptor
  interest : List Kind
  check : Document → Model → Node → Option Diagnostic
  records : Document → Model → Node → List LogRecord

namespace Rule

/-- The identity of a rule. -/
def id (rule : Rule) : String := rule.descriptor.id

/-- The rule is to be run on the node. -/
def appliesTo (rule : Rule) (n : Node) : Bool :=
  rule.descriptor.enabled && rule.interest.contains n.kind

end Rule

end LetLint
