/-
Running rules over a document. Every node is visited in the order of the text, and every enabled
rule that its kind interests is run on it. The findings can be left in that order, sorted by their
place, or cut off at a limit.
-/
import LetLint.Rule.LetSafety
import LetLint.Rule.Registry
import LetLint.Model.Scoping
import LetLint.Parse.Session

namespace LetLint

/-- Runs the rules of a registry. -/
structure Analyzer where
  registry : Registry

namespace Analyzer

/-- The analyzer with the built-in rules. -/
def builtin : Analyzer := ⟨Registry.empty.register LetSafety.rule⟩

/-- The rules that are to be run on a node. -/
def rulesFor (analyzer : Analyzer) (n : Node) : List Rule :=
  analyzer.registry.rules.filter (·.appliesTo n)

/-- What the rules find at a node. -/
def checkNode (analyzer : Analyzer) (doc : Document) (model : Model) (n : Node) :
    List Diagnostic :=
  (analyzer.rulesFor n).filterMap fun rule => rule.check doc model n

/-- What the rules find at some nodes, node by node. -/
def checkNodes (analyzer : Analyzer) (doc : Document) (model : Model) (nodes : List Node) :
    List Diagnostic :=
  nodes.flatMap (analyzer.checkNode doc model)

/-- What the rules find, in the order of the nodes. -/
def analyze (analyzer : Analyzer) (doc : Document) (model : Model) : List Diagnostic :=
  analyzer.checkNodes doc model doc.nodes

/-! ## Order and limit -/

/-- Findings are ordered by their location, then by their rule. -/
def precedes (a b : Diagnostic) : Bool :=
  ((compare a.location b.location).then (compare a.ruleId b.ruleId)).isLE

/-- Findings in their order; those at one place keep the order in which they were found. -/
def arrange (ds : List Diagnostic) : List Diagnostic := ds.mergeSort precedes

/-- What the rules find, in the order of the places found. -/
def analyzeSorted (analyzer : Analyzer) (doc : Document) (model : Model) : List Diagnostic :=
  arrange (analyzer.analyze doc model)

/-- The diagnostic that says how many were found and how many are kept. -/
def limitDiagnostic (doc : Document) (total limit : Nat) : Diagnostic :=
  Descriptor.limitReached.diagnostic (doc.location ⟨0, 0⟩) "" [toString total, toString limit]

/-- Keeps the findings up to a limit, and says so if there were more. -/
def keepFirst (doc : Document) (limit : Option Nat) (ds : List Diagnostic) : List Diagnostic :=
  match limit with
  | none => ds
  | some limit =>
    if limit < ds.length then ds.take limit ++ [limitDiagnostic doc ds.length limit] else ds

/-- What the rules find, up to a limit. -/
def analyzeLimited (analyzer : Analyzer) (doc : Document) (model : Model) (limit : Option Nat) :
    List Diagnostic :=
  keepFirst doc limit (analyzer.analyze doc model)

/-! ## Log -/

/-- What is logged at a node. -/
def nodeRecords (analyzer : Analyzer) (doc : Document) (model : Model) (n : Node) :
    List LogRecord :=
  (analyzer.rulesFor n).flatMap fun rule =>
    ⟨.trace, rule.id ++ " checking " ++ doc.describe n.tree⟩ :: rule.records doc model n

/-- What is logged while the rules are run. -/
def records (analyzer : Analyzer) (doc : Document) (model : Model) : List LogRecord :=
  doc.nodes.flatMap (analyzer.nodeRecords doc model)

/-- What is logged when a limit cuts findings off. -/
def limitRecords (doc : Document) (limit : Option Nat) (total : Nat) : List LogRecord :=
  match limit with
  | none => []
  | some limit =>
    if limit < total then
      [⟨.warn, toString total ++ " diagnostics in " ++ doc.fileName ++ ", keeping " ++
        toString limit⟩]
    else
      []

/-- What is logged while the rules are run up to a limit. -/
def recordsLimited (analyzer : Analyzer) (doc : Document) (model : Model) (limit : Option Nat) :
    List LogRecord :=
  analyzer.records doc model ++ limitRecords doc limit (analyzer.analyze doc model).length

/-! ## What an analyzer offers -/

/-- The descriptors of the rules. -/
def supported (analyzer : Analyzer) : List Descriptor := analyzer.registry.supported

end Analyzer

/-- Reads a text and runs the built-in rules on it, with the methods that it declares itself. -/
def analyzeText (fileName text : String) : Except (List Fault) (List Diagnostic) := do
  let doc ← parse fileName text
  return Analyzer.builtin.analyze doc (.ofTree doc.tree)

end LetLint
