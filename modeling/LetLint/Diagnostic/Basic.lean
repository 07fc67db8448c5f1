/-
Diagnostics: what a rule has to say about a place of a document. The message of a diagnostic is
the template of its descriptor with the arguments filled in, one after the other.
-/
import LetLint.Text.Search
import LetLint.Tree.Document

namespace LetLint

/-- How grave a diagnostic is, the gravest first. -/
inductive Severity where
  | error
  | warning
  | info
  | hidden
  deriving Repr, DecidableEq, Inhabited

namespace Severity

/-- The name of a severity. -/
def label : Severity → String
  | .error => "error"
  | .warning => "warning"
  | .info => "info"
  | .hidden => "hidden"

/-- The severity with a name. -/
def ofLabel? (label : String) : Option Severity :=
  [error, warning, info, hidden].find? (·.label == label)

/-- The place of a severity in their order. -/
def rank : Severity → Nat
  | .error => 0
  | .warning => 1
  | .info => 2
  | .hidden => 3

instance : Ord Severity where
  compare a b := compare a.rank b.rank

end Severity

/-- Where a diagnostic points: the file, the positions and the bytes. -/
structure Location where
  file : String
  extent : Extent
  span : Span
  deriving Repr, DecidableEq, Inhabited

/-- Locations are ordered by their file and then by their bytes. -/
instance : Ord Location where
  compare a b := (compare a.file b.file).then (compare a.span b.span)

/-- The location of some bytes of a document. -/
def Document.location (doc : Document) (span : Span) : Location :=
  ⟨doc.fileName, doc.source.extent span, span⟩

/-- What is fixed about a rule and its diagnostics. -/
structure Descriptor where
  id : String
  title : String
  messageFormat : String
  category : String
  severity : Severity
  enabled : Bool
  description : String
  deriving Repr, DecidableEq

/-- A finished diagnostic, with the text that it points at. -/
structure Diagnostic where
  ruleId : String
  category : String
  message : String
  severity : Severity
  location : Location
  flaggedText : String
  deriving Repr, DecidableEq

/-- The placeholder of an argument: its index in braces. -/
def placeholder (index : Nat) : String := "\x7b" ++ toString index ++ "\x7d"

/-- Fills arguments into a template: each replaces its placeholder in what the ones before it
have left. -/
def fillTemplate (template : String) (arguments : List String) : String :=
  arguments.zipIdx.foldl
    (fun message (argument, index) => Text.replaceAll message (placeholder index) argument)
    template

/-- The diagnostic of a descriptor at a location. -/
def Descriptor.diagnostic (descriptor : Descriptor) (location : Location) (flaggedText : String)
    (arguments : List String) : Diagnostic where
  ruleId := descriptor.id
  category := descriptor.category
  message := fillTemplate descriptor.messageFormat arguments
  severity := descriptor.severity
  location := location
  flaggedText := flaggedText

namespace Descriptor

/-- Calls that can fail inside a `Let`. -/
def letSafety : Descriptor where
  id := "NContext_0001"
  title := "Unsafe use of IServiceResponse<T> inside Let expression"
  messageFormat := "Unsafe use of IServiceResponse<T> inside Let expression."
  category := "Safety"
  severity := .warning
  enabled := true
  description :=
    "If calling any methods that return IServiceResponse<T>, use Bind instead of Let. " ++
    "Otherwise, any returned ErrorResponses will be lost, " ++
    "execution will continue as if no error occurred, and no error will be logged."

/-- More diagnostics than were asked for. -/
def limitReached : Descriptor where
  id := "too-many-diagnostics"
  title := "Diagnostic limit reached"
  messageFormat := "Too many diagnostics (\x7b0\x7d), only the first \x7b1\x7d are reported"
  category := "Compiler"
  severity := .info
  enabled := true
  description := "The analysis produced more diagnostics than the configured limit allows."

end Descriptor

end LetLint
