/-
Log records: what an analysis says about its own course.
-/

namespace LetLint

/-- How much a record matters. -/
inductive LogLevel where
  | trace
  | debug
  | info
  | warn
  | error
  deriving Repr, DecidableEq

/-- The listed name of a level. -/
def LogLevel.label : LogLevel → String
  | .trace => "TRACE"
  | .debug => "DEBUG"
  | .info => "INFO"
  | .warn => "WARN"
  | .error => "ERROR"

/-- A message of some level. -/
structure LogRecord where
  level : LogLevel
  message : String
  deriving Repr, DecidableEq

end LetLint
