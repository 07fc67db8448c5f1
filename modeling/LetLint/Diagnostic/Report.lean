/-
The printed report. Each diagnostic is a line with its place, severity and message; if the text
has its line, that line follows, and under it carets that mark the flagged text. Tabs before the
carets stay tabs, so that the carets stand under what they mark.
-/
import LetLint.Diagnostic.Basic

namespace LetLint

/-- What a report is printed for: the text, the name of the file, and whether in colour. -/
structure Printer where
  text : String
  fileName : String
  colors : Bool

/-- The terminal code that switches to the colour of a severity. -/
def Severity.color : Severity → String
  | .error => "\x1b[31m"
  | .warning => "\x1b[33m"
  | .info => "\x1b[36m"
  | .hidden => "\x1b[90m"

/-- The terminal code that ends a colour. -/
def colorReset : String := "\x1b[0m"

namespace Printer

/-- A piece of text in the colour of a severity, or plain. -/
def paint (printer : Printer) (severity : Severity) (text : String) : String :=
  if printer.colors then severity.color ++ text ++ colorReset else text

/-- The line with the place, the severity, the rule and the message. -/
def header (printer : Printer) (d : Diagnostic) : String :=
  printer.fileName ++ "(" ++ toString d.location.extent.start.line ++ "," ++
    toString d.location.extent.start.column ++ "): " ++
    printer.paint d.severity d.severity.label ++ " " ++ d.ruleId ++ ": " ++ d.message

/-- The source line that a diagnostic starts in. -/
def sourceLine? (printer : Printer) (d : Diagnostic) : Option (List Char) :=
  (Text.lines printer.text.toList)[d.location.extent.start.line - 1]?

/-- The number of carets: the characters of the first flagged line, and at least one. -/
def caretCount (d : Diagnostic) : Nat :=
  match Text.lines d.flaggedText.toList with
  | [] => 1
  | first :: _ => max first.length 1

/-- What stands before the carets under a source line. -/
def indent (line : List Char) (column : Nat) : List Char :=
  (line.take (column - 1)).map fun c => if c = '\t' then '\t' else ' '

/-- The four spaces before source lines and carets. -/
def margin : String := "    "

/-- The source line, without the blanks at its end. -/
def sourceText (line : List Char) : String := margin ++ String.ofList (Text.trimEnd line)

/-- The carets under a source line. -/
def caretText (printer : Printer) (d : Diagnostic) (line : List Char) : String :=
  margin ++ String.ofList (indent line d.location.extent.start.column) ++
    printer.paint d.severity (String.ofList (List.replicate (caretCount d) '^'))

/-- The lines of one diagnostic. -/
def entryLines (printer : Printer) (d : Diagnostic) : List String :=
  match printer.sourceLine? d with
  | none => [printer.header d]
  | some line => [printer.header d, sourceText line, printer.caretText d line]

/-- The lines of one diagnostic, each with a line feed behind it. -/
def entry (printer : Printer) (d : Diagnostic) : String :=
  String.join ((printer.entryLines d).map (· ++ "\n"))

/-- The report on some diagnostics. -/
def report (printer : Printer) (ds : List Diagnostic) : String :=
  String.join (ds.map printer.entry)

end Printer

end LetLint
