/-
The surface for a host program. The host hands over zero-terminated octets, or nothing at all, and
gets a report and a count back, or neither and a message that it can ask for. What it gets back is
zero-terminated as well, so a text that holds a zero cannot be handed over. The messages are kept in a
list that nothing is ever taken from.
-/
import LetLint.Analysis.Analyzer
import LetLint.Diagnostic.Report
import LetLint.Text.Utf8

namespace LetLint.Embedding

/-- Why octets of a host cannot be analysed. -/
inductive Failure where
  | noInput
  | badText (fault : Text.Utf8.Fault)
  | unreadable (faults : List Fault)
  /-- The report holds a zero, the first one at the given offset. -/
  | zeroInReport (offset : Nat)
  deriving Repr, DecidableEq

namespace Failure

/-- The wording of a failure. -/
def message : Failure → String
  | .noInput => "Null pointer passed as source"
  | .badText fault => "UTF-8 conversion error: " ++ fault.message
  | .unreadable faults => "Failed to parse source: " ++ "; ".intercalate (faults.map Fault.message)
  | .zeroInReport offset =>
    "Output contains an interior nul byte: nul byte found in provided data at position: " ++ toString offset

end Failure

/-- The name under which a host's text is analysed. -/
def inputName : String := "<input>"

/-- The greatest count that a host can take, one less than 2³¹. -/
def countLimit : Nat := 2147483647

/-- The octets before the first zero. -/
def untilZero (octets : List UInt8) : List UInt8 := octets.takeWhile (· != 0)

/-- The report on a text of the host, and the number of diagnostics in it. -/
def reportOn (input : Option (List UInt8)) : Except Failure (String × Nat) := do
  let octets ← (input.map Except.ok).getD (.error .noInput)
  let text ← (Text.Utf8.decode (untilZero octets)).mapError .badText
  let ds ← (analyzeText inputName text).mapError .unreadable
  return ((Printer.mk text inputName false).report ds, ds.length)

/-- The text as it is handed over to a host, or the offset of the first zero in it. -/
def handOver (text : String) : Except Nat String :=
  let before := text.toList.takeWhile (· ≠ '\x00')
  if before.length = text.toList.length then .ok text else .error (byteLength before)

/-- The report on a text of the host as it is handed over, and the number of diagnostics in it. -/
def handedReport (input : Option (List UInt8)) : Except Failure (String × Nat) := do
  let (report, count) ← reportOn input
  let text ← (handOver report).mapError .zeroInReport
  return (text, count)

/-- The messages of all failures so far, the last one last. -/
structure Host where
  messages : List String
  deriving Repr, DecidableEq

/-- What a host gets back: the report, if there is one, and the count. -/
structure Reply where
  report : Option String
  count : Nat
  deriving Repr, DecidableEq

namespace Host

/-- No failure so far. -/
def initial : Host := ⟨[]⟩

/-- Notes a message. -/
def note (host : Host) (message : String) : Host := ⟨host.messages ++ [message]⟩

/-- Analyses octets; a failure is noted. -/
def analyze (host : Host) (input : Option (List UInt8)) : Reply × Host :=
  match handedReport input with
  | .ok (report, count) => (⟨some report, min count countLimit⟩, host)
  | .error failure => (⟨none, 0⟩, host.note ("ncx_analyze failed: " ++ failure.message))

/-- The last message, unless a zero in it keeps it from being handed over. -/
def lastMessage? (host : Host) : Option String :=
  host.messages.getLast?.bind fun message => (handOver message).toOption

end Host

/-! ## Calls -/

/-- What a host can call. -/
inductive Call where
  /-- Analyses octets, or nothing, and asks for the count or does not. -/
  | analyze (input : Option (List UInt8)) (counted : Bool)
  | note (message : String)
  | lastMessage
  /-- Gives back a text that it never got. -/
  | releaseNothing
  deriving Repr, DecidableEq

/-- What a call gives back. -/
inductive Answer where
  /-- The report, if there is one, and the count, if it was asked for. -/
  | analyzed (report : Option String) (count : Option Nat)
  | message (text : Option String)
  | nothing
  deriving Repr, DecidableEq

namespace Host

/-- Serves one call. -/
def serve (host : Host) : Call → Answer × Host
  | .analyze input counted =>
    let (reply, after) := host.analyze input
    (.analyzed reply.report (if counted then some reply.count else none), after)
  | .note message => (.nothing, host.note message)
  | .lastMessage => (.message host.lastMessage?, host)
  | .releaseNothing => (.nothing, host)

/-- The host behind some calls. -/
def serveAll (host : Host) (calls : List Call) : Host :=
  calls.foldl (fun host call => (host.serve call).2) host

end Host

end LetLint.Embedding
