/-
Reading whole texts. Items are read one after the other; a faulty one is noted and reading goes on
behind the next semicolon. A session keeps its stream and its faults from one reading to the next,
so that a second reading finds nothing more and a faulty session stays faulty.
-/
import LetLint.Parse.Production
import LetLint.Tree.Document

namespace LetLint

/-- The deepest nesting of types, blocks, expressions and operands that is read. -/
def nestingCap : Nat := 128

/-- The nodes of the items of a text, the faults found between them, and the state behind them. -/
structure Items (σ ν : Type) where
  nodes : List ν
  faults : List ParseFault
  state : σ

namespace Parse

variable {σ ν : Type} [Builder σ ν]

/-- Takes one token for each of the listed ones, through the first semicolon. -/
def resumeFrom : List Lexeme → σ → σ
  | [], s => s
  | l :: rest, s =>
    if l.token = .punct .semicolon then Builder.advance s else resumeFrom rest (Builder.advance s)

/-- The state behind the next semicolon, or at the end if there is none. -/
def resume (s : σ) : σ := resumeFrom (Builder.stream s).ahead s

/-- Reads items to the end of the stream, in at most one round for each of the given tokens. -/
def itemsFor (cap : Nat) : List Lexeme → σ → Items σ ν
  | [], s => ⟨[], [], s⟩
  | _ :: rounds, s =>
    if (Builder.stream s).ahead.isEmpty then ⟨[], [], s⟩
    else
      match item cap s with
      | .ok node after =>
        let rest := itemsFor cap rounds after
        ⟨node :: rest.nodes, rest.faults, rest.state⟩
      | .error fault after =>
        let rest := itemsFor cap rounds (resume after)
        ⟨rest.nodes, fault :: rest.faults, rest.state⟩

/-- Reads items as trees to the end of the stream. Each round takes at least one token. -/
def items (cap : Nat) (s : TokenStream) : Items TokenStream Tree := itemsFor cap s.ahead s

end Parse

/-- A text that is being read. -/
structure Session where
  source : Source
  stream : TokenStream
  faults : List Fault

namespace Session

/-- A session over what a cursor of the text has still to read. A lexical fault leaves nothing to
read but the fault. -/
def ofCursor (text : String) (cursor : Cursor) : Session :=
  let source := Source.ofText text
  match cursor.tokenize.1 with
  | .ok tokens => ⟨source, .ofTokens tokens, []⟩
  | .error fault => ⟨source, ⟨[], ⟨source.size, 0, 0⟩, 0⟩, [.lexical fault]⟩

/-- A session over a whole text. -/
def ofText (text : String) : Session := ofCursor text (.ofText text)

/-- Reads a document with at most `cap` levels of nesting. -/
def readWithin (cap : Nat) (session : Session) (fileName : String) :
    Except (List Fault) Document × Session :=
  let items := Parse.items cap session.stream
  let faults := session.faults ++ items.faults.map .grammar
  let tree := .node .unit ⟨0, session.source.size⟩ items.nodes
  let outcome := if faults.isEmpty then .ok ⟨fileName, session.source, tree⟩ else .error faults
  (outcome, ⟨session.source, items.state, faults⟩)

/-- Reads a document. -/
def read (session : Session) (fileName : String) : Except (List Fault) Document × Session :=
  session.readWithin nestingCap fileName

/-- Reads one document for each file name. -/
def readAll : Session → List String → List (Except (List Fault) Document)
  | _, [] => []
  | session, fileName :: rest =>
    let (outcome, after) := session.read fileName
    outcome :: readAll after rest

end Session

/-- Reads a text as a document. -/
def parse (fileName text : String) : Except (List Fault) Document :=
  ((Session.ofText text).read fileName).1

end LetLint
