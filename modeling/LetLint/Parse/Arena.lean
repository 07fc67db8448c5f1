/-
Reading into an arena. The productions are the same as for trees, and every node that they make is
put into the one arena of the session, also below an item that turns out faulty. A document takes
the arena with it, so that the next one starts with an empty arena.
-/
import LetLint.Parse.Session
import LetLint.Tree.Arena

namespace LetLint

/-- A stream of tokens, and the nodes made so far. -/
structure ArenaStream where
  stream : TokenStream
  arena : Arena

namespace ArenaStream

/-- Puts a node into the arena. -/
def put (kind : Kind) (span : Span) (children : List Nat) (s : ArenaStream) : Nat × ArenaStream :=
  let (index, arena) := s.arena.put kind span children
  (index, ⟨s.stream, arena⟩)

end ArenaStream

/-- Nodes are indices into the arena. -/
instance : Builder ArenaStream Nat where
  stream s := s.stream
  withStream stream s := ⟨stream, s.arena⟩
  makeLeaf atom span s := s.put atom.kind span []
  makeNode kind span children s := s.put kind span children
  startOf index s := s.arena.startOf index

/-- A text that is being read into an arena. -/
structure ArenaSession where
  source : Source
  state : ArenaStream
  faults : List Fault

namespace ArenaSession

/-- A session with an empty arena. -/
def ofSession (session : Session) : ArenaSession :=
  ⟨session.source, ⟨session.stream, .empty⟩, session.faults⟩

/-- Reads a document with at most `cap` levels of nesting. -/
def readWithin (cap : Nat) (session : ArenaSession) (fileName : String) :
    Except (List Fault) ArenaDocument × ArenaSession :=
  let items := Parse.itemsFor cap session.state.stream.ahead session.state
  let faults := session.faults ++ items.faults.map .grammar
  if faults.isEmpty then
    let (root, after) := items.state.put .unit ⟨0, session.source.size⟩ items.nodes
    (.ok ⟨fileName, session.source, after.arena, root⟩,
      ⟨session.source, ⟨after.stream, .empty⟩, faults⟩)
  else
    (.error faults, ⟨session.source, items.state, faults⟩)

/-- Reads a document. -/
def read (session : ArenaSession) (fileName : String) :
    Except (List Fault) ArenaDocument × ArenaSession :=
  session.readWithin nestingCap fileName

/-- Reads one document for each file name. -/
def readAll : ArenaSession → List String → List (Except (List Fault) ArenaDocument)
  | _, [] => []
  | session, fileName :: rest =>
    let (outcome, after) := session.read fileName
    outcome :: readAll after rest

end ArenaSession

/-- Reads a text into an arena. -/
def parseArena (fileName text : String) : Except (List Fault) ArenaDocument :=
  ((ArenaSession.ofSession (.ofText text)).read fileName).1

end LetLint
