/-
The stream of tokens that the grammar is read from. Reading either succeeds or stops with a fault;
in both cases the stream stands where reading got to. What is read becomes nodes of a builder, and
reading asks of a builder only that it hold a stream and make nodes. A loop makes at most one round
for each token that was ahead of it, which is no limit for rounds that each take a token.
-/
import LetLint.Parse.Fault
import LetLint.Tree.Basic

namespace LetLint

/-- The tokens ahead, the place where the input ends, and the offset at which the last token that
was taken ended. -/
structure TokenStream where
  ahead : List Lexeme
  finish : Mark
  lastEnd : Nat
  deriving Repr, DecidableEq

namespace TokenStream

/-- The stream of all tokens of a text. -/
def ofTokens (tokens : Tokens) : TokenStream := ⟨tokens.lexemes, tokens.finish, 0⟩

/-- The next token, or nothing at the end. -/
def current? (s : TokenStream) : Option Token := s.ahead.head?.map (·.token)

/-- The place of the next token, or of the end. -/
def place (s : TokenStream) : Mark :=
  match s.ahead with
  | [] => s.finish
  | l :: _ => l.start

/-- The stream behind the next token. -/
def advance (s : TokenStream) : TokenStream :=
  match s.ahead with
  | [] => s
  | l :: rest => ⟨rest, s.finish, l.stop⟩

@[simp] theorem ahead_advance (s : TokenStream) : s.advance.ahead = s.ahead.tail := by
  unfold advance
  split <;> simp [*]

@[simp] theorem finish_advance (s : TokenStream) : s.advance.finish = s.finish := by
  unfold advance
  split <;> rfl

/-- The next token is the given punctuation. -/
def isAt (s : TokenStream) (mark : Punct) : Bool := s.current? == some (.punct mark)

/-- The fault of the given cause at the next token. -/
def fault (s : TokenStream) (cause : ParseCause) : ParseFault := ⟨cause, s.current?, s.place⟩

end TokenStream

/-- Reading with a state. -/
abbrev Reading (σ : Type) := EStateM ParseFault σ

/-- Reading from a stream of tokens. -/
abbrev Parse := Reading TokenStream

/-- A state that a stream is read from and that nodes are made in. A `ν` stands for a node: the
tree itself, or the place where the node is kept. -/
class Builder (σ : Type) (ν : outParam Type) where
  /-- The stream as it stands. -/
  stream : σ → TokenStream
  /-- The state with another stream. -/
  withStream : TokenStream → σ → σ
  /-- Makes a leaf over some bytes. -/
  makeLeaf : Atom → Span → σ → ν × σ
  /-- Makes a node over some bytes and parts. -/
  makeNode : Kind → Span → List ν → σ → ν × σ
  /-- The offset at which a node starts. -/
  startOf : ν → σ → Nat

/-- Trees need no state beyond the stream. -/
instance : Builder TokenStream Tree where
  stream s := s
  withStream s _ := s
  makeLeaf atom span s := (.leaf atom span, s)
  makeNode kind span children s := (.node kind span children, s)
  startOf t _ := t.span.start

/-- The state behind the next token. -/
def Builder.advance {σ ν : Type} [Builder σ ν] (s : σ) : σ :=
  Builder.withStream (Builder.stream s).advance s

@[simp] theorem Builder.stream_eq (s : TokenStream) : Builder.stream s = s := rfl

@[simp] theorem Builder.advance_eq (s : TokenStream) : Builder.advance s = s.advance := rfl

namespace Parse

variable {σ ν : Type} [Builder σ ν]

/-! ## Single tokens -/

/-- The stream as it stands. -/
def stream : Reading σ TokenStream := fun s => .ok (Builder.stream s) s

/-- Stops at the next token. -/
def fail {α : Type} (cause : ParseCause) : Reading σ α := fun s =>
  .error ((Builder.stream s).fault cause) s

/-- Takes the next token. -/
def advance : Reading σ Unit := fun s => .ok () (Builder.advance s)

/-- The offset at which the next token starts. -/
def offset : Reading σ Nat := fun s => .ok (Builder.stream s).place.offset s

/-- The next token is the given punctuation. -/
def isAt (mark : Punct) : Reading σ Bool := fun s => .ok ((Builder.stream s).isAt mark) s

/-- Takes the next token if it is one of the given pieces of punctuation. -/
def acceptAny (marks : List Punct) : Reading σ Bool := fun s =>
  if marks.any (Builder.stream s).isAt then .ok true (Builder.advance s) else .ok false s

/-- Takes the next token if it is the given punctuation. -/
def accept (mark : Punct) : Reading σ Bool := acceptAny [mark]

/-- Takes the punctuation that has to stand here. -/
def expect (slot : Slot) : Reading σ Unit := fun s =>
  if (Builder.stream s).isAt slot.punct then .ok () (Builder.advance s)
  else .error ((Builder.stream s).fault (.missing slot)) s

/-- The node over some parts, from an offset to the end of the last token that was taken. -/
def close (kind : Kind) (start : Nat) (children : List ν) : Reading σ ν := fun s =>
  let (node, after) := Builder.makeNode kind ⟨start, max (Builder.stream s).lastEnd start⟩ children s
  .ok node after

/-- The node over some parts, from the start of the first of them. -/
def closeFrom (kind : Kind) (first : ν) (children : List ν) : Reading σ ν := fun s =>
  close kind (Builder.startOf first s) children s

/-- Takes the next token as a leaf. -/
def leaf (atom : Atom) : Reading σ ν := fun s =>
  let start := (Builder.stream s).place.offset
  let behind := Builder.advance s
  let (node, after) := Builder.makeLeaf atom ⟨start, max (Builder.stream behind).lastEnd start⟩ behind
  .ok node after

/-- Takes the name that has to stand here. -/
def name (slot : NameSlot) : Reading σ ν := do
  match (← stream).current? with
  | some (.identifier name) => leaf (.identifier name)
  | _ => fail (.missingName slot)

/-! ## Loops -/

/-- Collects what `item?` reads until it reads nothing, in at most one round for each of the
given tokens. -/
def manyFor {α : Type} (item? : Reading σ (Option α)) : List Lexeme → Reading σ (List α)
  | [] => return []
  | _ :: rounds => do
    match ← item? with
    | none => return []
    | some a => return a :: (← manyFor item? rounds)

/-- Collects what `item?` reads until it reads nothing. -/
def many {α : Type} (item? : Reading σ (Option α)) : Reading σ (List α) := do
  manyFor item? (← stream).ahead

/-- Lets a value grow until `more?` adds nothing, in at most one round for each of the given
tokens. -/
def growFor {α : Type} (more? : α → Reading σ (Option α)) : List Lexeme → α → Reading σ α
  | [], a => return a
  | _ :: rounds, a => do
    match ← more? a with
    | none => return a
    | some b => growFor more? rounds b

/-- Lets a value grow until `more?` adds nothing. -/
def grow {α : Type} (more? : α → Reading σ (Option α)) (a : α) : Reading σ α := do
  growFor more? (← stream).ahead a

/-! ## Lists -/

/-- One or more items with commas between them. -/
def commaSeparated (item : Reading σ ν) : Reading σ (List ν) := do
  let first ← item
  let more ← many do
    if ← accept .comma then
      return some (← item)
    else
      return none
  return first :: more

/-- No items if the closing punctuation is next, and otherwise items with commas between them. -/
def commaSeparatedBefore (closing : Punct) (item : Reading σ ν) : Reading σ (List ν) := do
  if ← isAt closing then
    return []
  else
    commaSeparated item

end Parse

end LetLint
