/-
Places in a text. Offsets count the bytes of the UTF-8 form before a place; lines and columns
count from one, and a column counts characters.
-/

namespace LetLint

/-- A half-open range of byte offsets. -/
structure Span where
  start : Nat
  stop : Nat
  deriving Repr, DecidableEq, Inhabited

/-- Spans are ordered by their start, then by their end. -/
instance : Ord Span where
  compare a b := (compare a.start b.start).then (compare a.stop b.stop)

/-- A line and a column. -/
structure Position where
  line : Nat
  column : Nat
  deriving Repr, DecidableEq, Inhabited

/-- Positions are ordered by their line, then by their column. -/
instance : Ord Position where
  compare a b := (compare a.line b.line).then (compare a.column b.column)

/-- The positions at which a span starts and ends. -/
structure Extent where
  start : Position
  stop : Position
  deriving Repr, DecidableEq, Inhabited

/-- Extents are ordered by their start, then by their end. -/
instance : Ord Extent where
  compare a b := (compare a.start b.start).then (compare a.stop b.stop)

/-- A place reached by reading a text from its beginning. -/
structure Mark where
  offset : Nat
  line : Nat
  column : Nat
  deriving Repr, DecidableEq, Inhabited

namespace Mark

/-- The beginning of a text. -/
def origin : Mark := ⟨0, 1, 1⟩

/-- The place behind one more character. -/
def step (mark : Mark) (c : Char) : Mark :=
  if c = '\n' then ⟨mark.offset + c.utf8Size, mark.line + 1, 1⟩
  else ⟨mark.offset + c.utf8Size, mark.line, mark.column + 1⟩

/-- The place behind some more characters. -/
def advance (mark : Mark) (cs : List Char) : Mark := cs.foldl step mark

theorem advance_append (mark : Mark) (before after : List Char) :
    mark.advance (before ++ after) = (mark.advance before).advance after :=
  List.foldl_append ..

/-- The line and the column of a place. -/
def position (mark : Mark) : Position := ⟨mark.line, mark.column⟩

/-- A place as messages end with it. -/
def suffix (mark : Mark) : String :=
  " at " ++ toString mark.line ++ ":" ++ toString mark.column

end Mark

end LetLint
