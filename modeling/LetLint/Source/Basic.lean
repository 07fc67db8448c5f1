/-
A source text with its table of lines, through which byte offsets are mapped to lines and
columns. Only line feeds end a line here; a carriage return belongs to the line it stands in.
-/
import LetLint.Source.Position
import LetLint.Text.Lines

namespace LetLint

/-- The number of bytes of the UTF-8 form of some characters. -/
def byteLength : List Char → Nat
  | [] => 0
  | c :: cs => c.utf8Size + byteLength cs

/-- What is left of the characters behind the first `bytes` bytes. -/
def dropBytes : Nat → List Char → List Char
  | _, [] => []
  | bytes, c :: cs => if bytes = 0 then c :: cs else dropBytes (bytes - c.utf8Size) cs

/-- The characters that start within the first `bytes` bytes. -/
def takeBytes : Nat → List Char → List Char
  | _, [] => []
  | bytes, c :: cs => if bytes = 0 then [] else c :: takeBytes (bytes - c.utf8Size) cs

/-- Counts on for each character that starts within the first `bytes` bytes. -/
def countWithin (count : Nat) : Nat → List Char → Nat
  | _, [] => count
  | bytes, c :: cs => if bytes = 0 then count else countWithin (count + 1) (bytes - c.utf8Size) cs

/-- The place behind `bytes` bytes lies between two characters or at an end. -/
def isBoundaryOf : Nat → List Char → Bool
  | bytes, [] => bytes = 0
  | bytes, c :: cs => bytes = 0 || (c.utf8Size ≤ bytes && isBoundaryOf (bytes - c.utf8Size) cs)

/-! ## Cuts

A cut at the length of a first part gives back that part and the rest. -/

theorem byteLength_append (before after : List Char) :
    byteLength (before ++ after) = byteLength before + byteLength after := by
  induction before with
  | nil => exact (Nat.zero_add _).symm
  | cons c cs ih => simp only [List.cons_append, byteLength, ih, Nat.add_assoc]

theorem dropBytes_byteLength (before after : List Char) :
    dropBytes (byteLength before) (before ++ after) = after := by
  induction before with
  | nil => cases after <;> rfl
  | cons c cs ih =>
    have hc := c.utf8Size_pos
    have hne : c.utf8Size + byteLength cs ≠ 0 := by omega
    rw [List.cons_append, byteLength, dropBytes, if_neg hne, Nat.add_sub_cancel_left, ih]

theorem takeBytes_byteLength (before after : List Char) :
    takeBytes (byteLength before) (before ++ after) = before := by
  induction before with
  | nil => cases after <;> rfl
  | cons c cs ih =>
    have hc := c.utf8Size_pos
    have hne : c.utf8Size + byteLength cs ≠ 0 := by omega
    rw [List.cons_append, byteLength, takeBytes, if_neg hne, Nat.add_sub_cancel_left, ih]

theorem countWithin_eq (count bytes : Nat) (cs : List Char) :
    countWithin count bytes cs = count + (takeBytes bytes cs).length := by
  induction cs generalizing count bytes with
  | nil => rfl
  | cons c cs ih =>
    unfold countWithin takeBytes
    split
    · rfl
    · rw [ih, List.length_cons]
      omega

theorem isBoundaryOf_byteLength (before after : List Char) :
    isBoundaryOf (byteLength before) (before ++ after) = true := by
  induction before with
  | nil => cases after <;> rfl
  | cons c cs ih =>
    rw [List.cons_append, byteLength, isBoundaryOf, Nat.add_sub_cancel_left, ih]
    simp

theorem Mark.offset_advance (mark : Mark) (cs : List Char) :
    (mark.advance cs).offset = mark.offset + byteLength cs := by
  induction cs generalizing mark with
  | nil => rfl
  | cons c cs ih =>
    have hstep : (mark.step c).offset = mark.offset + c.utf8Size := by
      unfold Mark.step
      split <;> rfl
    show ((mark.step c).advance cs).offset = _
    rw [ih, hstep, byteLength, Nat.add_assoc]

/-! ## Lines -/

/-- A line: the offset of its first byte, and its characters without the line feed. -/
structure Line where
  start : Nat
  chars : List Char
  deriving Repr, DecidableEq, Inhabited

/-- The lines of some characters, the first of which stands at the given offset. There is always
one line more than there are line feeds. -/
def Line.split (start : Nat) : List Char → List Line
  | [] => [⟨start, []⟩]
  | c :: cs =>
    if c = '\n' then ⟨start, []⟩ :: Line.split (start + 1) cs
    else
      match Line.split (start + c.utf8Size) cs with
      | [] => []
      | line :: rest => ⟨start, c :: line.chars⟩ :: rest

/-- The table of the lines of a text. -/
def Line.table (text : String) : Array Line := (Line.split 0 text.toList).toArray

/-! ## Sources -/

/-- A source text with its table of lines. -/
structure Source where
  text : String
  lines : Array Line := Line.table text
  lines_eq : lines = Line.table text := by rfl

namespace Source

/-- The source with the given text. -/
def ofText (text : String) : Source := { text }

/-- The number of bytes of the text. -/
def size (source : Source) : Nat := byteLength source.text.toList

/-- The text between two offsets. -/
def slice (source : Source) (span : Span) : String :=
  String.ofList (takeBytes (span.stop - span.start) (dropBytes span.start source.text.toList))

/-- The offset lies between two characters of the text or at one of its ends. -/
def isBoundary (source : Source) (offset : Nat) : Bool :=
  isBoundaryOf offset source.text.toList

/-- Halves the range from `low` to below `high` until one index is left: the last one of it whose
line starts at or before the offset, if the line at `low` does. -/
def search (lines : Array Line) (offset : Nat) : Nat → Nat → Nat → Nat
  | 0, low, _ => low
  | rounds + 1, low, high =>
    if high ≤ low + 1 then low
    else
      let middle := (low + high) / 2
      if (lines.getD middle default).start ≤ offset then search lines offset rounds middle high
      else search lines offset rounds low middle

/-- The index of the line that holds an offset. -/
def lineIndex (source : Source) (offset : Nat) : Nat :=
  search source.lines offset source.lines.size 0 source.lines.size

/-- The line and the column of an offset. -/
def position (source : Source) (offset : Nat) : Position :=
  let index := source.lineIndex offset
  let line := source.lines.getD index default
  ⟨index + 1, countWithin 1 (offset - line.start) line.chars⟩

/-- The line and the column of an offset that lies on a boundary. -/
def position? (source : Source) (offset : Nat) : Option Position :=
  if source.isBoundary offset then some (source.position offset) else none

/-- The positions at which a span starts and ends. -/
def extent (source : Source) (span : Span) : Extent :=
  ⟨source.position span.start, source.position span.stop⟩

/-- The positions of a span whose ends lie on boundaries. -/
def extent? (source : Source) (span : Span) : Option Extent := do
  return ⟨← source.position? span.start, ← source.position? span.stop⟩

/-- The text of a line, counted from one, without the carriage returns at its end. -/
def lineText? (source : Source) (line : Nat) : Option String :=
  if line = 0 then none
  else source.lines[line - 1]?.map fun l =>
    String.ofList (Text.dropTrailing (· == '\r') l.chars)

end Source

end LetLint
