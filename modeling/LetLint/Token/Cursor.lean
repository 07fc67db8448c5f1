/-
A cursor that reads a text token by token. Every token and every fault carries the place of its
first character; a cursor goes on behind whatever the last step took, also after a fault. Each
step that is not the end takes at least one character, so the tokens of a text are finitely many.
-/
import LetLint.Token.Scan
import LetLint.Source.Position

namespace LetLint

/-- A token in its place: where it starts, and the offset at which it ends. -/
structure Lexeme where
  token : Token
  start : Mark
  stop : Nat
  deriving Repr, DecidableEq

namespace Lexeme

/-- The bytes of a lexeme. -/
def span (l : Lexeme) : Span := ⟨l.start.offset, l.stop⟩

end Lexeme

/-- A text that is no token, with the place where it starts. -/
structure LexFault where
  cause : LexCause
  start : Mark
  deriving Repr, DecidableEq

/-- The wording of a fault. -/
def LexFault.message (fault : LexFault) : String :=
  fault.cause.message ++ fault.start.suffix

/-- The characters still to be read, and the place of the first of them. -/
structure Cursor where
  rest : List Char
  mark : Mark
  deriving Repr, DecidableEq

/-- What one step of a cursor found, and where it left the cursor. -/
inductive Step where
  | lexeme (l : Lexeme) (after : Cursor)
  | fault (f : LexFault) (after : Cursor)
  | finish (after : Cursor)

/-- The cursor behind a step. -/
def Step.cursor : Step → Cursor
  | .lexeme _ after => after
  | .fault _ after => after
  | .finish after => after

/-- All lexemes of a text, and the place where it ends. -/
structure Tokens where
  lexemes : List Lexeme
  finish : Mark
  deriving Repr, DecidableEq

namespace Cursor

/-- A cursor at the beginning of a text. -/
def ofText (text : String) : Cursor := ⟨text.toList, .origin⟩

/-- The cursor behind the next `count` characters. -/
def advance (count : Nat) (cursor : Cursor) : Cursor :=
  ⟨cursor.rest.drop count, cursor.mark.advance (cursor.rest.take count)⟩

/-- Skips blanks and comments, and reads one token. -/
def next (cursor : Cursor) : Step :=
  let here := cursor.advance (trivia false cursor.rest)
  match here.rest with
  | [] => .finish here
  | c :: cs =>
    let scan := scanToken c cs
    let after := here.advance scan.taken
    match scan.outcome with
    | .ok token => .lexeme ⟨token, here.mark, after.mark.offset⟩ after
    | .error cause => .fault ⟨cause, here.mark⟩ after

/-- The cursor behind the next `count` steps, whatever they find. -/
def skip : Nat → Cursor → Cursor
  | 0, cursor => cursor
  | count + 1, cursor => skip count cursor.next.cursor

/-! ## Progress -/

/-- A scan takes at least the character that it starts with. -/
theorem scanToken_taken_pos (c : Char) (cs : List Char) : 0 < (scanToken c cs).taken := by
  unfold scanToken
  split
  · exact Nat.succ_pos _
  · split
    · unfold scanNumber
      simp only [List.length_cons]
      omega
    · split
      · exact Nat.succ_pos _
      · unfold scanPunct
        split
        · exact Nat.two_pos
        · split <;> exact Nat.one_pos

@[simp] theorem length_rest_advance (count : Nat) (cursor : Cursor) :
    (cursor.advance count).rest.length = cursor.rest.length - count :=
  List.length_drop ..

/-- A step that reads a lexeme leaves fewer characters. -/
theorem length_rest_of_next_eq_lexeme {cursor after : Cursor} {l : Lexeme}
    (h : cursor.next = .lexeme l after) : after.rest.length < cursor.rest.length := by
  unfold next at h
  simp only at h
  split at h
  · cases h
  · rename_i c cs hrest
    split at h
    · cases h
      have hlen := length_rest_advance (trivia false cursor.rest) cursor
      have hpos := scanToken_taken_pos c cs
      rw [length_rest_advance]
      rw [hrest] at hlen ⊢
      simp only [List.length_cons] at hlen ⊢
      omega
    · cases h

/-! ## All tokens -/

/-- Reads all tokens to the end of the text, or to the first fault. -/
def tokenize (cursor : Cursor) : Except LexFault Tokens × Cursor :=
  match _h : cursor.next with
  | .finish after => (.ok ⟨[], after.mark⟩, after)
  | .fault fault after => (.error fault, after)
  | .lexeme l after =>
    let (found, last) := tokenize after
    (found.map fun tokens => ⟨l :: tokens.lexemes, tokens.finish⟩, last)
termination_by cursor.rest.length
decreasing_by exact length_rest_of_next_eq_lexeme _h

end Cursor

/-- All tokens of a text. -/
def tokenize (text : String) : Except LexFault Tokens := (Cursor.ofText text).tokenize.1

end LetLint
