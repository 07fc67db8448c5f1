/-
Reading one token off the front of some characters. A scan says what was read, or why nothing
could be, and in both cases how many characters it took.
-/
import LetLint.Token.Basic

namespace LetLint

/-- Why characters are not a token. -/
inductive LexCause where
  /-- No token starts with the character. -/
  | unexpected (c : Char)
  /-- A string holds an escape that is none. -/
  | badEscape (c : Char)
  /-- A string is not closed. -/
  | unterminated
  deriving Repr, DecidableEq

/-- The wording of a cause. -/
def LexCause.message : LexCause → String
  | .unexpected c => "Unexpected character: " ++ c.toString
  | .badEscape c => "Invalid escape sequence: \\" ++ c.toString
  | .unterminated => "Unterminated string literal"

/-- What a scan read, and how many characters it took. -/
structure Scan (α : Type) where
  outcome : Except LexCause α
  taken : Nat

namespace Scan

/-- The scan that took `more` characters before this one, and makes `f a` of what it read. -/
def after {α β : Type} (more : Nat) (f : α → β) (s : Scan α) : Scan β :=
  ⟨s.outcome.map f, s.taken + more⟩

end Scan

/-! ## Blanks and comments -/

/-- The number of characters before the next token: blanks, and comments from two slashes to the
end of the line. -/
def trivia (inComment : Bool) : List Char → Nat
  | [] => 0
  | c :: cs =>
    if inComment then trivia (c != '\n') cs + 1
    else if Text.isBlank c then trivia false cs + 1
    else if c = '/' ∧ cs.head? = some '/' then trivia true cs + 1
    else 0

/-! ## Names -/

/-- A word is a keyword or a name. -/
def wordToken (word : String) : Token :=
  match Keyword.ofSpelling? word with
  | some keyword => .keyword keyword
  | none => .identifier word

/-- Reads a word: all characters that continue a name. -/
def scanWord (c : Char) (cs : List Char) : Scan Token :=
  let more := cs.takeWhile Text.continuesName
  ⟨.ok (wordToken (String.ofList (c :: more))), more.length + 1⟩

/-! ## Numbers -/

/-- The digits after a point, if the characters start with a point and a digit. -/
def fractionDigits : List Char → List Char
  | '.' :: cs => cs.takeWhile Text.isDigit
  | _ => []

/-- Reads a number: digits, and a point only where a digit follows it. -/
def scanNumber (c : Char) (cs : List Char) : Scan Token :=
  let whole := c :: cs.takeWhile Text.isDigit
  let fraction := fractionDigits (cs.dropWhile Text.isDigit)
  let point := if fraction.isEmpty then 0 else 1
  ⟨.ok (.number (.ofNumeral whole fraction)), whole.length + point + fraction.length⟩

/-! ## Strings -/

/-- The character that an escape stands for. -/
def unescape? : Char → Option Char
  | 'n' => some '\n'
  | 't' => some '\t'
  | 'r' => some '\r'
  | '\\' => some '\\'
  | '"' => some '"'
  | _ => none

/-- Reads the rest of a string, behind its opening quote, through the closing one. -/
def scanText : List Char → Scan (List Char)
  | [] => ⟨.error .unterminated, 0⟩
  | c :: cs =>
    if c = '"' then ⟨.ok [], 1⟩
    else if c = '\\' then
      match cs with
      | [] => ⟨.error .unterminated, 1⟩
      | e :: rest =>
        match unescape? e with
        | none => ⟨.error (.badEscape e), 2⟩
        | some d => (scanText rest).after 2 (d :: ·)
    else (scanText cs).after 1 (c :: ·)

/-- Reads a string behind its opening quote. -/
def scanString (cs : List Char) : Scan Token :=
  (scanText cs).after 1 fun value => .string (String.ofList value)

/-! ## Punctuation -/

/-- Reads punctuation, two characters before one. -/
def scanPunct (c : Char) (cs : List Char) : Scan Token :=
  match cs.head?.bind (Punct.pair? c) with
  | some mark => ⟨.ok (.punct mark), 2⟩
  | none =>
    match Punct.single? c with
    | some mark => ⟨.ok (.punct mark), 1⟩
    | none => ⟨.error (.unexpected c), 1⟩

/-- Reads the token that starts with a given character. -/
def scanToken (c : Char) (cs : List Char) : Scan Token :=
  if c = '"' then scanString cs
  else if Text.isDigit c then scanNumber c cs
  else if Text.startsName c then scanWord c cs
  else scanPunct c cs

end LetLint
