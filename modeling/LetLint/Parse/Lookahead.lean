/-
Looking ahead without taking tokens: whether a declaration follows, and whether a parenthesis
opens the parameters of a lambda.
-/
import LetLint.Token.Cursor

namespace LetLint.Lookahead

/-- What follows the longest run of dots that each have a name behind them. -/
def afterSegments : List Lexeme → List Lexeme
  | [] => []
  | [l] => [l]
  | l :: m :: rest =>
    if l.token = .punct .dot ∧ m.token.isIdentifier then afterSegments rest else l :: m :: rest

/-- What follows items that each have a comma before them, in at most one round for each of the
given tokens. -/
def afterCommas (afterItem? : List Lexeme → Option (List Lexeme)) :
    List Lexeme → List Lexeme → Option (List Lexeme)
  | [], ls => some ls
  | _, [] => some []
  | _ :: rounds, l :: rest =>
    if l.token = .punct .comma then
      (afterItem? rest).bind (afterCommas afterItem? rounds)
    else
      some (l :: rest)

/-- What follows type arguments behind their opening angle. -/
def afterTypeArguments (afterType? : List Lexeme → Option (List Lexeme)) (ls : List Lexeme) :
    Option (List Lexeme) := do
  let first ← afterType? ls
  match ← afterCommas afterType? first first with
  | [] => none
  | l :: rest => if l.token = .punct .greater then some rest else none

/-- What follows a type: a dotted name with or without type arguments, nested to at most the
given number of levels. -/
def afterType? : Nat → List Lexeme → Option (List Lexeme)
  | 0, _ => none
  | _, [] => none
  | levels + 1, l :: rest =>
    if l.token.isIdentifier then
      match afterSegments rest with
      | [] => some []
      | m :: inner =>
        if m.token = .punct .less then afterTypeArguments (afterType? levels) inner
        else some (m :: inner)
    else
      none

/-- A method declaration follows: a type, a name and an opening parenthesis. -/
def startsMethod (cap : Nat) (ls : List Lexeme) : Bool :=
  match afterType? cap ls with
  | some (l :: m :: _) => l.token.isIdentifier && m.token == .punct .leftParen
  | _ => false

/-- What follows the parenthesis that closes one opened before, with `opened` more of them to be
closed first. -/
def afterClosing : Nat → List Lexeme → Option (List Lexeme)
  | _, [] => none
  | opened, l :: rest =>
    if l.token = .punct .leftParen then afterClosing (opened + 1) rest
    else if l.token = .punct .rightParen then
      match opened with
      | 0 => some rest
      | opened + 1 => afterClosing opened rest
    else afterClosing opened rest

/-- A parenthesised lambda follows: the next token is a parenthesis, and an arrow stands behind
the one that closes it. -/
def startsParenthesizedLambda : List Lexeme → Bool
  | [] => false
  | l :: rest =>
    l.token == .punct .leftParen &&
      match afterClosing 0 rest with
      | some (m :: _) => m.token == .punct .fatArrow
      | _ => false

/-- A bare lambda follows: a name and an arrow. -/
def startsBareLambda : List Lexeme → Bool
  | l :: m :: _ => l.token.isIdentifier && m.token == .punct .fatArrow
  | _ => false

/-- The parameter of a lambda that follows has no type: behind its first token the parameter or
the list of parameters is over. -/
def startsUntypedParameter : List Lexeme → Bool
  | _ :: m :: _ =>
    m.token == .punct .comma || m.token == .punct .rightParen || m.token == .punct .fatArrow
  | _ => false

end LetLint.Lookahead
