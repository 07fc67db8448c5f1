/-
What can be wrong with a sequence of tokens, and how it is worded. A fault names the place in the
grammar that was not filled, and the token, or the end of the input, that stood there instead.
-/
import LetLint.Token.Cursor

namespace LetLint

/-- A place of the grammar at which one piece of punctuation has to stand. -/
inductive Slot where
  | localEqual
  | localEnd
  | returnEnd
  | statementEnd
  | blockOpen
  | blockClose
  | methodOpen
  | methodClose
  | methodEnd
  | bareLambdaArrow
  | lambdaOpen
  | lambdaClose
  | lambdaArrow
  | argumentsOpen
  | argumentsClose
  | groupClose
  | typeArgumentsClose
  deriving Repr, DecidableEq

namespace Slot

/-- The punctuation that has to stand there. -/
def punct : Slot → Punct
  | .localEqual => .equal
  | .localEnd => .semicolon
  | .returnEnd => .semicolon
  | .statementEnd => .semicolon
  | .blockOpen => .leftBrace
  | .blockClose => .rightBrace
  | .methodOpen => .leftParen
  | .methodClose => .rightParen
  | .methodEnd => .semicolon
  | .bareLambdaArrow => .fatArrow
  | .lambdaOpen => .leftParen
  | .lambdaClose => .rightParen
  | .lambdaArrow => .fatArrow
  | .argumentsOpen => .leftParen
  | .argumentsClose => .rightParen
  | .groupClose => .rightParen
  | .typeArgumentsClose => .greater

/-- The sentence that explains what is missing. -/
def hint : Slot → String
  | .localEqual => "Expected '=' in local declaration"
  | .localEnd => "Expected ';' after local declaration"
  | .returnEnd => "Expected ';' after return"
  | .statementEnd => "Expected ';' after expression"
  | .blockOpen => "Expected '\x7b' at start of block"
  | .blockClose => "Expected '\x7d' at end of block"
  | .methodOpen => "Expected '(' after method name"
  | .methodClose => "Expected ')' after parameters"
  | .methodEnd => "Expected ';' after method declaration"
  | .bareLambdaArrow => "Expected '=>' after lambda parameter"
  | .lambdaOpen => "Expected '(' before lambda parameters"
  | .lambdaClose => "Expected ')' after lambda parameters"
  | .lambdaArrow => "Expected '=>' after lambda parameters"
  | .argumentsOpen => "Expected '(' before arguments"
  | .argumentsClose => "Expected ')' after arguments"
  | .groupClose => "Expected ')' after expression"
  | .typeArgumentsClose => "Expected '>' after type arguments"

end Slot

/-- A place of the grammar at which a name has to stand. -/
inductive NameSlot where
  | localName
  | methodName
  | parameterName
  | typeName
  | typeSegment
  | memberName
  deriving Repr, DecidableEq

/-- The sentence that explains which name is missing. -/
def NameSlot.hint : NameSlot → String
  | .localName => "Expected variable name after 'var'"
  | .methodName => "Expected method name"
  | .parameterName => "Expected parameter name"
  | .typeName => "Expected type name"
  | .typeSegment => "Expected name after '.' in type"
  | .memberName => "Expected member name after '.'"

/-- Why the tokens cannot be read on. -/
inductive ParseCause where
  | missing (slot : Slot)
  | missingName (slot : NameSlot)
  | missingExpression
  /-- More than `cap` levels of nesting. -/
  | tooDeep (cap : Nat)
  deriving Repr, DecidableEq

/-- A cause with what stood there, nothing for the end of the input, and where. -/
structure ParseFault where
  cause : ParseCause
  found : Option Token
  place : Mark
  deriving Repr, DecidableEq

namespace ParseFault

/-- What stood there, as messages name it. -/
def foundText (fault : ParseFault) : String :=
  match fault.found with
  | some token => token.describe
  | none => endLabel

/-- The wording of a fault without its place. -/
def sentence (fault : ParseFault) : String :=
  match fault.cause with
  | .missing slot =>
    "Expected " ++ slot.punct.label ++ ", got " ++ fault.foundText ++ ". " ++ slot.hint
  | .missingName slot => slot.hint ++ ", got " ++ fault.foundText
  | .missingExpression => "Expected expression, got " ++ fault.foundText
  | .tooDeep cap => "Nesting deeper than " ++ toString cap ++ " levels"

/-- The wording of a fault. -/
def message (fault : ParseFault) : String :=
  fault.sentence ++ fault.place.suffix

end ParseFault

/-- Anything that is wrong with a text. -/
inductive Fault where
  | lexical (fault : LexFault)
  | grammar (fault : ParseFault)
  deriving Repr, DecidableEq

/-- The wording of a fault. -/
def Fault.message : Fault → String
  | .lexical fault => fault.message
  | .grammar fault => fault.message

end LetLint
