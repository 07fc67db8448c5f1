/-
Tokens: keywords, names, literals and punctuation, with the words under which they are listed and
described in messages.
-/
import LetLint.Number.Text
import LetLint.Text.Quoted

namespace LetLint

/-- The reserved words. -/
inductive Keyword where
  | varWord
  | returnWord
  | trueWord
  | falseWord
  | nullWord
  deriving Repr, DecidableEq

namespace Keyword

/-- The reserved word with a given spelling. -/
def ofSpelling? (word : String) : Option Keyword :=
  if word = "var" then some .varWord
  else if word = "return" then some .returnWord
  else if word = "true" then some .trueWord
  else if word = "false" then some .falseWord
  else if word = "null" then some .nullWord
  else none

/-- The listed name of a reserved word. -/
def label : Keyword → String
  | .varWord => "Var"
  | .returnWord => "Return"
  | .trueWord => "True"
  | .falseWord => "False"
  | .nullWord => "Null"

end Keyword

/-- Operators and punctuation. -/
inductive Punct where
  | plus
  | minus
  | star
  | slash
  | percent
  | equal
  | equalEqual
  | notEqual
  | greater
  | greaterEqual
  | less
  | lessEqual
  | leftBrace
  | rightBrace
  | leftParen
  | rightParen
  | comma
  | semicolon
  | fatArrow
  | barBar
  | ampAmp
  | bang
  | dot
  deriving Repr, DecidableEq

namespace Punct

/-- The punctuation of a single character. -/
def single? : Char → Option Punct
  | '+' => some .plus
  | '-' => some .minus
  | '*' => some .star
  | '/' => some .slash
  | '%' => some .percent
  | '=' => some .equal
  | '>' => some .greater
  | '<' => some .less
  | '\x7b' => some .leftBrace
  | '\x7d' => some .rightBrace
  | '(' => some .leftParen
  | ')' => some .rightParen
  | ',' => some .comma
  | ';' => some .semicolon
  | '!' => some .bang
  | '.' => some .dot
  | _ => none

/-- The punctuation of two characters. Two closing angles are none, so that nested type arguments
close one at a time. -/
def pair? : Char → Char → Option Punct
  | '=', '=' => some .equalEqual
  | '=', '>' => some .fatArrow
  | '!', '=' => some .notEqual
  | '>', '=' => some .greaterEqual
  | '<', '=' => some .lessEqual
  | '|', '|' => some .barBar
  | '&', '&' => some .ampAmp
  | _, _ => none

/-- The listed name of a piece of punctuation. -/
def label : Punct → String
  | .plus => "Plus"
  | .minus => "Minus"
  | .star => "Star"
  | .slash => "Slash"
  | .percent => "Percent"
  | .equal => "Equal"
  | .equalEqual => "EqualEqual"
  | .notEqual => "NotEqual"
  | .greater => "Greater"
  | .greaterEqual => "GreaterEqual"
  | .less => "Less"
  | .lessEqual => "LessEqual"
  | .leftBrace => "LeftBrace"
  | .rightBrace => "RightBrace"
  | .leftParen => "LeftParen"
  | .rightParen => "RightParen"
  | .comma => "Comma"
  | .semicolon => "Semicolon"
  | .fatArrow => "FatArrow"
  | .barBar => "Or"
  | .ampAmp => "And"
  | .bang => "Not"
  | .dot => "Dot"

end Punct

/-- A token. String and number literals carry their value, not their spelling. -/
inductive Token where
  | keyword (word : Keyword)
  | identifier (name : String)
  | string (value : String)
  | number (value : Number.Binary64)
  | punct (mark : Punct)
  deriving Repr, DecidableEq

namespace Token

/-- The listed name of a token. -/
def label : Token → String
  | .keyword word => word.label
  | .identifier _ => "Identifier"
  | .string _ => "StringLiteral"
  | .number _ => "NumberLiteral"
  | .punct mark => mark.label

/-- The value of a token as text, where it has one. -/
def valueText? : Token → Option String
  | .identifier name => some name
  | .string value => some value
  | .number value => some value.text
  | _ => none

/-- A token as messages name it. -/
def describe : Token → String
  | .identifier name => "Identifier(" ++ Text.quoted name ++ ")"
  | .string value => "StringLiteral(" ++ Text.quoted value ++ ")"
  | .number value => "NumberLiteral(" ++ value.text ++ ")"
  | token => token.label

/-- The token is a name. -/
def isIdentifier : Token → Bool
  | .identifier _ => true
  | _ => false

end Token

/-- The listed name of the end of the input. -/
def endLabel : String := "EOF"

end LetLint
