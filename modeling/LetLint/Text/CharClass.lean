/-
The classes of characters that the reader of source text and the writers of quoted text ask for.
Each class is a Unicode property, looked up in its table.
-/
import LetLint.Text.Alphabetic
import LetLint.Text.Numeric
import LetLint.Text.WhiteSpace
import LetLint.Text.JoiningMark
import LetLint.Text.DefaultIgnorable
import LetLint.Text.Unprintable

namespace LetLint.Text

/-- A blank: a character with the property `White_Space`. -/
def isBlank (c : Char) : Bool := whiteSpaceRanges.contains c.toNat

/-- A letter: a character with the property `Alphabetic`. -/
def isLetter (c : Char) : Bool := alphabeticRanges.contains c.toNat

/-- A number character: a character of the general category `N`. -/
def isNumeric (c : Char) : Bool := numericRanges.contains c.toNat

/-- An ASCII digit. -/
def isDigit (c : Char) : Bool := '0' ≤ c && c ≤ '9'

/-- A name starts with a letter or an underscore. -/
def startsName (c : Char) : Bool := isLetter c || c == '_'

/-- A name goes on with letters, number characters and underscores. -/
def continuesName (c : Char) : Bool := isLetter c || isNumeric c || c == '_'

/-- A character that quoted text spells by its code point: it has no visible form of its own, is
shown as nothing, or would join the character before it. -/
def isHidden (c : Char) : Bool :=
  joiningMarkRanges.contains c.toNat || defaultIgnorableRanges.contains c.toNat ||
    unprintableRanges.contains c.toNat

end LetLint.Text
