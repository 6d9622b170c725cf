import LosslessSyntax.Token.Kind
import LosslessSyntax.Unicode.Alphabetic
import LosslessSyntax.Unicode.Numeric

/-! # Classes of characters

The scanner decides by its first character what a token is, and by these classes how far it
reaches. Words use the whole of Unicode, all other classes are ASCII.
-/

namespace LosslessSyntax.CharClass

/-- Space, tab, carriage return and line feed. -/
def isBlank (c : Char) : Bool := c == ' ' || c == '\t' || c == '\r' || c == '\n'

/-- Characters that begin a word. -/
def isWordStart (c : Char) : Bool := Unicode.isAlphabetic c || c == '_'

/-- Characters that continue a word. -/
def isWordPart (c : Char) : Bool := Unicode.isAlphabetic c || Unicode.isNumeric c || c == '_'

/-- The characters of which operators consist. -/
def operatorChars : List Char :=
  ['.', ':', '~', '+', '-', '>', '<', '?', '/', '=', '^', '&', '|', '*', '!', '%']

/-- Whether a character may be part of an operator. -/
def isOperator (c : Char) : Bool := operatorChars.contains c

/-- Whether a character ends a line. -/
def isLineEnd (c : Char) : Bool := c == '\n' || c == '\r'

/-- Whether a character begins and ends strings. -/
def isQuote (c : Char) : Bool := c == '"' || c == '\'' || c == '\x60'

/-- The characters that are tokens by themselves. -/
def punctuation : List (Char × TokenKind) :=
  [('(', .leftParen), (')', .rightParen), ('[', .leftBracket), (']', .rightBracket),
   ('\x7b', .leftBrace), ('\x7d', .rightBrace), (',', .comma), (';', .semicolon)]

/-- Whether some token begins with the character. -/
def startsToken (c : Char) : Bool :=
  isBlank c || isWordStart c || isOperator c || c.isDigit || c == '#' || c == '@' || isQuote c ||
    (punctuation.lookup c).isSome

end LosslessSyntax.CharClass
