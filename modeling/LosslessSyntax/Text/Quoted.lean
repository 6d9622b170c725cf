import LosslessSyntax.Unicode.GraphemeExtend
import LosslessSyntax.Unicode.Ignorable
import LosslessSyntax.Unicode.Printable

/-! # Quoted text

Text is quoted so that it fits on one line and shows every character: the quotation mark, the
backslash and the usual control characters take a backslash, characters that do not show or that
would merge with their neighbour are written by their code point, and all else stands for itself.
`showsAlone` says which characters show by themselves.
-/

namespace LosslessSyntax.Text

/-- The digits of a number in base sixteen, in lower case and without leading zeros. -/
def hexDigits (number : Nat) : List Char := Nat.toDigits 16 number

/-- A character by its code point, as `\u` with the digits between braces. -/
def escapeCodePoint (c : Char) : List Char :=
  '\\' :: 'u' :: '\x7b' :: hexDigits c.toNat ++ ['\x7d']

/-- The grapheme extenders that are letters: the halfwidth sound marks of Katakana, each of which
takes a place of its own. -/
def extendingLetters : List Char := ['\uFF9E', '\uFF9F']

/-- Whether a character is a mark on the one before it. -/
def isCombiningMark (c : Char) : Bool :=
  Unicode.extendsGrapheme c && !extendingLetters.contains c

/-- Whether a character shows, in a place of its own. -/
def showsAlone (c : Char) : Bool :=
  Unicode.isPrintable c && !Unicode.isIgnorable c && !isCombiningMark c

/-- How a character is written between quotation marks. -/
def quoteChar (c : Char) : List Char :=
  if c == '"' then ['\\', '"']
  else if c == '\\' then ['\\', '\\']
  else if c == '\t' then ['\\', 't']
  else if c == '\r' then ['\\', 'r']
  else if c == '\n' then ['\\', 'n']
  else if c == '\x00' then ['\\', '0']
  else if showsAlone c then [c]
  else escapeCodePoint c

/-- The characters of a text between quotation marks. -/
def quoteChars (text : List Char) : List Char := '"' :: text.flatMap quoteChar ++ ['"']

/-- A text between quotation marks. -/
def quote (text : String) : String := String.ofList (quoteChars text.toList)

end LosslessSyntax.Text
