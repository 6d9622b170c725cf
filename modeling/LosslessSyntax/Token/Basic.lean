import LosslessSyntax.Span
import LosslessSyntax.Token.Kind

/-! # Tokens

A token is a piece of the text with its kind and the place where it begins. It carries its text, so
that a list of tokens whose texts are joined gives back what was scanned.
-/

namespace LosslessSyntax

/-- A place in a text: bytes before it, its line, and its column in characters, both from one. -/
structure Position where
  /-- Number of bytes before this place. -/
  offset : Nat
  /-- Number of the line, from one. -/
  line : Nat
  /-- Number of the character in its line, from one. -/
  column : Nat
deriving DecidableEq, Repr, Inhabited

namespace Position

/-- The beginning of a text. -/
def start : Position := ⟨0, 1, 1⟩

/-- The place after one character: a line feed begins the next line. -/
def advance (position : Position) (c : Char) : Position :=
  if c == '\n' then ⟨position.offset + c.utf8Size, position.line + 1, 1⟩
  else ⟨position.offset + c.utf8Size, position.line, position.column + 1⟩

/-- The place after several characters. -/
def after (position : Position) (text : List Char) : Position := text.foldl advance position

end Position

/-- A piece of text with its kind and place. -/
structure Token where
  /-- What the piece is. -/
  kind : TokenKind
  /-- The characters of the piece. -/
  text : String
  /-- Where its first character stands. -/
  position : Position
deriving DecidableEq, Repr, Inhabited

namespace Token

/-- Offset of the first byte. -/
def start (token : Token) : Nat := token.position.offset

/-- Offset just past the last byte. -/
def stop (token : Token) : Nat := token.start + token.text.utf8ByteSize

/-- The bytes that the token covers. -/
def span (token : Token) : Span := ⟨token.start, token.stop⟩

end Token

end LosslessSyntax
