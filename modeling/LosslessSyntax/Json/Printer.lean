/-! # Writing JSON

JSON values are written over several lines: two spaces for each level, a space after each colon,
and nothing between the brackets of an empty list or object. Strings escape what JSON requires to
be escaped and nothing else.
-/

namespace LosslessSyntax

/-- A JSON value as far as output needs it: all numbers are natural. -/
inductive Json where
  | null
  | number (value : Nat)
  | string (value : String)
  | array (items : List Json)
  | object (members : List (String × Json))
deriving Repr, Inhabited

namespace Json

/-- A hexadecimal digit, in lower case. -/
def hexDigit (digit : Nat) : Char := Nat.digitChar digit

/-- How a character is written in a string. -/
def escapeChar (c : Char) : List Char :=
  if c == '"' then ['\\', '"']
  else if c == '\\' then ['\\', '\\']
  else if c == '\x08' then ['\\', 'b']
  else if c == '\x0c' then ['\\', 'f']
  else if c == '\n' then ['\\', 'n']
  else if c == '\r' then ['\\', 'r']
  else if c == '\t' then ['\\', 't']
  else if c.toNat < 0x20 then
    ['\\', 'u', '0', '0', hexDigit (c.toNat / 16), hexDigit (c.toNat % 16)]
  else [c]

/-- A string between quotation marks. -/
def writeString (text : String) : String :=
  String.ofList ('"' :: text.toList.flatMap escapeChar ++ ['"'])

/-- A line break and the indentation of a level. -/
def newline (level : Nat) : String := String.ofList ('\n' :: List.replicate (2 * level) ' ')

mutual
/-- A value at a level of indentation. -/
def writeAt (level : Nat) : Json → String
  | .null => "null"
  | .number value => toString value
  | .string value => writeString value
  | .array [] => "[]"
  | .array (first :: rest) =>
    "[" ++ newline (level + 1) ++ first.writeAt (level + 1) ++ writeItems level rest
  | .object [] => "\x7b\x7d"
  | .object ((key, first) :: rest) =>
    "\x7b" ++ newline (level + 1) ++ writeString key ++ ": " ++ first.writeAt (level + 1) ++
      writeMembers level rest
/-- The items of a list after the first, and its end. -/
def writeItems (level : Nat) : List Json → String
  | [] => newline level ++ "]"
  | first :: rest =>
    "," ++ newline (level + 1) ++ first.writeAt (level + 1) ++ writeItems level rest
/-- The members of an object after the first, and its end. -/
def writeMembers (level : Nat) : List (String × Json) → String
  | [] => newline level ++ "\x7d"
  | (key, first) :: rest =>
    "," ++ newline (level + 1) ++ writeString key ++ ": " ++ first.writeAt (level + 1) ++
      writeMembers level rest
end

/-- The written form of a value. -/
def write (value : Json) : String := value.writeAt 0

end Json

end LosslessSyntax
