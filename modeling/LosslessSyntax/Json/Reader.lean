/-! # Reading JSON

Reading is strict: it accepts the JSON grammar and nothing else. What it yields keeps two things
apart that only some uses care about. A number is kept as its characters, so that a use can insist
on a plain integer. A string with a lone half of a surrogate pair has no text, so that a use of the
string can refuse it while a value that nobody looks at is accepted.
-/

namespace LosslessSyntax

/-- A JSON value as it was read. -/
inductive ReadJson where
  | null
  | bool (value : Bool)
  /-- A number, as its characters. -/
  | number (digits : List Char)
  /-- A string; `none` if it is no Unicode text. -/
  | string (value : Option String)
  | array (items : List ReadJson)
  | object (members : List (Option String × ReadJson))
deriving Repr, Inhabited

namespace ReadJson

/-- Spaces, tabs, line feeds and carriage returns. -/
def isBlank (c : Char) : Bool := c == ' ' || c == '\t' || c == '\n' || c == '\r'

/-- A text without the blanks at its beginning. -/
def skipBlanks (text : List Char) : List Char := text.dropWhile isBlank

/-- The value of a hexadecimal digit. -/
def hexValue? (c : Char) : Option Nat :=
  if '0' ≤ c ∧ c ≤ '9' then some (c.toNat - '0'.toNat)
  else if 'a' ≤ c ∧ c ≤ 'f' then some (c.toNat - 'a'.toNat + 10)
  else if 'A' ≤ c ∧ c ≤ 'F' then some (c.toNat - 'A'.toNat + 10)
  else none

/-- A unit of a string: a character, or a 16-bit unit that was written by its number. -/
inductive Unit16 where
  | char (c : Char)
  | unit (value : Nat)

/-- The text of the units of a string; `none` if a half of a surrogate pair stands alone. -/
def textOfUnits? : List Unit16 → Option (List Char)
  | [] => some []
  | .char c :: rest => (textOfUnits? rest).map (c :: ·)
  | .unit high :: .unit low :: rest =>
    if 0xd800 ≤ high ∧ high < 0xdc00 then
      if 0xdc00 ≤ low ∧ low < 0xe000 then
        (textOfUnits? rest).map
          (Char.ofNat (0x10000 + (high - 0xd800) * 0x400 + (low - 0xdc00)) :: ·)
      else none
    else if 0xdc00 ≤ high ∧ high < 0xe000 then none
    else (textOfUnits? (.unit low :: rest)).map (Char.ofNat high :: ·)
  | .unit value :: rest =>
    if 0xd800 ≤ value ∧ value < 0xe000 then none
    else (textOfUnits? rest).map (Char.ofNat value :: ·)

/-- The character that a backslash and a letter stand for. -/
def simpleEscape? (c : Char) : Option Char :=
  if c == '"' || c == '\\' || c == '/' then some c
  else if c == 'b' then some '\x08'
  else if c == 'f' then some '\x0c'
  else if c == 'n' then some '\n'
  else if c == 'r' then some '\r'
  else if c == 't' then some '\t'
  else none

/-- The units of a string up to its closing quotation mark, and the rest of the text. -/
def readUnits? : List Char → Option (List Unit16 × List Char)
  | [] => none
  | '"' :: rest => some ([], rest)
  | '\\' :: 'u' :: a :: b :: c :: d :: rest => do
    let a ← hexValue? a
    let b ← hexValue? b
    let c ← hexValue? c
    let d ← hexValue? d
    let (units, rest) ← readUnits? rest
    some (.unit (((a * 16 + b) * 16 + c) * 16 + d) :: units, rest)
  | '\\' :: e :: rest => do
    let c ← simpleEscape? e
    let (units, rest) ← readUnits? rest
    some (.char c :: units, rest)
  | c :: rest =>
    if c.toNat < 0x20 || c == '\\' then none
    else do
      let (units, rest) ← readUnits? rest
      some (.char c :: units, rest)

/-- A string after its opening quotation mark. -/
def readString? (text : List Char) : Option (Option String × List Char) := do
  let (units, rest) ← readUnits? text
  some ((textOfUnits? units).map String.ofList, rest)

/-- One digit or more. -/
def readDigits? (text : List Char) : Option (List Char × List Char) :=
  let digits := text.takeWhile Char.isDigit
  if digits.isEmpty then none else some (digits, text.dropWhile Char.isDigit)

/-- The exponent of a number, if there is one. -/
def readExponent? (text : List Char) : Option (List Char × List Char) :=
  match text with
  | c :: rest =>
    if c == 'e' || c == 'E' then
      match rest with
      | sign :: after =>
        if sign == '+' || sign == '-' then do
          let (digits, after) ← readDigits? after
          some (c :: sign :: digits, after)
        else do
          let (digits, after) ← readDigits? rest
          some (c :: digits, after)
      | [] => none
    else some ([], text)
  | [] => some ([], [])

/-- The fraction of a number, if there is one, and its exponent. -/
def readFraction? (text : List Char) : Option (List Char × List Char) :=
  match text with
  | '.' :: rest => do
    let (digits, rest) ← readDigits? rest
    let (exponent, rest) ← readExponent? rest
    some ('.' :: digits ++ exponent, rest)
  | _ => readExponent? text

/-- A number without its sign: no leading zeros. -/
def readUnsigned? (text : List Char) : Option (List Char × List Char) := do
  let (digits, rest) ← readDigits? text
  if digits.head? = some '0' ∧ 1 < digits.length then none
  let (fraction, rest) ← readFraction? rest
  some (digits ++ fraction, rest)

/-- A number. -/
def readNumber? (text : List Char) : Option (List Char × List Char) :=
  match text with
  | '-' :: rest => do
    let (digits, rest) ← readUnsigned? rest
    some ('-' :: digits, rest)
  | _ => readUnsigned? text

/-- The rest of a text after a given beginning. -/
def expect? : List Char → List Char → Option (List Char)
  | [], text => some text
  | _ :: _, [] => none
  | c :: word, d :: rest => if c == d then expect? word rest else none

mutual
/-- A value, blanks before it allowed. The depth bounds how deeply values nest; the length of the
text is enough. -/
def readValue? (depth : Nat) (text : List Char) : Option (ReadJson × List Char) :=
  match depth, skipBlanks text with
  | 0, _ | _, [] => none
  | _ + 1, '"' :: rest => do
    let (value, rest) ← readString? rest
    some (.string value, rest)
  | depth + 1, '[' :: rest =>
    match skipBlanks rest with
    | ']' :: rest => some (.array [], rest)
    | rest => do
      let (items, rest) ← readItems? depth rest
      some (.array items, rest)
  | depth + 1, '\x7b' :: rest =>
    match skipBlanks rest with
    | '\x7d' :: rest => some (.object [], rest)
    | rest => do
      let (members, rest) ← readMembers? depth rest
      some (.object members, rest)
  | _ + 1, 'n' :: rest => do
    let rest ← expect? ['u', 'l', 'l'] rest
    some (.null, rest)
  | _ + 1, 't' :: rest => do
    let rest ← expect? ['r', 'u', 'e'] rest
    some (.bool true, rest)
  | _ + 1, 'f' :: rest => do
    let rest ← expect? ['a', 'l', 's', 'e'] rest
    some (.bool false, rest)
  | _ + 1, rest => do
    let (digits, rest) ← readNumber? rest
    some (.number digits, rest)
/-- The items of a list up to its closing bracket. -/
def readItems? (depth : Nat) (text : List Char) : Option (List ReadJson × List Char) :=
  match depth with
  | 0 => none
  | depth + 1 => do
    let (first, rest) ← readValue? depth text
    match skipBlanks rest with
    | ']' :: rest => some ([first], rest)
    | ',' :: rest =>
      let (items, rest) ← readItems? depth rest
      some (first :: items, rest)
    | _ => none
/-- The members of an object up to its closing brace. -/
def readMembers? (depth : Nat) (text : List Char) :
    Option (List (Option String × ReadJson) × List Char) :=
  match depth, skipBlanks text with
  | depth + 1, '"' :: rest => do
    let (key, rest) ← readString? rest
    match skipBlanks rest with
    | ':' :: rest =>
      let (first, rest) ← readValue? depth rest
      match skipBlanks rest with
      | '\x7d' :: rest => some ([(key, first)], rest)
      | ',' :: rest =>
        let (members, rest) ← readMembers? depth rest
        some ((key, first) :: members, rest)
      | _ => none
    | _ => none
  | _, _ => none
end

/-- The value of a text that holds one value and blanks. -/
def ofText? (text : String) : Option ReadJson := do
  let (value, rest) ← readValue? (text.length + 1) text.toList
  if (skipBlanks rest).isEmpty then some value else none

end ReadJson

end LosslessSyntax
