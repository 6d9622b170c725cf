import LosslessSyntax.Scanner.CharClass

/-! # Lexemes

A lexeme is the longest beginning of a text that forms one token. Reading one (`Lexeme.read`) splits
the text in two and says what the first part is, which construct is still open after it, and what is
wrong with it. Strings and block comments have bodies that can be read on their own, so that reading
can go on inside one.
-/

namespace LosslessSyntax

/-- The construct that a place of a text is inside of. -/
inductive Mode where
  /-- Between tokens. -/
  | normal
  /-- Inside a block comment. -/
  | blockComment
  /-- Inside a string that the character ends. -/
  | string (delimiter : Char)
deriving DecidableEq, Repr, Inhabited

/-- What can be wrong with a lexeme. -/
inductive LexicalFault where
  /-- Characters that begin no token. -/
  | unexpectedCharacter
  /-- An at sign without a name. -/
  | missingName
  /-- A string without its end. -/
  | unterminatedString
  /-- A block comment without its end. -/
  | unterminatedComment
deriving DecidableEq, Repr

/-- The beginning of a text that forms one token. -/
structure Lexeme where
  /-- What kind of token it is. -/
  kind : TokenKind
  /-- Its characters. -/
  chars : List Char
  /-- The rest of the text. -/
  rest : List Char
  /-- The construct that is still open after it. -/
  mode : Mode := .normal
  /-- What is wrong with it. -/
  fault? : Option LexicalFault := none
deriving DecidableEq, Repr

namespace Lexeme

open CharClass

/-- A lexeme with more characters in front. -/
def prepend (front : List Char) (lexeme : Lexeme) : Lexeme :=
  { lexeme with chars := front ++ lexeme.chars }

/-- The characters up to and including the end mark of a block comment, the rest of the text, and
whether there is an end mark. -/
def commentBody : List Char → List Char × List Char × Bool
  | [] => ([], [], false)
  | '/' :: '#' :: rest => (['/', '#'], rest, true)
  | c :: rest =>
    let (body, after, closed) := commentBody rest
    (c :: body, after, closed)

/-- The characters up to and including the delimiter of a string, the rest of the text, and whether
there is a delimiter. A backslash takes the next character with it. -/
def stringBody (delimiter : Char) : List Char → List Char × List Char × Bool
  | [] => ([], [], false)
  | ['\\'] => (['\\'], [], false)
  | '\\' :: c :: rest =>
    let (body, after, closed) := stringBody delimiter rest
    ('\\' :: c :: body, after, closed)
  | c :: rest =>
    if c == delimiter then ([c], rest, true)
    else
      let (body, after, closed) := stringBody delimiter rest
      (c :: body, after, closed)

/-- The kind of the strings with a delimiter. -/
def stringKind (delimiter : Char) : TokenKind :=
  if delimiter == '\x60' then .interpolatedString else .string

/-- What is left of a block comment. -/
def readComment (text : List Char) : Lexeme :=
  let (body, rest, closed) := commentBody text
  if closed then ⟨.comment, body, rest, .normal, none⟩
  else ⟨.comment, body, rest, .blockComment, some .unterminatedComment⟩

/-- What is left of a string. -/
def readString (delimiter : Char) (text : List Char) : Lexeme :=
  let (body, rest, closed) := stringBody delimiter text
  if closed then ⟨stringKind delimiter, body, rest, .normal, none⟩
  else ⟨stringKind delimiter, body, rest, .string delimiter, some .unterminatedString⟩

/-- As many characters of a class as follow each other. -/
def readRun (kind : TokenKind) (inClass : Char → Bool) (text : List Char) : Lexeme :=
  ⟨kind, text.takeWhile inClass, text.dropWhile inClass, .normal, none⟩

/-- A word: a reserved one, or an identifier. -/
def readWord (text : List Char) : Lexeme :=
  let word := text.takeWhile isWordPart
  let kind := (TokenKind.ofKeyword? (String.ofList word)).getD .ident
  ⟨kind, word, text.dropWhile isWordPart, .normal, none⟩

/-- Digits, and a point with more digits if a digit follows the point. -/
def readNumber (text : List Char) : Lexeme :=
  let digits := text.takeWhile Char.isDigit
  match text.dropWhile Char.isDigit with
  | '.' :: d :: rest =>
    if d.isDigit then
      (readRun .number Char.isDigit (d :: rest)).prepend (digits ++ ['.'])
    else ⟨.number, digits, '.' :: d :: rest, .normal, none⟩
  | rest => ⟨.number, digits, rest, .normal, none⟩

/-- An at sign and the name after it. -/
def readAnnotationMark (text : List Char) : Lexeme :=
  if text.head?.any isWordPart then (readRun .annotationMark isWordPart text).prepend ['@']
  else ⟨.error, ['@'], text, .normal, some .missingName⟩

/-- Operator characters, at most `limit` of them but at least one. -/
def readSymbol (limit : Nat) (text : List Char) : Lexeme :=
  let symbol := (text.take (max 1 limit)).takeWhile isOperator
  let kind := (TokenKind.ofReservedSymbol? (String.ofList symbol)).getD .symbol
  ⟨kind, symbol, text.drop symbol.length, .normal, none⟩

/-- Characters that begin no token: the first, and all that follow. -/
def readUnexpected (c : Char) (rest : List Char) : Lexeme :=
  { (readRun .error (fun d => !startsToken d) rest).prepend [c] with
    fault? := some .unexpectedCharacter }

/-- The lexeme that begins with a character between tokens. -/
def readNormal (limit : Nat) (c : Char) (rest : List Char) : Lexeme :=
  if isBlank c then readRun .whitespace isBlank (c :: rest)
  else if c == '#' then
    match rest with
    | '/' :: body => (readComment body).prepend ['#', '/']
    | _ => (readRun .comment (fun d => !isLineEnd d) rest).prepend ['#']
  else if isWordStart c then readWord (c :: rest)
  else if c.isDigit then readNumber (c :: rest)
  else if c == '@' then readAnnotationMark rest
  else if isQuote c then (readString c rest).prepend [c]
  else
    match punctuation.lookup c with
    | some kind => ⟨kind, [c], rest, .normal, none⟩
    | none => if isOperator c then readSymbol limit (c :: rest) else readUnexpected c rest

/-- The first lexeme of a text that begins inside a construct; `none` at the end of the text. -/
def read (limit : Nat) (mode : Mode) : List Char → Option Lexeme
  | [] => none
  | c :: rest =>
    match mode with
    | .normal => some (readNormal limit c rest)
    | .blockComment => some (readComment (c :: rest))
    | .string delimiter => some (readString delimiter (c :: rest))

end Lexeme

end LosslessSyntax
