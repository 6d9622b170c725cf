/-! # Kinds of tokens

A kind is a plain tag; the text of a token is kept beside it. Kinds fall into trivia (whitespace and
comments), which the grammar never sees, unrecognised input, which it skips, and the significant
kinds, which it consumes. The words and symbols that the language reserves are listed here, since
they decide the kind of a token from its text.
-/

namespace LosslessSyntax

/-- The category of a token. A constructor that ends in `Word` is the reserved word it names. -/
inductive TokenKind where
  /-- Spaces, tabs, carriage returns and line feeds. -/
  | whitespace
  /-- A line comment or a block comment. -/
  | comment
  /-- Digits with at most one decimal point. -/
  | number
  /-- A string between double or single quotation marks. -/
  | string
  /-- A string between grave accents. -/
  | interpolatedString
  | trueWord
  | falseWord
  /-- A word that is not reserved. -/
  | ident
  /-- An at sign with a name. -/
  | annotationMark
  /-- The name of a type that the language provides. -/
  | baseType
  | functionWord
  | packWord
  | unionWord
  | usingWord
  | letWord
  | ifWord
  | elseWord
  | whileWord
  | loopWord
  | forWord
  | inWord
  | breakWord
  | continueWord
  | returnWord
  | asWord
  | autoWord
  | refWord
  | mutWord
  | lazyWord
  | funcWord
  | leftParen
  | rightParen
  | leftBracket
  | rightBracket
  | leftBrace
  | rightBrace
  | comma
  | colon
  | semicolon
  | dot
  | arrow
  /-- A run of operator characters without a reserved meaning. -/
  | symbol
  /-- Characters that begin no token. -/
  | error
  /-- The end of the text. -/
  | eof
deriving DecidableEq, Repr, Inhabited

namespace TokenKind

/-- Every kind, in the order of declaration. -/
def all : List TokenKind :=
  [.whitespace, .comment, .number, .string, .interpolatedString, .trueWord, .falseWord, .ident,
   .annotationMark, .baseType, .functionWord, .packWord, .unionWord, .usingWord, .letWord, .ifWord,
   .elseWord, .whileWord, .loopWord, .forWord, .inWord, .breakWord, .continueWord, .returnWord,
   .asWord, .autoWord, .refWord, .mutWord, .lazyWord, .funcWord, .leftParen, .rightParen,
   .leftBracket, .rightBracket, .leftBrace, .rightBrace, .comma, .colon, .semicolon, .dot, .arrow,
   .symbol, .error, .eof]

/-- The name under which a kind is printed. -/
def name : TokenKind → String
  | .whitespace => "Whitespace"
  | .comment => "Comment"
  | .number => "Number"
  | .string => "String"
  | .interpolatedString => "InterpolatedString"
  | .trueWord => "True"
  | .falseWord => "False"
  | .ident => "Ident"
  | .annotationMark => "Annotation"
  | .baseType => "BaseType"
  | .functionWord => "Function"
  | .packWord => "Pack"
  | .unionWord => "Union"
  | .usingWord => "Using"
  | .letWord => "Let"
  | .ifWord => "If"
  | .elseWord => "Else"
  | .whileWord => "While"
  | .loopWord => "Loop"
  | .forWord => "For"
  | .inWord => "In"
  | .breakWord => "Break"
  | .continueWord => "Continue"
  | .returnWord => "Return"
  | .asWord => "As"
  | .autoWord => "Auto"
  | .refWord => "Ref"
  | .mutWord => "Mut"
  | .lazyWord => "Lazy"
  | .funcWord => "Func"
  | .leftParen => "LParen"
  | .rightParen => "RParen"
  | .leftBracket => "LBracket"
  | .rightBracket => "RBracket"
  | .leftBrace => "LCurly"
  | .rightBrace => "RCurly"
  | .comma => "Comma"
  | .colon => "Colon"
  | .semicolon => "Semicolon"
  | .dot => "Dot"
  | .arrow => "Arrow"
  | .symbol => "Symbol"
  | .error => "Error"
  | .eof => "Eof"

/-- The kind that is printed under a name. -/
def ofName? (name : String) : Option TokenKind :=
  all.find? fun kind => kind.name == name

/-- What diagnostics call a token of this kind. -/
def describe : TokenKind → String
  | .whitespace => "whitespace"
  | .comment => "comment"
  | .number => "number"
  | .string => "string"
  | .interpolatedString => "interpolated string"
  | .trueWord => "`true`"
  | .falseWord => "`false`"
  | .ident => "identifier"
  | .annotationMark => "annotation"
  | .baseType => "base type"
  | .functionWord => "`function`"
  | .packWord => "`pack`"
  | .unionWord => "`union`"
  | .usingWord => "`using`"
  | .letWord => "`let`"
  | .ifWord => "`if`"
  | .elseWord => "`else`"
  | .whileWord => "`while`"
  | .loopWord => "`loop`"
  | .forWord => "`for`"
  | .inWord => "`in`"
  | .breakWord => "`break`"
  | .continueWord => "`continue`"
  | .returnWord => "`return`"
  | .asWord => "`as`"
  | .autoWord => "`auto`"
  | .refWord => "`ref`"
  | .mutWord => "`mut`"
  | .lazyWord => "`lazy`"
  | .funcWord => "`func`"
  | .leftParen => "`(`"
  | .rightParen => "`)`"
  | .leftBracket => "`[`"
  | .rightBracket => "`]`"
  | .leftBrace => "`\x7b`"
  | .rightBrace => "`\x7d`"
  | .comma => "`,`"
  | .colon => "`:`"
  | .semicolon => "`;`"
  | .dot => "`.`"
  | .arrow => "`->`"
  | .symbol => "operator"
  | .error => "unrecognized input"
  | .eof => "end of input"

/-- Whitespace and comments. -/
def isTrivia (kind : TokenKind) : Bool := kind == .whitespace || kind == .comment

/-- Kinds that the grammar consumes: everything but trivia and unrecognised input. -/
def isSignificant (kind : TokenKind) : Bool := !kind.isTrivia && kind != .error

/-- Reserved words, the boolean literals included. -/
def isKeyword : TokenKind → Bool
  | .trueWord | .falseWord | .functionWord | .packWord | .unionWord | .usingWord | .letWord
  | .ifWord | .elseWord | .whileWord | .loopWord | .forWord | .inWord | .breakWord
  | .continueWord | .returnWord | .asWord | .autoWord | .refWord | .mutWord | .lazyWord
  | .funcWord => true
  | _ => false

/-- Kinds that stand for a value by themselves. -/
def isLiteral : TokenKind → Bool
  | .number | .string | .interpolatedString | .trueWord | .falseWord => true
  | _ => false

/-- The names of the types that the language provides. -/
def baseTypeNames : List String :=
  ["i8", "i16", "i32", "i64", "i128", "u8", "u16", "u32", "u64", "u128", "f32", "f64",
   "string", "bool", "char", "void"]

/-- The reserved words with their kinds. -/
def keywords : List (String × TokenKind) :=
  [("function", .functionWord), ("pack", .packWord), ("union", .unionWord), ("using", .usingWord),
   ("let", .letWord), ("if", .ifWord), ("else", .elseWord), ("while", .whileWord),
   ("loop", .loopWord), ("for", .forWord), ("in", .inWord), ("break", .breakWord),
   ("continue", .continueWord), ("return", .returnWord), ("as", .asWord), ("auto", .autoWord),
   ("ref", .refWord), ("mut", .mutWord), ("lazy", .lazyWord), ("func", .funcWord),
   ("true", .trueWord), ("false", .falseWord)]

/-- The kind of a word that the language reserves; `none` for any other word. -/
def ofKeyword? (word : String) : Option TokenKind :=
  if baseTypeNames.contains word then some .baseType else keywords.lookup word

/-- The kind of a run of operator characters with a reserved meaning; `none` for any other run. -/
def ofReservedSymbol? (symbol : String) : Option TokenKind :=
  if symbol == "." then some .dot
  else if symbol == ":" then some .colon
  else if symbol == "->" then some .arrow
  else none

/-- The kind that closes a group opened by this one. -/
def closer? : TokenKind → Option TokenKind
  | .leftParen => some .rightParen
  | .leftBracket => some .rightBracket
  | .leftBrace => some .rightBrace
  | _ => none

/-- Whether the kind closes a group. -/
def isCloser (kind : TokenKind) : Bool :=
  kind == .rightParen || kind == .rightBracket || kind == .rightBrace

end TokenKind

end LosslessSyntax
