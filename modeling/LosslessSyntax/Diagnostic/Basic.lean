import LosslessSyntax.Span

/-! # Diagnostics

A diagnostic reports one problem of a text: how severe it is, a stable code, a message and the span
it is about. Diagnostics are compared by `Diagnostic.compare`: first by where they start, then by
where they end, then by code and message.
-/

namespace LosslessSyntax

/-- How severe a diagnostic is. -/
inductive Severity where
  | error
  | warning
  | hint
deriving DecidableEq, Repr, Inhabited

/-- The written name of a severity. -/
def Severity.name : Severity → String
  | .error => "error"
  | .warning => "warning"
  | .hint => "hint"

/-- The kinds of cause that a diagnostic can have. -/
inductive DiagnosticKind where
  /-- Characters that the scanner could not turn into a token. -/
  | lexical
  /-- A token that the grammar did not expect, or misses. -/
  | syntactic
  /-- A construct that is still open when the text ends. -/
  | incomplete
deriving DecidableEq, Repr, Inhabited

/-- The written name of a kind of cause. -/
def DiagnosticKind.name : DiagnosticKind → String
  | .lexical => "LexError"
  | .syntactic => "SyntaxError"
  | .incomplete => "IncompleteInput"

/-- The stable identifier of a problem. -/
inductive DiagnosticCode where
  | unexpectedCharacter
  | invalidUtf8
  | unterminatedString
  | unterminatedComment
  | unexpectedToken
  | missingToken
  | unexpectedEnd
  | nestingTooDeep
deriving DecidableEq, Repr, Inhabited

namespace DiagnosticCode

/-- Every code, in the order in which codes are compared. -/
def all : List DiagnosticCode :=
  [.unexpectedCharacter, .invalidUtf8, .unterminatedString, .unterminatedComment,
   .unexpectedToken, .missingToken, .unexpectedEnd, .nestingTooDeep]

/-- The rank of a code among all codes. -/
def rank (code : DiagnosticCode) : Nat := all.idxOf code

/-- The short form that users see. -/
def text : DiagnosticCode → String
  | .unexpectedCharacter => "L001"
  | .invalidUtf8 => "L002"
  | .unterminatedString => "L003"
  | .unterminatedComment => "L004"
  | .unexpectedToken => "P001"
  | .missingToken => "P002"
  | .unexpectedEnd => "P003"
  | .nestingTooDeep => "P004"

/-- The long form that machine-readable output uses. -/
def name : DiagnosticCode → String
  | .unexpectedCharacter => "UnexpectedCharacter"
  | .invalidUtf8 => "InvalidUtf8"
  | .unterminatedString => "UnterminatedString"
  | .unterminatedComment => "UnterminatedComment"
  | .unexpectedToken => "UnexpectedToken"
  | .missingToken => "MissingToken"
  | .unexpectedEnd => "UnexpectedEof"
  | .nestingTooDeep => "NestingTooDeep"

/-- The code with a given short form. -/
def ofText? (text : String) : Option DiagnosticCode := all.find? fun code => code.text == text

/-- The kind of cause that a code stands for. -/
def kind : DiagnosticCode → DiagnosticKind
  | .unexpectedCharacter | .invalidUtf8 => .lexical
  | .unterminatedString | .unterminatedComment | .unexpectedEnd => .incomplete
  | .unexpectedToken | .missingToken | .nestingTooDeep => .syntactic

end DiagnosticCode

/-- One problem of a text. -/
structure Diagnostic where
  severity : Severity
  code : DiagnosticCode
  message : String
  span : Span
deriving DecidableEq, Repr, Inhabited

namespace Diagnostic

/-- A diagnostic of severity `error`. -/
def error (code : DiagnosticCode) (message : String) (span : Span) : Diagnostic :=
  ⟨.error, code, message, span⟩

/-- A diagnostic of severity `warning`. -/
def warning (code : DiagnosticCode) (message : String) (span : Span) : Diagnostic :=
  ⟨.warning, code, message, span⟩

/-- The kind of cause. -/
def kind (diagnostic : Diagnostic) : DiagnosticKind := diagnostic.code.kind

/-- The same problem after the text before it grew or shrank. -/
def shift (delta : Int) (diagnostic : Diagnostic) : Diagnostic :=
  { diagnostic with span := diagnostic.span.shift delta }

/-- Whether two diagnostics report the same problem at the same place. -/
def sameProblem (diagnostic other : Diagnostic) : Bool :=
  diagnostic.span == other.span && diagnostic.code == other.code

/-- Order by start, end, code and message. -/
def compare (diagnostic other : Diagnostic) : Ordering :=
  (diagnostic.span.compare other.span).then <|
    (Ord.compare diagnostic.code.rank other.code.rank).then
      (Ord.compare diagnostic.message other.message)

/-- The written form `severity[code]: message at start..end`. -/
def text (diagnostic : Diagnostic) : String :=
  diagnostic.severity.name ++ "[" ++ diagnostic.code.text ++ "]: " ++ diagnostic.message ++
    " at " ++ diagnostic.span.text

end Diagnostic

end LosslessSyntax
