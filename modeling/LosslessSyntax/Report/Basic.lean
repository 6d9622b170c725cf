import LosslessSyntax.Diagnostic.Collection
import LosslessSyntax.Report.Color
import LosslessSyntax.Report.Excerpt
import LosslessSyntax.Text.Padded

/-! # Reports

A report shows a diagnostic to a person: what is wrong, where it is, the line in question with a
marker under it, and what may help.
-/

namespace LosslessSyntax

/-- The colour of what a severity is announced with. -/
def Severity.color : Severity → Color
  | .error => .red
  | .warning => .yellow
  | .hint => .cyan

/-- The colour of the marker under a line. -/
def Severity.markerColor : Severity → Color
  | .error => .red
  | .warning | .hint => .yellow

/-- What may help with a problem. -/
def DiagnosticCode.help? : DiagnosticCode → Option String
  | .unterminatedString => some "add the closing quote to end the string"
  | .unterminatedComment => some "block comments are closed with \x60/#\x60"
  | .unexpectedEnd => some
      "the file ends inside an unfinished construct; check for a missing \x60\x7d\x60 or \x60)\x60"
  | .nestingTooDeep => some
      "the nesting limit can be raised with --max-depth or OCEAN_MAX_DEPTH"
  | .invalidUtf8 => some "Ocean source files must be UTF-8 encoded"
  | .unexpectedCharacter | .unexpectedToken | .missingToken => none

namespace Report

/-- The margin beside a line of the text. -/
def margin (line : Nat) : String := Text.padLeft 3 (toString line) ++ " | "

/-- The margin beside what is not a line of the text. -/
def blankMargin : String := "     |"

/-- The marker of an excerpt, indented to the columns that it marks. -/
def marker (excerpt : Excerpt) : String :=
  let indent := (margin excerpt.line).length + excerpt.column - 1
  String.ofList (List.replicate indent ' ' ++ List.replicate excerpt.width '^')

variable (painter : Painter)

/-- The lines that show an excerpt and what may help. -/
def excerptLines (diagnostic : Diagnostic) (excerpt : Excerpt) : List String :=
  [blankMargin,
    painter.paint .gray (margin excerpt.line) ++ excerpt.content,
    painter.paint diagnostic.severity.markerColor (marker excerpt),
    blankMargin] ++
  (diagnostic.code.help?.map fun help => painter.paint .yellow ("help: " ++ help)).toList

/-- The lines of the report on a diagnostic of the text of a file. -/
def lines (path text : String) (index : LineIndex) (diagnostic : Diagnostic) : List String :=
  let title := diagnostic.severity.name ++ "[" ++ diagnostic.code.text ++ "]"
  let (line, column) := index.lineColumn text diagnostic.span.start
  [painter.paintBold diagnostic.severity.color title ++ ": " ++ diagnostic.message,
    s!"  --> {path}:{line}:{column}"] ++
  ((Excerpt.ofSpan? index text diagnostic.span).map (excerptLines painter diagnostic)).getD []

/-- The lines of the reports on all diagnostics of the text of a file. -/
def allLines (path text : String) (diagnostics : Diagnostics) : List String :=
  diagnostics.items.flatMap (lines painter path text (.ofText text))

end Report

end LosslessSyntax
