import LosslessSyntax.Span
import LosslessSyntax.Text.LineIndex

/-! # Excerpts

An excerpt is the line on which a span begins, with a marker under the characters of the span that
lie on this line. A span that goes on past the end of the line is marked up to there, and a span
without characters on the line has a marker of one character.
-/

namespace LosslessSyntax

/-- A line of a text with a marked range of characters. -/
structure Excerpt where
  /-- Number of the line, from one. -/
  line : Nat
  /-- Number of the first marked character, from one. -/
  column : Nat
  /-- The line, without its end. -/
  content : String
  /-- How many characters are marked. -/
  width : Nat
deriving DecidableEq, Repr, Inhabited

namespace Excerpt

/-- How many characters begin before a byte offset. -/
def charsBefore (offset : Nat) : List Char → Nat
  | [] => 0
  | c :: rest => if offset = 0 then 0 else charsBefore (offset - c.utf8Size) rest + 1

/-- How many characters of a line are marked for a span of `length` bytes from a column on. -/
def markerWidth (content : String) (column length : Nat) : Nat :=
  max 1 (charsBefore length (content.toList.drop (column - 1)))

/-- The excerpt of a text for a span. -/
def ofSpan? (index : LineIndex) (text : String) (span : Span) : Option Excerpt :=
  let (line, column) := index.lineColumn text span.start
  (index.lineText? text line).map fun content =>
    ⟨line, column, content, markerWidth content column span.length⟩

end Excerpt

end LosslessSyntax
