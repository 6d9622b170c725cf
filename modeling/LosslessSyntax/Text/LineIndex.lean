import LosslessSyntax.Text.Bytes

/-! # Lines and columns

A line index holds the offsets at which the lines of a text begin. With it a byte offset becomes a
line and a column, and a line number becomes the text of the line.
-/

namespace LosslessSyntax

/-- The offsets of the beginnings of lines, in increasing order, the first being zero. -/
structure LineIndex where
  /-- Where each line begins. -/
  starts : List Nat
deriving DecidableEq, Repr, Inhabited

namespace LineIndex

/-- The offsets just after each line feed of a text that begins at an offset. -/
def startsAfter : Nat → List Char → List Nat
  | _, [] => []
  | offset, c :: rest =>
    let next := offset + c.utf8Size
    if c == '\n' then next :: startsAfter next rest else startsAfter next rest

/-- The index of a text. -/
def ofText (text : String) : LineIndex := ⟨0 :: startsAfter 0 text.toList⟩

/-- Number of lines; a text that ends with a line feed has an empty last line. -/
def lineCount (index : LineIndex) : Nat := index.starts.length

/-- The line and the column of an offset, both from one. An offset past the end counts as the end,
and inside a character the column counts bytes. -/
def lineColumn (index : LineIndex) (text : String) (offset : Nat) : Nat × Nat :=
  let offset := min offset text.utf8ByteSize
  let passed := index.starts.takeWhile (· ≤ offset)
  let lineStart := passed.getLastD 0
  let column :=
    match Text.slice? text lineStart offset with
    | some before => before.length
    | none => offset - lineStart
  (passed.length, column + 1)

/-- The text of a line, counted from one, without its line feed and one carriage return before
it. -/
def lineText? (index : LineIndex) (text : String) (line : Nat) : Option String := do
  if line = 0 then none
  let start ← index.starts[line - 1]?
  let stop := match index.starts[line]? with
    | some next => next - 1
    | none => text.utf8ByteSize
  let content ← Text.slice? text start stop
  if content.toList.getLast? = some '\r' then some (String.ofList content.toList.dropLast)
  else some content

end LineIndex

end LosslessSyntax
