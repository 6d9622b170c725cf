import LosslessSyntax.Diagnostic.Collection
import LosslessSyntax.Json.Printer
import LosslessSyntax.Text.Edit
import LosslessSyntax.Tree.Cursor

/-! # JSON forms

The JSON forms of spans, edits, diagnostics and trees, for other programs. The form of a tree keeps
everything: nodes have their children, tokens their text, and both have their kind and span.
-/

namespace LosslessSyntax

/-- A span by its ends. -/
def Span.json (span : Span) : Json :=
  .object [("start", .number span.start), ("end", .number span.stop)]

/-- An edit by the range that it replaces and the text that it inserts. -/
def TextEdit.json (edit : TextEdit) : Json :=
  .object [("offset", .number edit.offset), ("delete_len", .number edit.deleted),
    ("insert", .string edit.inserted)]

/-- A diagnostic, with its code in the long form. -/
def Diagnostic.json (diagnostic : Diagnostic) : Json :=
  .object [("severity", .string diagnostic.severity.name), ("code", .string diagnostic.code.name),
    ("message", .string diagnostic.message), ("span", diagnostic.span.json)]

/-- The diagnostics of a collection, in order. -/
def Diagnostics.json (collection : Diagnostics) : Json :=
  .array (collection.items.map Diagnostic.json)

namespace Cursor

mutual
/-- The JSON form of a tree that starts at an offset. -/
def jsonOf (start : Nat) : Tree → Json
  | .node kind children =>
    .object [("kind", .string kind.name),
      ("span", (Span.ofLength start (Tree.widthAll children)).json),
      ("children", .array (jsonOfAll start children))]
  | .leaf kind text =>
    .object [("kind", .string kind.name), ("span", (Span.ofLength start text.utf8ByteSize).json),
      ("text", .string text)]
/-- The JSON forms of trees that follow each other. -/
def jsonOfAll (start : Nat) : List Tree → List Json
  | [] => []
  | first :: rest => jsonOf start first :: jsonOfAll (start + first.width) rest
end

/-- The JSON form: kind, span, and children or text. -/
def json (cursor : Cursor) : Json := jsonOf cursor.start cursor.tree

end Cursor

end LosslessSyntax
