import LosslessSyntax.Parse
import LosslessSyntax.Text.Edit

/-! # Changing one leaf

Most edits stay inside one token: a name, a literal, a comment or the space between tokens. If the
token before it and the token itself are scanned as they were, only that with the new text, the new
tree differs from the old one in a single leaf.
-/

namespace LosslessSyntax.Reparse

/-- What a reparse yields. -/
structure Result where
  tree : Tree
  diagnostics : Diagnostics
deriving Inhabited

/-- Kinds of tokens whose text means nothing to the grammar, except that trivia may hold a line
break. -/
def changeableKinds : KindSet :=
  .ofList [.ident, .number, .string, .interpolatedString, .baseType, .comment, .whitespace]

/-- Whether a text holds a line feed. -/
def hasBreak (text : String) : Bool := text.toList.contains '\n'

/-- Reads the token before the leaf, which has to be as it was, and then the leaf itself. Returns
the leaf's new token and the scanner after it. -/
def rescan? (previous : Option Cursor) (scanner : Scanner) : Option (Token × Scanner) :=
  match previous with
  | none => scanner.next?
  | some previous => do
    let (token, scanner) ← scanner.next?
    if some token.kind ≠ previous.tree.tokenKind? || token.span ≠ previous.span then none
    scanner.next?

/-- Changes the leaf that holds the byte at an offset, if the edit lies within the leaf and changes
nothing but its text. -/
def changeLeafAt? (old : Parse) (edit : TextEdit) (newText : String) (offset : Nat) :
    Option Result := do
  let (path, start, kind, text) ← old.tree.leafAt? offset 0
  let stop := start + text.utf8ByteSize
  if !(start ≤ edit.offset && edit.oldStop ≤ stop) || !changeableKinds.contains kind then none
  let touches (diagnostic : Diagnostic) : Bool :=
    diagnostic.span.start ≤ stop && start ≤ diagnostic.span.stop
  if old.diagnostics.items.any touches then none
  let previous := if start = 0 then none else old.root.tokenAt? (start - 1)
  let scanFrom := (previous.map (·.span.start)).getD start
  let (token, scanner) ←
    rescan? previous (.resume newText scanFrom .normal old.config.operatorLimit)
  if token.kind ≠ kind || token.start ≠ start || (token.stop : Int) ≠ stop + edit.delta ||
      scanner.mode ≠ .normal || !scanner.diagnostics.isEmpty then none
  if kind.isTrivia && hasBreak token.text != hasBreak text then none
  let tree ← old.tree.replaceAt? path (.leaf token.kind token.text)
  let moved (diagnostic : Diagnostic) : Diagnostic :=
    if stop < diagnostic.span.start then diagnostic.shift edit.delta else diagnostic
  some ⟨tree, .ofList (old.diagnostics.items.map moved)⟩

/-- Changes the leaf at the edit. An edit at the very end of a token may belong to that token as
well as to the next one, which is tried first. -/
def changeLeaf? (old : Parse) (edit : TextEdit) (newText : String) : Option Result :=
  let candidates := if edit.offset = 0 then [0] else [edit.offset, edit.offset - 1]
  candidates.findSome? (changeLeafAt? old edit newText)

end LosslessSyntax.Reparse
