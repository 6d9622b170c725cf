import LosslessSyntax.Reparse.Leaf

/-! # Parsing one block again

If an edit lies between the braces of a block, and the new text between them still is one block,
only the innermost such block has to be parsed again. How deeply it nests follows from the blocks
around it.
-/

namespace LosslessSyntax.Reparse

/-- A block that encloses an edit. -/
structure Enclosing where
  /-- The block. -/
  block : Tree
  /-- The child indices that lead to it. -/
  path : List Nat
  /-- Where it starts in the old text. -/
  start : Nat
  /-- Where it ends in the old text. -/
  stop : Nat
  /-- Number of blocks around it. -/
  depth : Nat
deriving Inhabited

/-- The block one step further up its path. -/
def Enclosing.below (index : Nat) (found : Enclosing) : Enclosing :=
  { found with path := index :: found.path }

mutual
/-- The innermost block below a tree whose braces enclose the edit. -/
def enclosing? (edit : TextEdit) (start depth : Nat) : Tree → Option Enclosing
  | .node _ children => enclosingAmong? edit start depth 0 children
  | .leaf _ _ => none
/-- The innermost block at or below several trees, of which the first has the given index. -/
def enclosingAmong? (edit : TextEdit) (start depth index : Nat) : List Tree → Option Enclosing
  | [] => none
  | first :: rest =>
    let stop := start + first.width
    if first.isNode && start < edit.offset && edit.oldStop < stop then
      if first.nodeKind? == some .block then
        (((enclosing? edit start (depth + 1) first).map (.below index)).or
          (some ⟨first, [index], start, stop, depth⟩))
      else (enclosing? edit start depth first).map (.below index)
    else enclosingAmong? edit stop depth (index + 1) rest
end

/-- The diagnostics outside a block after an edit inside it; `none` if one of them may depend on
what is inside. -/
def outsideBlock? (start stop : Nat) (delta : Int) :
    List Diagnostic → Option (List Diagnostic)
  | [] => some []
  | first :: rest =>
    if first.span.stop ≤ start then (outsideBlock? start stop delta rest).map (first :: ·)
    else if stop ≤ first.span.start then
      if first.kind == .incomplete then none
      else (outsideBlock? start stop delta rest).map (first.shift delta :: ·)
    else if first.span.start < start || stop < first.span.stop then none
    else outsideBlock? start stop delta rest

/-- The tokens of a scanner that start before an offset, and the scanner after the token that ends
them. -/
def tokensBefore (offset : Nat) : Nat → Scanner → List Token × Scanner
  | 0, scanner => ([], scanner)
  | count + 1, scanner =>
    match scanner.next? with
    | none => ([], scanner)
    | some (token, next) =>
      if token.kind == .eof || offset ≤ token.start then ([], next)
      else
        let (tokens, last) := tokensBefore offset count next
        (token :: tokens, last)

/-- Parses the innermost block around an edit again. -/
def changeBlock? (old : Parse) (edit : TextEdit) (newText : String) : Option Result := do
  let found ← enclosing? edit 0 0 old.tree
  if (found.block.children.getLast?.bind Tree.tokenKind?) ≠ some .rightBrace then none
  let newStop := ((found.stop : Int) + edit.delta).toNat
  let outside ← outsideBlock? found.start found.stop edit.delta old.diagnostics.items
  let scanner := Scanner.resume newText found.start .normal old.config.operatorLimit
  let (tokens, last) := tokensBefore newStop (scanner.rest.length + 1) scanner
  let firstToken ← tokens.head?
  let lastToken ← tokens.getLast?
  if firstToken.kind ≠ .leftBrace || lastToken.kind ≠ .rightBrace || lastToken.stop ≠ newStop then
    none
  let lexical := last.diagnostics.items.filter fun diagnostic => diagnostic.span.start < newStop
  let outcome := Grammar.runBlock old.config found.depth newText.utf8ByteSize
    (.listed tokens (.ofList lexical) newStop)
  if !outcome.reachedEnd || outcome.diagnostics.items.any (·.code == .unexpectedEnd) then none
  let block := Tree.ofEvents outcome.tokens outcome.events
  if block.nodeKind? ≠ some .block || found.start + block.width ≠ newStop then none
  let tree ← old.tree.replaceAt? found.path block
  some ⟨tree, (Diagnostics.ofList outside).extend outcome.diagnostics.items⟩

end LosslessSyntax.Reparse
