import LosslessSyntax.Reparse.Block

/-! # Parsing some statements again

Top-level statements are parsed again from the one before the edit on, until the parse reaches the
start of a statement of the old text that lies after the edit. From there on the old tree is taken
over.
-/

namespace LosslessSyntax.Reparse

/-- Whether a diagnostic starts at an offset. -/
def hasDiagnosticAt (diagnostics : Diagnostics) (offset : Nat) : Bool :=
  diagnostics.items.any fun diagnostic => diagnostic.span.start == offset

/-- Whether the parse of a program began an item with this child of the root. -/
def beginsItem (child : Tree) : Bool :=
  match child.tokenKind? with
  | none => true
  | some kind => kind == .semicolon

/-- Whether a child of the root holds a significant token. -/
def isAnchor (child : Tree) : Bool :=
  match child.tokenKind? with
  | none => true
  | some kind => kind.isSignificant

/-- The last of the first `count` children that is an anchor; the first child if there is none. -/
def lastAnchor (children : List Cursor) : Nat → Nat
  | 0 => 0
  | count + 1 =>
    if (children[count]?).any fun child => isAnchor child.tree then count
    else lastAnchor children count

theorem lastAnchor_le (children : List Cursor) (count : Nat) :
    lastAnchor children count ≤ count := by
  induction count with
  | zero => exact Nat.le_refl 0
  | succ count ih =>
    simp only [lastAnchor]
    split <;> omega

theorem lastAnchor_lt (children : List Cursor) (count : Nat) :
    lastAnchor children (count + 1) < count + 1 := by
  have := lastAnchor_le children count
  simp only [lastAnchor]
  split <;> omega

/-- Goes back from one anchor to the one before it as long as a diagnostic starts where the anchor
does, since it may belong to the statement before. -/
def firstChanged (diagnostics : Diagnostics) (children : List Cursor) : Nat → Nat
  | 0 => 0
  | index + 1 =>
    if (children[index + 1]?).any fun child => hasDiagnosticAt diagnostics child.start then
      firstChanged diagnostics children (lastAnchor children (index + 1))
    else index + 1
termination_by index => index
decreasing_by exact lastAnchor_lt _ _

/-- Where the old tree may be taken over: at children of the root with which an item began, and at
which no diagnostic starts, since it might come from the statement before. -/
def boundaries (diagnostics : Diagnostics) (children : List Cursor) : List Nat :=
  (children.filter fun child =>
    beginsItem child.tree && !hasDiagnosticAt diagnostics child.start).map (·.start)

/-- Whether a parse of the new text may halt at an offset: it belongs to a boundary of the old text
after the edit. -/
def resumesAt (edit : TextEdit) (boundaries : List Nat) (offset : Nat) : Bool :=
  let before := (offset : Int) - edit.delta
  edit.oldStop ≤ before && boundaries.contains before.toNat

/-- The diagnostics outside the segment from `start` up to `stop` (to the end of the text if it is
`none`) after an edit inside it; `none` if one of them may depend on what is inside. -/
def outsideSegment? (start : Nat) (stop : Option Nat) (delta : Int) :
    List Diagnostic → Option (List Diagnostic)
  | [] => some []
  | first :: rest =>
    let others := outsideSegment? start stop delta rest
    if first.span.stop ≤ start then others.map (first :: ·)
    else
      match stop with
      | some stop =>
        if stop < first.span.start then others.map (first.shift delta :: ·)
        else if start ≤ first.span.start && first.span.stop ≤ stop then others
        else none
      | none => if start ≤ first.span.start then others else none

/-- Parses the statements around an edit again. -/
def changeSegment? (old : Parse) (edit : TextEdit) (newText : String) : Option Result := do
  let children := old.root.children
  let touched := (children.takeWhile fun child => child.span.stop < edit.offset).length
  let first := firstChanged old.diagnostics children (lastAnchor children touched)
  let start := ((children[first]?).map (·.start)).getD 0
  let outcome := Grammar.runProgram old.config
    (resumesAt edit (boundaries old.diagnostics children)) newText.utf8ByteSize
    (.onDemand (.resume newText start .normal old.config.operatorLimit))
  let resumed := outcome.haltedAt.map fun offset => ((offset : Int) - edit.delta).toNat
  let outside ← outsideSegment? start resumed edit.delta old.diagnostics.items
  let last ←
    match resumed with
    | none => some children.length
    | some offset =>
      children.findIdx? fun child => child.start == offset && beginsItem child.tree
  let segment := Tree.ofEvents outcome.tokens outcome.events
  let tree := old.tree.spliceChildren first last segment.children
  if tree.width ≠ newText.utf8ByteSize then none
  some ⟨tree, (Diagnostics.ofList outside).extend outcome.diagnostics.items⟩

end LosslessSyntax.Reparse
