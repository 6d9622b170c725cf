import LosslessSyntax.Tree.Event

/-! # Shapes

The grammar decides how the significant tokens of a text are grouped, without looking at what lies
between them. The result is a shape: a tree whose leaves just stand for the next significant token.
A shape may wrap an earlier one, when an operand turns out to be the first part of a larger
expression. `Shape.events` writes a shape as the flat list of events that `Tree.ofEvents` replays.
-/

namespace LosslessSyntax

/-- How significant tokens are grouped. -/
inductive Shape where
  /-- The next significant token. -/
  | token
  /-- A node with its children. -/
  | node (kind : NodeKind) (children : List Shape)
  /-- A node whose first child was read before the node was known. -/
  | wrap (kind : NodeKind) (first : Shape) (rest : List Shape)
deriving Repr, Inhabited

namespace Shape

/-- The forward parent of a node with so many events inside, if a node wraps it: its parent begins
right after it ends. -/
def forwardParent (wrapped : Bool) (inside : List Event) : Option Nat :=
  if wrapped then some (inside.length + 2) else none

mutual
/-- The events of a shape that a node wraps or not. -/
def eventsWithin (wrapped : Bool) : Shape → List Event
  | .token => [.token]
  | .node kind children =>
    let inside := eventsOfAll children
    .start kind (forwardParent wrapped inside) :: inside ++ [.finish]
  | .wrap kind first rest =>
    let inside := eventsOfAll rest
    eventsWithin true first ++ .start kind (forwardParent wrapped inside) :: inside ++ [.finish]
/-- The events of shapes that follow each other. -/
def eventsOfAll : List Shape → List Event
  | [] => []
  | first :: rest => eventsWithin false first ++ eventsOfAll rest
end

/-- The events of a shape. -/
def events (shape : Shape) : List Event := shape.eventsWithin false

end Shape

end LosslessSyntax
