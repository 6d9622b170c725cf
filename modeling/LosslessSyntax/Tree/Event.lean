import LosslessSyntax.Token.Basic
import LosslessSyntax.Tree.Basic

/-! # Trees from events

A parse is recorded as a flat list of events over the significant tokens: nodes begin and end, and
tokens are consumed. A beginning may name a later beginning as its forward parent, whose node is to
enclose it; so an operand that has been read already becomes the first child of its operator.
`Tree.ofEvents` replays such a list over all tokens of the text. Tokens that the events do not speak
of, trivia and unrecognised input, go into the node that is open when they are met, and what is left
at the end goes into the outermost node.
-/

namespace LosslessSyntax

/-- A step of a recorded parse. -/
inductive Event where
  /-- A node begins; `forwardParent` is the distance to the later beginning that encloses it. -/
  | start (kind : NodeKind) (forwardParent : Option Nat)
  /-- The next significant token is consumed. -/
  | token
  /-- The node that began last ends. -/
  | finish
  /-- A beginning that was given up. -/
  | tombstone
deriving DecidableEq, Repr, Inhabited

namespace Event

/-- Follows forward parents: skips `distance` events, and if the next one is a beginning, takes its
kind and goes on from there. Returns the kinds, inner ones first, and the events with every event
that was reached given up. -/
def claimParents : Nat → List Event → List NodeKind × List Event
  | _, [] => ([], [])
  | 0, .start kind (some (distance + 1)) :: rest =>
    let (kinds, rest) := claimParents distance rest
    (kind :: kinds, .tombstone :: rest)
  | 0, .start kind _ :: rest => ([kind], .tombstone :: rest)
  | 0, _ :: rest => ([], .tombstone :: rest)
  | distance + 1, event :: rest =>
    let (kinds, rest) := claimParents distance rest
    (kinds, event :: rest)

theorem length_claimParents (distance : Nat) (events : List Event) :
    (claimParents distance events).2.length = events.length := by
  fun_induction claimParents distance events <;> simp_all

/-- The kinds of the nodes that enclose a beginning, inner ones first, and the events after it with
the beginnings of those nodes given up. -/
def parentsOf : Option Nat → List Event → List NodeKind × List Event
  | some (distance + 1), events => claimParents distance events
  | _, events => ([], events)

theorem length_parentsOf (forwardParent : Option Nat) (events : List Event) :
    (parentsOf forwardParent events).2.length = events.length := by
  unfold parentsOf
  split
  · exact length_claimParents ..
  · rfl

end Event

/-- A tree under construction. -/
structure TreeBuilder where
  /-- The tokens that are not placed yet. -/
  tokens : List Token
  /-- The open nodes, innermost first, each with its children so far, last first. -/
  stack : List (NodeKind × List Tree)
  /-- The outermost node, once it is closed. -/
  root : Option Tree
deriving Inhabited

namespace TreeBuilder

/-- The leaf of a token. -/
def leafOf (token : Token) : Tree := .leaf token.kind token.text

/-- Adds children to the innermost open node. -/
def add (builder : TreeBuilder) (children : List Tree) : TreeBuilder :=
  match builder.stack with
  | [] => builder
  | (kind, before) :: outer =>
    { builder with stack := (kind, children.reverse ++ before) :: outer }

/-- Places the tokens before the next significant one, if a node is open. -/
def attachSkipped (builder : TreeBuilder) : TreeBuilder :=
  if builder.stack.isEmpty then builder
  else
    let skipped := builder.tokens.takeWhile (!·.kind.isSignificant)
    let left := builder.tokens.dropWhile (!·.kind.isSignificant)
    { builder with tokens := left }.add (skipped.map leafOf)

/-- Opens a node. -/
def start (builder : TreeBuilder) (kind : NodeKind) : TreeBuilder :=
  let builder := builder.attachSkipped
  { builder with stack := (kind, []) :: builder.stack }

/-- Places the next token, unless it is the end of the text. -/
def token (builder : TreeBuilder) : TreeBuilder :=
  let builder := builder.attachSkipped
  match builder.tokens with
  | [] => builder
  | next :: rest =>
    if next.kind == .eof then builder else { builder with tokens := rest }.add [leafOf next]

/-- The leaves of all tokens that are left. -/
def remaining (builder : TreeBuilder) : List Tree :=
  (builder.tokens.filter (·.kind != .eof)).map leafOf

/-- Closes the innermost open node; the outermost one takes all tokens that are left. -/
def finish (builder : TreeBuilder) : TreeBuilder :=
  match builder.stack with
  | [] => builder
  | [(kind, children)] =>
    { tokens := [], stack := [], root := some (.node kind (children.reverse ++ builder.remaining)) }
  | (kind, children) :: outer =>
    { builder with stack := outer }.add [.node kind children.reverse]

/-- Replays events. -/
def replay (builder : TreeBuilder) : List Event → TreeBuilder
  | [] => builder
  | .start kind forwardParent :: rest =>
    let parents := Event.parentsOf forwardParent rest
    ((kind :: parents.1).reverse.foldl start builder).replay parents.2
  | .token :: rest => builder.token.replay rest
  | .finish :: rest => builder.finish.replay rest
  | .tombstone :: rest => builder.replay rest
termination_by events => events.length
decreasing_by all_goals simp [Event.length_parentsOf]

/-- Closes all open nodes. -/
def closeAll (builder : TreeBuilder) : TreeBuilder :=
  builder.stack.foldl (fun builder _ => builder.finish) builder

/-- The outermost node; without one, a root of all tokens that are left. -/
def toTree (builder : TreeBuilder) : Tree :=
  let builder := builder.closeAll
  builder.root.getD (.node .root builder.remaining)

end TreeBuilder

/-- The tree that events over some tokens describe. -/
def Tree.ofEvents (tokens : List Token) (events : List Event) : Tree :=
  (TreeBuilder.replay ⟨tokens, [], none⟩ events).toTree

end LosslessSyntax
