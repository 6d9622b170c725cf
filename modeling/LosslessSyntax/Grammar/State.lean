import LosslessSyntax.Config
import LosslessSyntax.Grammar.Shape
import LosslessSyntax.Grammar.Source
import LosslessSyntax.Token.KindSet
import LosslessSyntax.Tree.Record

/-! # The state of a parse

A grammar rule is a function from states to states. A state holds the tokens that are left, the
events written so far, the reports made so far, and the context of the place: how deeply constructs
nest, whether line breaks end them, and what kind of construct is being read. The functions here are
all that rules do to a state: look at the current token, consume it, report it, and read a node or
run in a changed context. A rule that runs inside `node`, `nested`, `withBreaks` or `during` has its
changes of the context undone at the end.

The events are what a parse yields. The shapes of the node that is being read say the same of this
node alone; no rule looks at either.
-/

namespace LosslessSyntax.Grammar

/-- What kind of construct is being read. -/
inductive Phase where
  /-- Nothing has been read. -/
  | start
  /-- A statement. -/
  | statement
  /-- An expression or a type. -/
  | expression
  /-- A block. -/
  | block
  /-- Tokens that are skipped after an error. -/
  | recovering
  /-- Everything has been read. -/
  | done
deriving DecidableEq, Repr, Inhabited

/-- The state of a parse between two steps. -/
structure State where
  /-- The significant tokens that are left, without the end. -/
  ahead : List Lookahead
  /-- The end of the tokens. -/
  finish : Lookahead
  /-- Where the significant token that was consumed last ends. -/
  lastStop : Option Nat
  /-- The events so far. -/
  record : Record
  /-- The shapes of the innermost open node so far, last first. -/
  pieces : List Shape
  /-- The reports made so far. -/
  reports : Diagnostics
  /-- Whether the end of the text has been reported, by the grammar or by the scanner. -/
  endReported : Bool
  /-- How many constructs that count against the nesting limit are open. -/
  depth : Nat
  /-- For each enclosing construct with a say in it, whether line breaks end statements and
  expressions. -/
  breakModes : List Bool
  /-- The constructs that are being read, innermost first. -/
  phases : List Phase
deriving Repr, Inhabited

namespace State

/-- The state before the first of some tokens. -/
def initial (source : TokenSource) (textLength depth : Nat) : State where
  ahead := (Lookahead.ofTokens false source.tokens).filter (·.kind != .eof)
  finish :=
    ((Lookahead.ofTokens false source.tokens).find? (·.kind == .eof)).getD
      ⟨TokenSource.endToken textLength, false⟩
  lastStop := none
  record := .empty
  pieces := []
  reports := .empty
  endReported := source.diagnostics.items.any fun diagnostic =>
    diagnostic.kind == .incomplete && diagnostic.span.stop == textLength
  depth := depth
  breakModes := [true]
  phases := [.start]

/-- The current token. -/
def current (state : State) : Lookahead := state.ahead.headD state.finish

/-- The kind of the current token. -/
def kind (state : State) : TokenKind := state.current.kind

/-- The text of the current token. -/
def text (state : State) : String := state.current.token.text

/-- Whether the current token is of a kind. -/
def isAt (kind : TokenKind) (state : State) : Bool := state.kind == kind

/-- Whether the current token is of a kind in a set. -/
def isAtAny (kinds : KindSet) (state : State) : Bool := kinds.contains state.kind

/-- Whether all tokens have been consumed. -/
def atEnd (state : State) : Bool := state.isAt .eof

/-- Whether the current token is an operator of a given text. -/
def isAtSymbol (symbol : String) (state : State) : Bool :=
  state.isAt .symbol && state.text == symbol

/-- Whether a line break before the current token ends the construct that is being read. -/
def atBreak (state : State) : Bool := state.breakModes.headD true && state.current.afterBreak

/-- Consumes the current token, unless it is the end. -/
def bump (state : State) : State :=
  match state.ahead with
  | [] => state
  | next :: rest =>
    { state with
      ahead := rest
      lastStop := some next.token.stop
      record := state.record.token
      pieces := .token :: state.pieces }

/-- Consumes so many tokens. -/
def bumpMany : Nat → State → State
  | 0, state => state
  | count + 1, state => bumpMany count state.bump

/-- Consumes the current token if it is of a kind. -/
def eat (kind : TokenKind) (state : State) : State :=
  if state.isAt kind then state.bump else state

/-- Makes a report; at the end of the text only the first one counts. -/
def report (code : DiagnosticCode) (message : String) (span : Span) (state : State) : State :=
  if state.atEnd && state.endReported then state
  else
    { state with
      endReported := state.endReported || state.atEnd
      reports := state.reports.push (.error code message span) }

/-- What is said when something else was expected. -/
def expectation (expected : String) (found : TokenKind) : String :=
  "expected " ++ expected ++ ", found " ++ found.describe

/-- Reports that the current token, or the end, is not what was expected. -/
def unexpected (expected : String) (state : State) : State :=
  state.report (if state.atEnd then .unexpectedEnd else .unexpectedToken)
    (expectation expected state.kind) state.current.token.span

/-- Reports that something is missing after the token that was consumed last. -/
def missing (expected : String) (state : State) : State :=
  if state.atEnd then state.unexpected expected
  else
    state.report .missingToken (expectation expected state.kind)
      (.empty (state.lastStop.getD state.current.token.start))

/-- Consumes a token of a kind, or reports that it is missing. -/
def expect (kind : TokenKind) (state : State) : State :=
  if state.isAt kind then state.bump else state.missing kind.describe

/-- The state at the beginning of a node. -/
def openNode (state : State) : State := { state with record := state.record.start, pieces := [] }

/-- The state after a node that began in the state `outer`. -/
def closeNode (outer : State) (kind : NodeKind) (state : State) : State :=
  { state with
    record := state.record.complete outer.record.place kind
    pieces := .node kind state.pieces.reverse :: outer.pieces }

/-- The state after a node that began in the state `outer` and is given up. -/
def abandonNode (outer state : State) : State :=
  { state with
    record := outer.record.abandon state.record
    pieces := state.pieces ++ outer.pieces }

theorem abandonNode_openNode (state : State) : abandonNode state state.openNode = state := by
  rw [abandonNode, openNode, Record.abandon_start, List.nil_append]

/-- Reads a node. -/
def node (kind : NodeKind) (body : State → State) (state : State) : State :=
  closeNode state kind (body state.openNode)

/-- Reads a node whose kind is known at its end. -/
def nodeOf (body : State → NodeKind × State) (state : State) : State :=
  let (kind, inner) := body state.openNode
  closeNode state kind inner

/-- The state at the beginning of the rest of a node that encloses the one that was read last. -/
def precedeNode (state : State) : State :=
  { state with record := state.record.precede, pieces := [] }

/-- The state after a node that encloses the one that was read last before the state `outer`. -/
def closeWrap (outer : State) (kind : NodeKind) (state : State) : State :=
  { state with
    record := state.record.complete outer.record.place kind
    pieces :=
      match outer.pieces with
      | [] => [.node kind state.pieces.reverse]
      | first :: before => .wrap kind first state.pieces.reverse :: before }

/-- Reads the rest of a node whose first child is the node that was read last. -/
def wrap (kind : NodeKind) (body : State → State) (state : State) : State :=
  closeWrap state kind (body state.precedeNode)

/-- Runs a rule one level deeper. -/
def nested (body : State → State) (state : State) : State :=
  let inner := body { state with depth := state.depth + 1 }
  { inner with depth := inner.depth - 1 }

/-- Lets line breaks end constructs from here on, or not. -/
def pushBreaks (matter : Bool) (state : State) : State :=
  { state with breakModes := matter :: state.breakModes }

/-- Takes back the last `pushBreaks`. -/
def popBreaks (state : State) : State := { state with breakModes := state.breakModes.tail }

/-- Runs a rule in which line breaks end constructs, or not. -/
def withBreaks (matter : Bool) (body : State → State) (state : State) : State :=
  (body (state.pushBreaks matter)).popBreaks

/-- Runs a rule that reads a kind of construct. -/
def during (phase : Phase) (body : State → State) (state : State) : State :=
  let inner := body { state with phases := phase :: state.phases }
  { inner with phases := inner.phases.tail }

/-- Repeats a step as long as it asks for it. A step that consumes nothing is the last in any
case. -/
def repeatStep (step : State → Bool × State) (state : State) : State :=
  let next := step state
  if next.1 ∧ next.2.ahead.length < state.ahead.length then repeatStep step next.2 else next.2
termination_by state.ahead.length
decreasing_by exact ‹_ ∧ _›.2

end State

end LosslessSyntax.Grammar
