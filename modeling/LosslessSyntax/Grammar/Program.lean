import LosslessSyntax.Grammar.Statement

/-! # Whole parses

A parse runs a rule over a token source and collects what came out: the events of the tree, the
tokens they are about, and the diagnostics of the scanner and the grammar together. The rule is the
one for a whole program, which may halt before a statement, or the one for a single block.
-/

namespace LosslessSyntax.Grammar

open State

/-- What a parse yields. -/
structure Outcome where
  /-- How the significant tokens are grouped. -/
  events : List Event
  /-- The tokens that were parsed, trivia included. -/
  tokens : List Token
  /-- What is wrong with them. -/
  diagnostics : Diagnostics
  /-- Where the parse halted before the end. -/
  haltedAt : Option Nat
  /-- Whether all significant tokens were consumed. -/
  reachedEnd : Bool
deriving Repr, Inhabited

/-- What a parse of a source yields whose last state is given. A parse that halted takes the tokens
before the one it halted at, and what the scanner found wrong before it. -/
def Outcome.ofState (source : TokenSource) (haltedAt : Option Nat) (state : State) : Outcome :=
  let (tokens, lexical) := source.read haltedAt
  let before (offset : Nat) : Bool := haltedAt.all fun halt => offset < halt
  { events := state.record.events.toList
    tokens := tokens.takeWhile fun token => before token.start
    diagnostics :=
      state.reports.extend (lexical.items.filter fun diagnostic => before diagnostic.span.start)
    haltedAt := haltedAt
    reachedEnd := state.atEnd }

/-- Statements up to the end, or up to one that starts at an offset where the parse is to halt. -/
def program (config : Config) (halts : Nat → Bool) (state : State) : State :=
  state.node .root <| repeatStep fun state =>
    if state.atEnd || halts state.current.token.start then (false, state)
    else
      (true, statementItem config (construct config config.maxDepth) (block config config.maxDepth)
        state)

/-- Parses a program from a source, in a text of the given length. -/
def runProgram (config : Config) (halts : Nat → Bool) (textLength : Nat) (source : TokenSource) :
    Outcome :=
  let state := program config halts (.initial source textLength 0)
  let haltedAt := if state.atEnd then none else some state.current.token.start
  .ofState source haltedAt state

/-- Parses a block from a source, inside `depth` other blocks. -/
def runBlock (config : Config) (depth : Nat) (textLength : Nat) (source : TokenSource) : Outcome :=
  .ofState source none <|
    block config (config.maxDepth - depth) (.initial source textLength depth)

end LosslessSyntax.Grammar
