import LosslessSyntax.Grammar.State

/-! # Recovery

A rule that meets a token it cannot use reports it and skips to the next token at which another rule
can go on. Skipped tokens go into an error node. A bracketed group is skipped as a whole, so that
what lies inside it is not taken for the continuation of the construct around it. How many tokens
are skipped is counted on the tokens ahead (`groupLength`, `deepLength`) before any is consumed.
-/

namespace LosslessSyntax.Grammar

/-- Kinds that always end recovery. -/
def syncKinds : KindSet := .ofList [.rightBrace, .semicolon, .eof]

/-- Kinds that can only begin a statement. -/
def statementKinds : KindSet :=
  .ofList [.annotationMark, .usingWord, .letWord, .ifWord, .whileWord, .loopWord, .forWord,
    .breakWord, .continueWord, .returnWord, .functionWord, .packWord, .unionWord]

/-- How many tokens belong to groups that are already open, given by the kinds that close them,
innermost first. A closing token also closes the groups inside the one it belongs to; a closing
brace that belongs to none of them ends the count. -/
def groupLength (expected : List TokenKind) : List Lookahead → Nat
  | [] => 0
  | next :: rest =>
    if expected.isEmpty then 0
    else
      match next.kind.closer? with
      | some closer => groupLength (closer :: expected) rest + 1
      | none =>
        if expected.contains next.kind then
          groupLength ((expected.dropWhile (· != next.kind)).drop 1) rest + 1
        else if next.kind == .rightBrace then 0
        else groupLength expected rest + 1

/-- How many tokens are skipped together: a group as far as it goes, else a single token. -/
def unitLength : List Lookahead → Nat
  | [] => 0
  | next :: rest =>
    match next.kind.closer? with
    | some closer => groupLength [closer] rest + 1
    | none => 1

/-- How many tokens are skipped in place of a construct that nests too deeply: a group that begins
at the current token, or else everything up to the end of the group around it or a token that ends
recovery. `level` counts the open groups and `consumed` tells whether a token has been passed. -/
def deepLength (ends : Lookahead → Bool) (level : Nat) (consumed : Bool) : List Lookahead → Nat
  | [] => 0
  | next :: rest =>
    if next.kind.isCloser then
      match level with
      | 0 => 0
      | 1 => 1
      | outer + 1 => deepLength ends outer consumed rest + 1
    else if next.kind.closer?.isSome then deepLength ends (level + 1) true rest + 1
    else if level == 0 && consumed && ends next then 0
    else deepLength ends level true rest + 1

namespace State

/-- Whether a token ends recovery: it is of a kind in the set, or ends recovery always, or begins a
statement, or follows a line break that matters. -/
def endsRecovery (recovery : KindSet) (state : State) (next : Lookahead) : Bool :=
  recovery.contains next.kind || syncKinds.contains next.kind ||
    statementKinds.contains next.kind || (state.breakModes.headD true && next.afterBreak)

/-- Whether the current token ends recovery. -/
def atSync (recovery : KindSet) (state : State) : Bool := state.endsRecovery recovery state.current

/-- Whether the current token can follow a complete statement. -/
def atStatementEnd (state : State) : Bool := state.isAtAny syncKinds || state.atBreak

/-- Skips a group, or a single token. -/
def skipUnit (state : State) : State := state.bumpMany (unitLength state.ahead)

/-- Skips tokens up to one that ends recovery, but at least one. -/
def skipToSync (recovery : KindSet) (state : State) : State :=
  state.skipUnit.repeatStep fun state =>
    if state.atSync recovery then (false, state) else (true, state.skipUnit)

/-- Reports the current token and skips to one that ends recovery. -/
def recover (expected : String) (recovery : KindSet) (state : State) : State :=
  let reported := state.unexpected expected
  if reported.atEnd then reported
  else reported.node .error (during .recovering (skipToSync recovery))

/-- Reports that a construct is absent and leaves an empty error node in its place. -/
def placeholder (expected : String) (state : State) : State :=
  (state.unexpected expected).node .error id

/-- Deals with the absence of a construct: leaves a placeholder before a token that ends recovery,
and skips to such a token otherwise. -/
def absent (expected : String) (recovery : KindSet) (state : State) : State :=
  if state.atSync recovery then state.placeholder expected else state.recover expected recovery

/-- What is said when constructs nest more deeply than allowed. -/
def depthMessage (limit : Nat) : String := s!"nesting exceeds the limit of {limit} levels"

/-- Reports that constructs nest too deeply and skips the current one. -/
def recoverTooDeep (limit : Nat) (state : State) : State :=
  if state.atEnd then state.unexpected "nested construct"
  else
    (state.report .nestingTooDeep (depthMessage limit) state.current.token.span).node .error <|
      during .recovering fun state =>
        state.bumpMany (deepLength (state.endsRecovery .empty) 0 false state.ahead)

end State

end LosslessSyntax.Grammar
