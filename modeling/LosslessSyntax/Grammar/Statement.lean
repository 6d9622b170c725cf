import LosslessSyntax.Grammar.Construct

/-! # Statements

The rules for statements are written over a rule `inner` for expressions and types and a rule
`block` for the blocks that a statement contains. Statements end at a line break, a semicolon, a
closing brace or the end of the text; what is left before that is reported and kept inside the
statement.
-/

namespace LosslessSyntax.Grammar

open State

/-- Kinds at which a missing name of a binding is given up. -/
def bindingRecovery : KindSet := .ofList [.symbol, .colon, .inWord]

/-- Kinds at which a faulty member of a declaration is given up. -/
def memberRecovery : KindSet := .ofList [.comma, .rightBrace]

/-- Conditions and iterated expressions stop at the block that follows them. -/
def conditionRecovery : KindSet := .ofList [.leftBrace]

/-- How many tokens are left of a parenthesised group in which so many parentheses are open, and
whether they are all closed. -/
def parenLength : Nat → List Lookahead → Nat × Bool
  | 0, _ => (0, true)
  | _ + 1, [] => (0, false)
  | level + 1, next :: rest =>
    let after :=
      if next.kind == .leftParen then level + 2
      else if next.kind == .rightParen then level
      else level + 1
    let (count, closed) := parenLength after rest
    (count + 1, closed)

/-- The arguments of an annotation, which may be any tokens with balanced parentheses. -/
def annotationArgs (state : State) : State :=
  state.node .annotationArgs fun state =>
    let state := state.bump
    let (count, closed) := parenLength 1 state.ahead
    let state := state.bumpMany count
    if closed then state else state.unexpected "`)`"

/-- An annotation with its arguments. -/
def annotationUse (state : State) : State :=
  state.node .annotationUse fun state =>
    let state := state.bump
    if state.isAt .leftParen && !state.atBreak then annotationArgs state else state

/-- The annotations in front of a statement. -/
def annotations (state : State) : State :=
  state.repeatStep fun state =>
    if state.isAt .annotationMark then (true, annotationUse state) else (false, state)

/-- A name, with a type if a colon follows. -/
def binding (inner : ConstructRule) (state : State) : State :=
  state.node .binding fun state =>
    let state :=
      if state.isAt .ident then state.bump
      else if state.atSync bindingRecovery then state.missing "identifier"
      else state.recover "identifier" bindingRecovery
    if state.isAt .colon && !state.atBreak then inner (.type .empty) state.bump else state

/-- A parameter: a name, with a type if a colon follows. -/
def param (inner : ConstructRule) (state : State) : State :=
  state.node .param fun state =>
    let state := state.bump
    if state.isAt .colon then inner (.type .empty) state.bump else state

/-- Parameters between parentheses. -/
def paramList (inner : ConstructRule) (state : State) : State :=
  if state.isAt .leftParen then
    delimited .paramList .rightParen "parameter" (isAt .ident) (fun _ => param inner) state
  else state.missing "`(`"

/-- A member of a record: a name and its type. -/
def packMember (inner : ConstructRule) (state : State) : State :=
  state.node .packMember fun state =>
    let state := state.bump
    if state.isAt .colon then inner (.type .empty) state.bump
    else
      let state := state.missing "`:`"
      if atTypeStart state && !state.atBreak then inner (.type .empty) state else state

/-- A member of a union: a name, with types if a parenthesis follows. -/
def unionMember (inner : ConstructRule) (state : State) : State :=
  state.node .unionMember fun state =>
    let state := state.bump
    if state.isAt .leftParen && !state.atBreak then typeList inner state else state

/-- Members between braces, separated by commas or line breaks. -/
def memberBody (kind : NodeKind) (what : String) (member : State → State) (state : State) :
    State :=
  if state.isAt .leftBrace then
    state.node kind fun state =>
      (state.bump.withBreaks true fun state => state.repeatStep fun state =>
        if state.isAt .rightBrace || state.atEnd then (false, state)
        else if !state.isAt .ident then (true, (state.recover what memberRecovery).eat .comma)
        else
          let state := member state
          if state.isAt .comma then (true, state.bump)
          else if state.isAt .rightBrace || state.atBreak then (true, state)
          else (true, (state.recover "`,` or line break" memberRecovery).eat .comma)).expect
        .rightBrace
  else state.missing "`\x7b`"

/-- The module path after `using`. -/
def usingPath (state : State) : State :=
  state.node .usingPath fun state =>
    if state.isAt .ident then
      state.bump.repeatStep fun state =>
        if state.isAt .dot && !state.atBreak then
          let state := state.bump
          (state.isAt .ident, state.expect .ident)
        else (false, state)
    else state.expect .ident

/-- What follows `let`. -/
def letRest (config : Config) (inner : ConstructRule) (state : State) : State :=
  let state := binding inner state
  if state.isAtSymbol "=" then inner (.expr 0 .empty) state.bump
  else
    let state := state.missing "`=`"
    if atExprStart config state && !state.atBreak then inner (.expr 0 .empty) state else state

/-- Completes nodes that are open, each with the state in which it began, innermost first. -/
def closeNodes (opened : List (State × NodeKind)) (state : State) : State :=
  opened.foldl (fun state node => closeNode node.1 node.2 state) state

@[simp] theorem closeNodes_nil (state : State) : closeNodes [] state = state := rfl

@[simp] theorem closeNodes_cons (node : State × NodeKind) (opened : List (State × NodeKind))
    (state : State) :
    closeNodes (node :: opened) state = closeNodes opened (closeNode node.1 node.2 state) := rfl

/-- A condition and its block, followed by any number of further conditions with theirs and by a
last block, inside nodes that are open already. Each `else` begins a branch, and each further
condition a statement in it; they hold the rest of the chain, so they are completed at its end. -/
def ifBranches (inner : ConstructRule) (block : State → State) (opened : List (State × NodeKind))
    (state : State) : State :=
  let state₁ := block (inner (.expr 0 conditionRecovery) state.bump)
  if state₁.isAt .elseWord then
    let state₂ := state₁.openNode.bump
    if state₂.isAt .ifWord then
      if state₂.ahead.length < state.ahead.length then
        ifBranches inner block ((state₂, .ifStmt) :: (state₁, .elseBranch) :: opened) state₂.openNode
      else closeNodes opened state₁
    else closeNodes opened (closeNode state₁ .elseBranch (block state₂))
  else closeNodes opened state₁
termination_by state.ahead.length

/-- What is behind the annotations of a conditional statement. -/
def ifChain (inner : ConstructRule) (block : State → State) (state : State) : State :=
  ifBranches inner block [] state

/-- What follows `for`. -/
def forRest (inner : ConstructRule) (block : State → State) (state : State) : State :=
  block (inner (.expr 0 conditionRecovery) ((binding inner state).expect .inWord))

/-- What follows `function`. -/
def functionRest (inner : ConstructRule) (block : State → State) (state : State) : State :=
  let state := paramList inner (state.expect .ident)
  let state :=
    if state.isAt .arrow then
      state.node .returnList fun state => paramList inner state.bump
    else state
  block state

/-- What is left after a complete statement: nothing, the next statement, or tokens to skip. -/
def statementEnd (state : State) : State :=
  if state.atStatementEnd then state
  else if state.isAtAny statementKinds then state.unexpected "end of statement"
  else state.recover "end of statement" .empty

/-- A statement without its annotations, and its kind. -/
def statementBody (config : Config) (inner : ConstructRule) (block : State → State)
    (state : State) : NodeKind × State :=
  match state.kind with
  | .usingWord => (.usingStmt, usingPath state.bump)
  | .letWord => (.letStmt, letRest config inner state.bump)
  | .ifWord => (.ifStmt, ifChain inner block state)
  | .whileWord => (.whileStmt, block (inner (.expr 0 conditionRecovery) state.bump))
  | .loopWord => (.loopStmt, block state.bump)
  | .forWord => (.forStmt, forRest inner block state.bump)
  | .breakWord => (.breakStmt, state.bump)
  | .continueWord => (.continueStmt, state.bump)
  | .returnWord => (.returnStmt, state.bump)
  | .functionWord => (.functionDecl, functionRest inner block state.bump)
  | .packWord =>
    (.packDecl,
      memberBody .packBody "pack member" (packMember inner) (state.bump.expect .ident))
  | .unionWord =>
    (.unionDecl,
      memberBody .unionBody "union member" (unionMember inner) (state.bump.expect .ident))
  | _ =>
    if atExprStart config state then (.exprStmt, inner (.expr 0 .empty) state)
    else if state.atSync .empty then (.error, state.unexpected "statement")
    else (.error, state.recover "statement" .empty)

/-- Whether a statement begins at the current token. -/
def atStatementStart (config : Config) (state : State) : Bool :=
  state.isAtAny statementKinds || atExprStart config state

/-- A statement with its annotations. Its node is begun in any case, and given up if no statement
begins at the current token; then tokens are skipped. -/
def statement (config : Config) (inner : ConstructRule) (block : State → State)
    (state : State) : State :=
  state.during .statement fun state =>
    if atStatementStart config state then
      state.nodeOf fun state =>
        let (kind, state) := statementBody config inner block (annotations state)
        (kind, statementEnd state)
    else (abandonNode state state.openNode).recover "statement" .empty

/-- A node that is given up makes no difference. -/
theorem statement_eq (config : Config) (inner : ConstructRule) (block : State → State) :
    statement config inner block = during .statement fun state =>
      if atStatementStart config state then
        state.nodeOf fun state =>
          let (kind, state) := statementBody config inner block (annotations state)
          (kind, statementEnd state)
      else state.recover "statement" .empty := by
  funext state
  simp only [statement, abandonNode_openNode]

/-- A statement, or a semicolon on its own. -/
def statementItem (config : Config) (inner : ConstructRule) (block : State → State)
    (state : State) : State :=
  if state.isAt .semicolon then state.bump else statement config inner block state

/-- A block, where `room` more levels may be entered. -/
def block (config : Config) : Nat → State → State
  | 0, state =>
    if state.isAt .leftBrace then state.recoverTooDeep config.maxDepth
    else state.placeholder "`\x7b`"
  | room + 1, state =>
    if state.isAt .leftBrace then
      state.nested <| node .block fun state =>
        (state.bump.during .block <| withBreaks true fun state => state.repeatStep fun state =>
          if state.isAt .rightBrace || state.atEnd then (false, state)
          else
            (true, statementItem config (construct config room) (block config room) state)).expect
          .rightBrace
    else state.placeholder "`\x7b`"

end LosslessSyntax.Grammar
