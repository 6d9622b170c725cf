import LosslessSyntax.Grammar.Recovery

/-! # Expressions and types

Expressions and types contain each other, and each one inside another counts against the nesting
limit. So the rules here are written over a rule `inner` for the constructs one level further in,
and `construct` ties them together by recursion on the number of levels that are left.

Inside parentheses and square brackets line breaks mean nothing. Operators come from the table of
the configuration: an operand is extended by binary operators as long as their left power reaches
the power that is asked for. Calls, indexing, member access and casts bind tighter than any
operator.
-/

namespace LosslessSyntax.Grammar

open State

/-- A construct that counts against the nesting limit. -/
inductive Construct where
  /-- An expression of operators with at least the given power. -/
  | expr (least : Nat) (recovery : KindSet)
  /-- A type. -/
  | type (recovery : KindSet)

/-- A rule for constructs. -/
abbrev ConstructRule := Construct → State → State

/-- Kinds that are expressions by themselves. -/
def literalKinds : KindSet :=
  .ofList [.number, .string, .interpolatedString, .trueWord, .falseWord]

/-- Whether an expression begins at the current token. -/
def atExprStart (config : Config) (state : State) : Bool :=
  state.isAtAny literalKinds || state.isAt .ident || state.isAt .leftParen ||
    state.isAt .leftBracket ||
    (state.isAt .symbol && (config.operators.unaryPower? state.text).isSome)

/-- Words that modify the type after them. -/
def modifierKinds : KindSet := .ofList [.autoWord, .refWord, .mutWord, .lazyWord]

/-- Kinds with which types begin. -/
def typeKinds : KindSet :=
  .ofList [.baseType, .ident, .autoWord, .refWord, .mutWord, .lazyWord, .funcWord]

/-- Whether a type begins at the current token. -/
def atTypeStart (state : State) : Bool := state.isAtAny typeKinds

/-- The comma after an element of a list, unless the list ends here. -/
def separator (close : TokenKind) (recovery : KindSet) (state : State) : State :=
  if state.isAt .comma then state.bump
  else if state.isAt close || state.atSync recovery then state
  else state.missing "`,`"

/-- Elements with commas between them, up to a closing token, which is left in place. -/
def commaList (close : TokenKind) (what : String) (starts : State → Bool)
    (element : KindSet → State → State) (state : State) : State :=
  let recovery := KindSet.ofList [close, .comma]
  state.repeatStep fun state =>
    if state.isAt close || state.atEnd then (false, state)
    else if starts state then (true, separator close recovery (element recovery state))
    else if state.isAt .comma then (true, separator close recovery (state.unexpected what))
    else if state.atSync recovery then (false, state)
    else (true, separator close recovery (state.recover what recovery))

/-- A list between brackets, in which line breaks mean nothing. -/
def delimited (kind : NodeKind) (close : TokenKind) (what : String) (starts : State → Bool)
    (element : KindSet → State → State) (state : State) : State :=
  state.node kind fun state =>
    (state.bump.withBreaks false (commaList close what starts element)).expect close

/-- Types between parentheses. -/
def typeList (inner : ConstructRule) (state : State) : State :=
  delimited .typeList .rightParen "type" atTypeStart (fun recovery => inner (.type recovery)) state

/-- The types between angle brackets; each bracket has to be an operator of its own. -/
def typeArguments (inner : ConstructRule) (state : State) : State :=
  let recovery := KindSet.ofList [.comma, .symbol]
  state.node .typeList fun state =>
    let state := state.bump.withBreaks false fun state => state.repeatStep fun state =>
      let next (state : State) : Bool × State :=
        if state.isAt .comma then (true, state.bump) else (false, state)
      if state.isAtSymbol ">" || state.atEnd then (false, state)
      else if atTypeStart state then next (inner (.type recovery) state)
      else if state.atSync recovery && !state.isAt .comma then (false, state)
      else next (state.recover "type" recovery)
    if state.isAtSymbol ">" then state.bump else state.missing "`>`"

/-- The name of a type, with arguments if it is not a base type. -/
def namedType (inner : ConstructRule) (state : State) : State :=
  let generic := state.isAt .ident
  state.node .namedType fun state =>
    let state := state.bump
    if generic && state.isAtSymbol "<" then typeArguments inner state else state

/-- The type of a function. -/
def funcType (inner : ConstructRule) (state : State) : State :=
  state.node .funcType fun state =>
    let state := state.bump
    let state := if state.isAt .leftParen then typeList inner state else state.missing "`(`"
    if state.isAt .arrow && !state.atBreak then
      let state := state.bump
      if state.isAt .leftParen then typeList inner state else inner (.type .empty) state
    else state

/-- The brackets after a type that make it the type of arrays. -/
def arraySuffixes (inner : ConstructRule) (state : State) : State :=
  state.repeatStep fun state =>
    if state.isAt .leftBracket && !state.atBreak then
      (true, state.wrap .arrayType fun state =>
        (state.bump.withBreaks false fun state =>
          if state.isAt .rightBracket then state
          else inner (.expr 0 (.ofList [.rightBracket])) state).expect .rightBracket)
    else (false, state)

/-- A type, at a token with which types begin. -/
def typeBody (inner : ConstructRule) (recovery : KindSet) (state : State) : State :=
  if state.isAtAny modifierKinds then
    state.node .modifiedType fun state => inner (.type recovery) state.bump
  else if state.isAt .funcWord then arraySuffixes inner (funcType inner state)
  else arraySuffixes inner (namedType inner state)

/-- Expressions between parentheses. -/
def parenthesized (inner : ConstructRule) (state : State) : State :=
  let element := inner (.expr 0 (.ofList [.rightParen, .comma]))
  state.nodeOf fun state =>
    let state := state.bump.pushBreaks false
    if state.isAt .rightParen then (.tupleExpr, state.popBreaks.expect .rightParen)
    else
      let state := element state
      let kind := if state.isAt .comma then NodeKind.tupleExpr else .parenExpr
      let state := state.repeatStep fun state =>
        if state.isAt .comma then
          let state := state.bump
          if state.isAt .rightParen then (false, state) else (true, element state)
        else (false, state)
      (kind, state.popBreaks.expect .rightParen)

/-- The forms after an operand that bind tighter than operators, from left to right. -/
def postfixForms (config : Config) (inner : ConstructRule) (state : State) : State :=
  state.repeatStep fun state =>
    if state.atBreak then (false, state)
    else
      match state.kind with
      | .leftParen =>
        (true, state.wrap .callExpr <|
          delimited .argList .rightParen "argument" (atExprStart config)
            fun recovery => inner (.expr 0 recovery))
      | .leftBracket =>
        (true, state.wrap .indexExpr fun state =>
          (state.bump.withBreaks false (inner (.expr 0 (.ofList [.rightBracket])))).expect
            .rightBracket)
      | .dot => (true, state.wrap .memberExpr fun state => state.bump.expect .ident)
      | .asWord => (true, state.wrap .castExpr fun state => inner (.type .empty) state.bump)
      | _ => (false, state)

/-- An operand with its prefix operator or the forms after it, and whether there is one. -/
def operand (config : Config) (inner : ConstructRule) (recovery : KindSet) (state : State) :
    Bool × State :=
  if state.isAtAny literalKinds then
    (true, postfixForms config inner (state.node .literal bump))
  else if state.isAt .ident then
    (true, postfixForms config inner (state.node .nameRef bump))
  else if state.isAt .leftParen then
    (true, postfixForms config inner (parenthesized inner state))
  else if state.isAt .leftBracket then
    (true, postfixForms config inner <|
      delimited .arrayExpr .rightBracket "expression" (atExprStart config)
        (fun recovery => inner (.expr 0 recovery)) state)
  else
    let power? := if state.isAt .symbol then config.operators.unaryPower? state.text else none
    match power? with
    | some power =>
      (true, state.node .prefixExpr fun state => inner (.expr power recovery) state.bump)
    | none => (false, state.absent "expression" recovery)

/-- The binary operators after an operand, each with its right operand. -/
def binaryOperators (config : Config) (inner : ConstructRule) (least : Nat) (recovery : KindSet)
    (state : State) : State :=
  state.repeatStep fun state =>
    if state.isAt .symbol && !state.atBreak then
      match config.operators.binaryPower? state.text with
      | some power =>
        if power.left < least then (false, state)
        else
          (true, state.wrap .binaryExpr fun state => inner (.expr power.right recovery) state.bump)
      | none => (false, state)
    else (false, state)

/-- An expression whose operators have at least the given power. -/
def exprBody (config : Config) (inner : ConstructRule) (least : Nat) (recovery : KindSet)
    (state : State) : State :=
  let (found, state) := operand config inner recovery state
  if found then binaryOperators config inner least recovery state else state

/-- A construct, where `room` more levels may be entered. -/
def construct (config : Config) : Nat → ConstructRule
  | 0, .expr _ _, state => state.recoverTooDeep config.maxDepth
  | room + 1, .expr least recovery, state =>
    state.nested (during .expression (exprBody config (construct config room) least recovery))
  | 0, .type recovery, state =>
    if atTypeStart state then state.recoverTooDeep config.maxDepth
    else state.absent "type" recovery
  | room + 1, .type recovery, state =>
    if atTypeStart state then
      state.nested (during .expression (typeBody (construct config room) recovery))
    else state.absent "type" recovery

end LosslessSyntax.Grammar
