import LosslessSyntax.Proofs.Grammar.Rules

/-! # Expressions and types keep to every coupling

The two runs may use different rules for the constructs one level further in, as long as these are
coupled. `coupled_construct` ties the knot.
-/

namespace LosslessSyntax.Grammar

open State

/-- An element of a list with the comma after it. -/
def listStep (close : TokenKind) (what : String) (starts : State → Bool)
    (element : KindSet → State → State) (s : State) : Bool × State :=
  let recovery := KindSet.ofList [close, .comma]
  if s.isAt close || s.atEnd then (false, s)
  else if starts s then (true, separator close recovery (element recovery s))
  else if s.isAt .comma then (true, separator close recovery (s.unexpected what))
  else if s.atSync recovery then (false, s)
  else (true, separator close recovery (s.recover what recovery))

/-- The comma after a type argument, and whether there is one. -/
def nextArgument (s : State) : Bool × State := if s.isAt .comma then (true, s.bump) else (false, s)

/-- A type argument with the comma after it. -/
def argumentStep (inner : ConstructRule) (s : State) : Bool × State :=
  let recovery := KindSet.ofList [.comma, .symbol]
  if s.isAtSymbol ">" || s.atEnd then (false, s)
  else if atTypeStart s then nextArgument (inner (.type recovery) s)
  else if s.atSync recovery && !s.isAt .comma then (false, s)
  else nextArgument (s.recover "type" recovery)

/-- A pair of brackets after a type. -/
def suffixStep (inner : ConstructRule) (s : State) : Bool × State :=
  if s.isAt .leftBracket && !s.atBreak then
    (true, s.wrap .arrayType fun s =>
      (s.bump.withBreaks false fun s =>
        if s.isAt .rightBracket then s
        else inner (.expr 0 (.ofList [.rightBracket])) s).expect .rightBracket)
  else (false, s)

/-- A comma and the next expression between parentheses. -/
def elementStep (inner : ConstructRule) (s : State) : Bool × State :=
  if s.isAt .comma then
    if s.bump.isAt .rightParen then (false, s.bump)
    else (true, inner (.expr 0 (.ofList [.rightParen, .comma])) s.bump)
  else (false, s)

/-- What a token makes of the operand before it, and whether more may follow. -/
def Coupling.postfixForm (config : Config) (inner : ConstructRule) (kind : TokenKind) (state : State) :
    Bool × State :=
  match kind with
  | .leftParen =>
    (true, state.wrap .callExpr <|
      delimited .argList .rightParen "argument" (atExprStart config)
        fun recovery => inner (.expr 0 recovery))
  | .leftBracket =>
    (true, state.wrap .indexExpr fun state =>
      (state.bump.withBreaks false (inner (.expr 0 (.ofList [.rightBracket])))).expect
        .rightBracket)
  | .dot => (true, state.wrap .memberExpr fun state => state.bump.expect .ident)
  | .asWord => (true, state.wrap .castExpr fun state => inner (.type .empty) state.bump)
  | _ => (false, state)

/-- A form after an operand, on the same line. -/
def formStep (config : Config) (inner : ConstructRule) (s : State) : Bool × State :=
  if s.atBreak then (false, s) else Coupling.postfixForm config inner s.kind s

/-- A binary operator with its right operand, if it is strong enough. -/
def binaryStep (config : Config) (inner : ConstructRule) (least : Nat) (recovery : KindSet)
    (s : State) : Bool × State :=
  if s.isAt .symbol && !s.atBreak then
    match config.operators.binaryPower? s.text with
    | some power =>
      if power.left < least then (false, s)
      else (true, s.wrap .binaryExpr fun s => inner (.expr power.right recovery) s.bump)
    | none => (false, s)
  else (false, s)

theorem typeArguments_eq (inner : ConstructRule) (s : State) :
    typeArguments inner s = s.node .typeList fun s =>
      let s := s.bump.withBreaks false (repeatStep (argumentStep inner))
      if s.isAtSymbol ">" then s.bump else s.missing "`>`" := rfl

namespace Coupling

variable {C : Coupling} {inner inner' : ConstructRule}

theorem coupled_separator (close : TokenKind) (recovery : KindSet) :
    C.Coupled (separator close recovery) (separator close recovery) :=
  .ite (tested_isAt .comma) .bump
    (.ite ((tested_isAt close).or (tested_atSync recovery)) .id (.missing _))

theorem coupled_listStep (close : TokenKind) (what : String) {starts : State → Bool}
    {element element' : KindSet → State → State} (tested : Tested starts)
    (coupled : ∀ recovery, C.Coupled (element recovery) (element' recovery)) :
    C.CoupledWith (listStep close what starts element) (listStep close what starts element') := by
  have next {r q : State → State} (rule : C.Coupled r q) :
      C.CoupledWith (fun s => (true, separator close (.ofList [close, .comma]) (r s)))
        (fun t => (true, separator close (.ofList [close, .comma]) (q t))) :=
    .always true ((coupled_separator close _).comp rule)
  exact .ite ((tested_isAt close).or tested_atEnd) (.always false .id) <|
    .ite tested (next (coupled _)) <|
    .ite (tested_isAt .comma) (next (.unexpected what)) <|
    .ite (tested_atSync _) (.always false .id) (next (.recover what _))

theorem coupled_commaList (close : TokenKind) (what : String) {starts : State → Bool}
    {element element' : KindSet → State → State} (tested : Tested starts)
    (coupled : ∀ recovery, C.Coupled (element recovery) (element' recovery)) :
    C.Coupled (commaList close what starts element) (commaList close what starts element') :=
  .repeatStep (coupled_listStep close what tested coupled)

theorem coupled_delimited (kind : NodeKind) (other : kind ≠ .block) (close : TokenKind)
    (what : String) {starts : State → Bool} {element element' : KindSet → State → State}
    (tested : Tested starts)
    (coupled : ∀ recovery, C.Coupled (element recovery) (element' recovery)) :
    C.Coupled (delimited kind close what starts element)
      (delimited kind close what starts element') :=
  .node kind other <| (Coupled.expect close).comp <|
    ((coupled_commaList close what tested coupled).withBreaks false).comp .bump

variable (coupled : ∀ construct, C.Coupled (inner construct) (inner' construct))
include coupled

theorem coupled_typeList : C.Coupled (typeList inner) (typeList inner') :=
  coupled_delimited .typeList nofun .rightParen "type" tested_atTypeStart fun _ => coupled _

theorem coupled_argumentStep : C.CoupledWith (argumentStep inner) (argumentStep inner') := by
  have next {r q : State → State} (rule : C.Coupled r q) :
      C.CoupledWith (fun s => nextArgument (r s)) (fun t => nextArgument (q t)) :=
    (CoupledWith.ite (tested_isAt .comma) (.always true .bump) (.always false .id)).after rule
  exact .ite ((tested_isAtSymbol ">").or tested_atEnd) (.always false .id) <|
    .ite tested_atTypeStart (next (coupled (.type (.ofList [.comma, .symbol])))) <|
    .ite ((tested_atSync (.ofList [.comma, .symbol])).and (tested_isAt .comma).not)
      (.always false .id) (next (.recover "type" (.ofList [.comma, .symbol])))

theorem coupled_typeArguments : C.Coupled (typeArguments inner) (typeArguments inner') := by
  have list := Coupled.repeatStep (coupled_argumentStep coupled)
  exact .node .typeList nofun <|
    (Coupled.ite (tested_isAtSymbol ">") .bump (.missing _)).comp ((list.withBreaks false).comp .bump)

theorem coupled_namedType : C.Coupled (namedType inner) (namedType inner') := by
  have each (generic : Bool) := Coupled.node .namedType nofun <|
    (Coupled.ite (.and (fun _ _ _ => rfl) (tested_isAtSymbol "<") : Tested fun s => generic && _)
      (coupled_typeArguments coupled) .id).comp .bump
  exact .byTest (tested_isAt .ident) each

theorem coupled_funcType : C.Coupled (funcType inner) (funcType inner') := by
  have params := Coupled.ite (tested_isAt .leftParen) (coupled_typeList coupled)
    (.missing (C := C) "`(`")
  have result := Coupled.ite ((tested_isAt .arrow).and tested_atBreak.not)
    ((Coupled.ite (tested_isAt .leftParen) (coupled_typeList coupled) (coupled (.type .empty))).comp
      .bump) .id
  exact .node .funcType nofun (result.comp (params.comp .bump))

theorem coupled_suffixStep : C.CoupledWith (suffixStep inner) (suffixStep inner') := by
  have size := Coupled.ite (tested_isAt .rightBracket) .id
    (coupled (.expr 0 (.ofList [.rightBracket])))
  exact .ite ((tested_isAt .leftBracket).and tested_atBreak.not)
    (.always true <| .wrap .arrayType nofun <|
      (Coupled.expect .rightBracket).comp ((size.withBreaks false).comp .bump))
    (.always false .id)

theorem coupled_arraySuffixes : C.Coupled (arraySuffixes inner) (arraySuffixes inner') :=
  .repeatStep (coupled_suffixStep coupled)

theorem coupled_typeBody (recovery : KindSet) :
    C.Coupled (typeBody inner recovery) (typeBody inner' recovery) :=
  .ite (tested_isAtAny modifierKinds) (.node .modifiedType nofun ((coupled (.type recovery)).comp .bump)) <|
    .ite (tested_isAt .funcWord)
      ((coupled_arraySuffixes coupled).comp (coupled_funcType coupled))
      ((coupled_arraySuffixes coupled).comp (coupled_namedType coupled))

/-- What stands between parentheses, and the kind of node it makes. -/
def insideParens (inner : ConstructRule) (state : State) : NodeKind × State :=
  let element := inner (.expr 0 (.ofList [.rightParen, .comma]))
  if state.isAt .rightParen then (.tupleExpr, state)
  else
    let first := element state
    (if first.isAt .comma then .tupleExpr else .parenExpr,
      first.repeatStep fun state =>
        if state.isAt .comma then
          if state.bump.isAt .rightParen then (false, state.bump) else (true, element state.bump)
        else (false, state))

omit coupled in
theorem parenthesized_eq (s : State) :
    parenthesized inner s = s.nodeOf fun s =>
      let inside := insideParens inner (s.bump.pushBreaks false)
      (inside.1, inside.2.popBreaks.expect .rightParen) := by
  simp only [parenthesized, insideParens]
  congr 1
  funext s
  split <;> rfl

theorem coupled_elementStep : C.CoupledWith (elementStep inner) (elementStep inner') := by
  have element := coupled (.expr 0 (.ofList [.rightParen, .comma]))
  exact .ite (tested_isAt .comma)
    ((CoupledWith.ite (tested_isAt .rightParen) (.always false .id) (.always true element)).after
      .bump)
    (.always false .id)

theorem coupled_insideParens : C.CoupledWith (insideParens inner) (insideParens inner') := by
  have element := coupled (.expr 0 (.ofList [.rightParen, .comma]))
  have more := Coupled.repeatStep (coupled_elementStep coupled)
  have kind : Tested fun s : State =>
      if s.isAt .comma then NodeKind.tupleExpr else NodeKind.parenExpr := fun s t agree => by
    simp only [tested_isAt .comma agree]
  exact .ite (tested_isAt .rightParen) (.always NodeKind.tupleExpr .id)
    ((CoupledWith.answering kind more).after element)

theorem coupled_parenthesized : C.Coupled (parenthesized inner) (parenthesized inner') := by
  have body := (((coupled_insideParens coupled).withBreaks false).after (.bump)).thenKeep
    (.expect .rightParen)
  intro s t
  rw [parenthesized_eq, parenthesized_eq]
  refine CoupledWith.nodeOf (fun s => ?_) body s t
  simp only [insideParens]
  split
  · exact nofun
  · dsimp only
    split <;> exact nofun

/-- An operand that begins with an operator, which has a power if it is a prefix operator. -/
def prefixed (inner : ConstructRule) (recovery : KindSet) (power? : Option Nat) (state : State) :
    Bool × State :=
  match power? with
  | some power => (true, state.node .prefixExpr fun state => inner (.expr power recovery) state.bump)
  | none => (false, state.absent "expression" recovery)

theorem coupled_postfixForm (config : Config) (kind : TokenKind) :
    C.CoupledWith (postfixForm config inner kind) (postfixForm config inner' kind) := by
  have brackets := (coupled (.expr 0 (.ofList [.rightBracket]))).withBreaks false
  unfold postfixForm
  split
  · exact .always true <| .wrap .callExpr (by decide) <|
      coupled_delimited .argList (by decide) .rightParen "argument" (tested_atExprStart config)
        fun recovery => coupled (.expr 0 recovery)
  · exact .always true <| .wrap .indexExpr (by decide) <|
      (Coupled.expect .rightBracket).comp (brackets.comp .bump)
  · exact .always true <| .wrap .memberExpr (by decide) <| (Coupled.expect .ident).comp .bump
  · exact .always true <| .wrap .castExpr (by decide) <| (coupled (.type .empty)).comp .bump
  · exact .always false .id

theorem coupled_formStep (config : Config) :
    C.CoupledWith (formStep config inner) (formStep config inner') :=
  .ite tested_atBreak (.always false .id)
    (.byTest tested_kind (coupled_postfixForm coupled config))

theorem coupled_postfixForms (config : Config) :
    C.Coupled (postfixForms config inner) (postfixForms config inner') :=
  .repeatStep (coupled_formStep coupled config)

theorem coupled_prefixed (recovery : KindSet) (power? : Option Nat) :
    C.CoupledWith (prefixed inner recovery power?) (prefixed inner' recovery power?) := by
  cases power? with
  | none => exact .always false (.absent "expression" recovery)
  | some power =>
    exact .always true (.node .prefixExpr (by decide) ((coupled (.expr power recovery)).comp .bump))

theorem coupled_operand (config : Config) (recovery : KindSet) :
    C.CoupledWith (operand config inner recovery) (operand config inner' recovery) := by
  have forms := coupled_postfixForms coupled config
  have list := coupled_delimited .arrayExpr (by decide) .rightBracket "expression"
    (tested_atExprStart config) fun recovery => coupled (.expr 0 recovery)
  exact .ite (tested_isAtAny literalKinds)
      (.always true (forms.comp (.node .literal (by decide) .bump))) <|
    .ite (tested_isAt .ident) (.always true (forms.comp (.node .nameRef (by decide) .bump))) <|
    .ite (tested_isAt .leftParen)
      (.always true (forms.comp (coupled_parenthesized coupled))) <|
    .ite (tested_isAt .leftBracket) (.always true (forms.comp list)) <|
    .byTest (tested_symbolText config.operators.unaryPower? none) (coupled_prefixed coupled recovery)

theorem coupled_binaryStep (config : Config) (least : Nat) (recovery : KindSet) :
    C.CoupledWith (binaryStep config inner least recovery)
      (binaryStep config inner' least recovery) := by
  refine .of_agree fun s t agree => ?_
  have here := ((tested_isAt .symbol).and tested_atBreak.not) agree
  simp only [binaryStep, ← here]
  split
  case isFalse => exact ⟨C.refl s t, .inl rfl⟩
  case isTrue atOperator =>
    simp only [isAt, Bool.and_eq_true, beq_iff_eq] at atOperator
    rw [agree.text atOperator.1]
    cases config.operators.binaryPower? t.text with
    | none => exact ⟨C.refl s t, .inl rfl⟩
    | some power =>
      dsimp only
      split
      · exact ⟨C.refl s t, .inl rfl⟩
      · have rest := (coupled (.expr power.right recovery)).comp .bump
        exact ⟨Coupled.wrap .binaryExpr (by decide) rest s t, .inl rfl⟩

theorem coupled_binaryOperators (config : Config) (least : Nat) (recovery : KindSet) :
    C.Coupled (binaryOperators config inner least recovery)
      (binaryOperators config inner' least recovery) :=
  .repeatStep (coupled_binaryStep coupled config least recovery)

theorem coupled_exprBody (config : Config) (least : Nat) (recovery : KindSet) :
    C.Coupled (exprBody config inner least recovery) (exprBody config inner' least recovery) := by
  have operators (found : Bool) : C.Coupled
      (fun s => if found then binaryOperators config inner least recovery s else s)
      (fun t => if found then binaryOperators config inner' least recovery t else t) := by
    cases found with
    | false => exact .id
    | true => exact coupled_binaryOperators coupled config least recovery
  exact (coupled_operand coupled config recovery).bind operators

omit coupled in
/-- Expressions and types keep to every coupling that survives nesting, however many levels may be
entered. -/
theorem coupled_construct [C.Nests] (config : Config) (room : Nat) (kind : Construct) :
    C.Coupled (construct config room kind) (construct config room kind) := by
  induction room generalizing kind with
  | zero =>
    cases kind with
    | expr least recovery => exact .recoverTooDeep _
    | type recovery => exact .ite tested_atTypeStart (.recoverTooDeep _) (.absent "type" recovery)
  | succ room ih =>
    cases kind with
    | expr least recovery =>
      exact .nested (.during .expression (coupled_exprBody ih config least recovery))
    | type recovery =>
      exact .ite tested_atTypeStart
        (.nested (.during .expression (coupled_typeBody ih recovery))) (.absent "type" recovery)

end Coupling

end LosslessSyntax.Grammar
