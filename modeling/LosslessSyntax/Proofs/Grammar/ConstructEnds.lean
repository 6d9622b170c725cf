import LosslessSyntax.Proofs.Derivation.Constructs
import LosslessSyntax.Proofs.Grammar.Prolonged

/-! # Where constructs end

Every rule for expressions and types stops at a token on a new line as it does at the end. The
arguments after the name of a type are the exception: their bracket is taken wherever it stands, so
a token that starts anew is no such bracket. What is between brackets settles because a bracket has
to follow it. By induction on the levels of nesting that are left, all constructs settle
(`demands_construct`).
-/

namespace LosslessSyntax.Grammar

open State Coupling

variable {inner : ConstructRule}

theorem onward_angle (generic : Bool) : Onward fun s => generic && s.isAtSymbol "<" where
  tested := .and (fun _ _ _ => rfl) (tested_isAtSymbol "<")
  atEnd := by
    intro s atEnd
    rw [isAtSymbol_of_atEnd "<" atEnd, Bool.and_false]
  anew := by
    intro t anew _
    have other : t.isAtSymbol "<" = false := by
      rw [isAtSymbol, Bool.and_eq_false_iff, isAt, beq_eq_false_iff_ne, beq_eq_false_iff_ne]
      by_cases symbol : t.kind = .symbol
      · exact .inr (anew.notAngle symbol)
      · exact .inl symbol
    rw [other, Bool.and_false]

theorem enters_delimited {kind : NodeKind} {close : TokenKind} (other : close ≠ .eof)
    (what : String) {starts : State → Bool} {element : KindSet → State → State}
    (tested : Tested starts) (steady : ∀ recovery, Steady (element recovery)) :
    Enters (delimited kind close what starts element) :=
  .node kind <| .comp (Demands.settles <| .closing (.expect other) fun u u' =>
    (coupled_commaList close what tested fun recovery => steady recovery u u').withBreaks false) .bump

section Constructs

variable (demands : ∀ construct, Demands (inner construct))
include demands

theorem coupled_inner (u u' : List Lookahead) (construct : Construct) :
    (abreastCoupling .placeless u u').Coupled (inner construct) (inner construct) :=
  (demands construct).steady u u'

theorem enters_typeList : Enters (typeList inner) :=
  enters_delimited (by decide) "type" tested_atTypeStart fun recovery =>
    (demands (.type recovery)).steady

theorem enters_typeArguments : Enters (typeArguments inner) := by
  have list : Steady fun s => s.withBreaks false (repeatStep (argumentStep inner)) :=
    fun u u' => .withBreaks false (.repeatStep (coupled_argumentStep (coupled_inner demands u u')))
  have bracket : Demands fun s => if s.isAtSymbol ">" then s.bump else s.missing "`>`" :=
    .ite (tested_isAtSymbol ">") (fun _ => isAtSymbol_of_atEnd ">") .bump (.missing _)
  exact .node .typeList (.comp (bracket.closing list).settles .bump)

theorem enters_namedType : Enters (namedType inner) := by
  have each (generic : Bool) : Enters (State.node .namedType fun s =>
      if generic && s.bump.isAtSymbol "<" then typeArguments inner s.bump else s.bump) :=
    .node .namedType (.comp (.continuing (onward_angle generic) (enters_typeArguments demands)) .bump)
  have named := Enters.byTest (tested_isAt .ident) each
  exact named

theorem enters_funcType : Enters (funcType inner) := by
  have params : Demands fun s => if s.isAt .leftParen then typeList inner s else s.missing "`(`" :=
    .ifAt (by decide) (enters_typeList demands) (.missing _)
  have result : Demands fun s =>
      if s.isAt .leftParen then typeList inner s else inner (.type .empty) s :=
    .ifAt (by decide) (enters_typeList demands) (demands _)
  have more := Enters.comp result.settles .bump
  have arrow := Settles.continuing (@Onward.kind .arrow (by decide)) more
  exact .node .funcType (.comp (Settles.comp arrow params.settles) .bump)

theorem settles_arraySuffixes : Settles (arraySuffixes inner) := by
  have size : Steady fun s => s.withBreaks false fun s =>
      if s.isAt .rightBracket then s else inner (.expr 0 (.ofList [.rightBracket])) s :=
    fun u u' => .withBreaks false
      (.ite (tested_isAt .rightBracket) .id (coupled_inner demands u u' _))
  have bracket : Demands (State.expect .rightBracket) := .expect (by decide)
  have element := Enters.comp (bracket.closing size).settles .bump
  exact .loop (.kind (by decide)) (.wrap .arrayType (by decide) element)

theorem enters_typeBody (recovery : KindSet) : Enters (typeBody inner recovery) :=
  .ite (tested_isAtAny modifierKinds)
    (.node .modifiedType (.comp (demands (.type recovery)).settles .bump)) <|
    .ite (tested_isAt .funcWord)
      (.comp (settles_arraySuffixes demands) (enters_funcType demands))
      (.comp (settles_arraySuffixes demands) (enters_namedType demands))

theorem enters_exprList (config : Config) {kind : NodeKind} {close : TokenKind}
    (other : close ≠ .eof) (what : String) :
    Enters (delimited kind close what (atExprStart config)
      fun recovery => inner (.expr 0 recovery)) :=
  enters_delimited other what (tested_atExprStart config) fun recovery =>
    (demands (.expr 0 recovery)).steady

/-- Brackets keep two states together if a token is left after what is inside them. -/
theorem enters_parenthesized : Enters (parenthesized inner) where
  steady := fun u u' => coupled_parenthesized (coupled_inner demands u u')
  entered := by
    intro u s t prolonged some clean
    have inside : SteadyWith fun s : State => ((insideParens inner (s.pushBreaks false)).1,
        (insideParens inner (s.pushBreaks false)).2.popBreaks) :=
      fun u u' => (coupled_insideParens (coupled_inner demands u u')).withBreaks false
    have bracket : Demands (State.expect .rightParen) := .expect (by decide)
    rw [parenthesized_eq] at clean ⊢
    rw [parenthesized_eq]
    have closed : (((insideParens inner (s.openNode.bump.pushBreaks false)).2.popBreaks).expect
        .rightParen).Clean := ⟨clean.reports, clean.endReported⟩
    have opened := prolonged.openNode.bump some
    have left : (insideParens inner (s.openNode.bump.pushBreaks false)).2.popBreaks.ahead ≠ [] :=
      fun none => bracket.fails (opened.proper.of_runs (inside.runs _)) none closed
    obtain ⟨kinds, within⟩ := opened.answered inside (bracket.steady.before closed) left
    have kinds : (insideParens inner (s.openNode.bump.pushBreaks false)).1 =
        (insideParens inner (t.openNode.bump.pushBreaks false)).1 := kinds
    simp only [nodeOf, ← kinds]
    exact .closeNode _ prolonged (bracket.entered within left closed)

theorem settles_postfixForms (config : Config) : Settles (postfixForms config inner) := by
  have arguments : Enters (delimited .argList .rightParen "argument" (atExprStart config)
      fun recovery => inner (.expr 0 recovery)) := enters_exprList demands config (by decide) _
  have index : Demands fun s => (s.withBreaks false
      (inner (.expr 0 (.ofList [.rightBracket])))).expect .rightBracket :=
    .closing (.expect (by decide)) fun u u' => .withBreaks false (coupled_inner demands u u' _)
  have member : Demands (State.expect .ident) := .expect (by decide)
  refine .repeatStep (fun u u' => ?_) (fun s atEnd => ?_) (fun t _ atBreak => ?_) ?_
  · exact coupled_postfixForms (coupled_inner demands u u') config
  · rw [beq_iff_eq.mp atEnd]
    exact ite_self _
  · rw [if_pos atBreak]
  · intro u s t prolonged some clean
    have agree := prolonged.agree some
    simp only [← agree.atBreak, ← agree.kind]
    split
    · exact ⟨rfl, prolonged⟩
    case isFalse sameLine =>
      rw [if_neg sameLine] at clean
      revert clean
      split
      · exact fun clean => ⟨rfl, (arguments.wrap .callExpr (by decide)).entered prolonged some clean⟩
      · exact fun clean => ⟨rfl, (Enters.wrap .indexExpr (by decide)
          (.comp index.settles .bump)).entered prolonged some clean⟩
      · exact fun clean => ⟨rfl, (Enters.wrap .memberExpr (by decide)
          (.comp member.settles .bump)).entered prolonged some clean⟩
      · exact fun clean => ⟨rfl, (Enters.wrap .castExpr (by decide)
          (.comp (demands _).settles .bump)).entered prolonged some clean⟩
      · exact fun _ => ⟨rfl, prolonged⟩

theorem settles_binaryOperators (config : Config) (least : Nat) (recovery : KindSet) :
    Settles (binaryOperators config inner least recovery) := by
  refine .loopWith (.kind (by decide))
    (fun u u' => coupled_binaryOperators (coupled_inner demands u u') config least recovery) ?_
  intro u s t prolonged some here clean
  have text := (prolonged.agree some).text (beq_iff_eq.mp (Bool.and_eq_true_iff.mp here).1)
  rw [← text]
  revert clean
  cases config.operators.binaryPower? s.text with
  | none => exact fun _ => ⟨rfl, prolonged⟩
  | some power =>
    have operand := Enters.comp (demands (.expr power.right recovery)).settles .bump
    dsimp only
    split
    · exact fun _ => ⟨rfl, prolonged⟩
    · exact fun clean => ⟨rfl, (operand.wrap .binaryExpr (by decide)).entered prolonged some clean⟩

/-- An expression that begins with an operator, which has a power if it is a prefix operator. -/
def signedExpr (config : Config) (inner : ConstructRule) (least : Nat) (recovery : KindSet)
    (power? : Option Nat) (s : State) : State :=
  let operand := prefixed inner recovery power? s
  if operand.1 then binaryOperators config inner least recovery operand.2 else operand.2

omit demands in
theorem exprBody_eq (config : Config) (least : Nat) (recovery : KindSet) :
    exprBody config inner least recovery = fun s =>
      let forms (s : State) : State :=
        binaryOperators config inner least recovery (postfixForms config inner s)
      if s.isAtAny literalKinds then forms (s.node .literal bump)
      else if s.isAt .ident then forms (s.node .nameRef bump)
      else if s.isAt .leftParen then forms (parenthesized inner s)
      else if s.isAt .leftBracket then
        forms (delimited .arrayExpr .rightBracket "expression" (atExprStart config)
          (fun recovery => inner (.expr 0 recovery)) s)
      else
        signedExpr config inner least recovery
          (if s.isAt .symbol then config.operators.unaryPower? s.text else none) s := by
  funext s
  simp only [exprBody, operand]
  split
  · rfl
  split
  · rfl
  split
  · rfl
  split
  · rfl
  · exact ite_congr rfl (fun _ => rfl) fun _ => rfl

theorem demands_exprBody (config : Config) (least : Nat) (recovery : KindSet) :
    Demands (exprBody config inner least recovery) := by
  have operators := settles_binaryOperators demands config least recovery
  have forms {r : State → State} (enters : Enters r) : Enters fun s =>
      binaryOperators config inner least recovery (postfixForms config inner (r s)) :=
    .comp operators (.comp (settles_postfixForms demands config) enters)
  have none : Demands (signedExpr config inner least recovery none) := .absent "expression" recovery
  have signed (power? : Option Nat) : Enters (signedExpr config inner least recovery power?) := by
    cases power? with
    | none => exact none.toEnters
    | some power =>
      have operand := Enters.comp (demands (.expr power recovery)).settles .bump
      have whole := Enters.comp operators (.node .prefixExpr operand)
      exact whole
  have last := Enters.byTest (tested_symbolText config.operators.unaryPower? Option.none) signed
  rw [exprBody_eq]
  refine .ite (tested_isAtAny literalKinds) (fun _ => isAtAny_of_atEnd rfl)
    (forms (.node .literal .bump)) ?_
  refine .ifAt (by decide) (forms (.node .nameRef .bump)) ?_
  refine .ifAt (by decide) (forms (enters_parenthesized demands)) ?_
  refine .ifAt (by decide) (forms (enters_exprList demands config (by decide) _))
    ⟨last, fun {s} proper ended => ?_⟩
  rw [isAt_of_atEnd (by decide) (proper.atEnd_iff.mpr ended), if_neg Bool.false_ne_true]
  exact none.fails proper ended

end Constructs

/-- Expressions and types settle, however many levels may be entered. -/
theorem demands_construct (config : Config) (room : Nat) (kind : Construct) :
    Demands (construct config room kind) := by
  have atType {r : State → State} (enters : Enters r) (recovery : KindSet) :
      Demands fun s => if atTypeStart s then r s else State.absent "type" recovery s :=
    .ite tested_atTypeStart (fun _ => isAtAny_of_atEnd rfl) enters (.absent "type" recovery)
  induction room generalizing kind with
  | zero =>
    have tooDeep := Demands.recoverTooDeep config.maxDepth
    cases kind with
    | expr least recovery => exact tooDeep
    | type recovery => exact atType tooDeep.toEnters recovery
  | succ room ih =>
    cases kind with
    | expr least recovery =>
      exact .nested (.during .expression (demands_exprBody ih config least recovery))
    | type recovery =>
      exact atType (.nested (.during .expression (enters_typeBody ih recovery))) recovery

end LosslessSyntax.Grammar
