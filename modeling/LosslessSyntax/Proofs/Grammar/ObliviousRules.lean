import LosslessSyntax.Proofs.Grammar.Items
import LosslessSyntax.Proofs.Grammar.Oblivious

/-! # The grammar is oblivious of line breaks between brackets

One lemma for each rule of the grammar, by its composition. Rules for expressions and types are
oblivious whether or not line breaks matter where they are used, since they are used between
brackets and outside of them. Statements are never between brackets.
-/

namespace LosslessSyntax.Grammar

open State Coupling

namespace State

variable (s : State)

theorem bump_pushBreaks (matter : Bool) :
    (s.pushBreaks matter).bump = s.bump.pushBreaks matter := by
  obtain ⟨ahead⟩ := s
  cases ahead <;> rfl

theorem bump_popBreaks : s.popBreaks.bump = s.bump.popBreaks := by
  obtain ⟨ahead⟩ := s
  cases ahead <;> rfl

theorem report_popBreaks (code : DiagnosticCode) (message : String) (span : Span) :
    s.popBreaks.report code message span = (s.report code message span).popBreaks := by
  change (if (s.atEnd && s.endReported) = true then _ else _) =
    popBreaks (if (s.atEnd && s.endReported) = true then _ else _)
  split <;> rfl

theorem unexpected_popBreaks (expected : String) :
    s.popBreaks.unexpected expected = (s.unexpected expected).popBreaks := s.report_popBreaks ..

theorem missing_popBreaks (expected : String) :
    s.popBreaks.missing expected = (s.missing expected).popBreaks := by
  change (if s.atEnd then _ else _) = popBreaks (if s.atEnd then _ else _)
  split
  · exact s.unexpected_popBreaks expected
  · exact s.report_popBreaks ..

theorem expect_popBreaks (kind : TokenKind) :
    s.popBreaks.expect kind = (s.expect kind).popBreaks := by
  change (if s.isAt kind then _ else _) = popBreaks (if s.isAt kind then _ else _)
  split
  · exact s.bump_popBreaks
  · exact s.missing_popBreaks _

/-- Whether line breaks matter at the brackets themselves makes no difference. -/
theorem enclosed_eq {close : State → State} (passes : ∀ s, close s.popBreaks = (close s).popBreaks)
    (body : State → State) :
    close (s.bump.withBreaks false body) = s.withBreaks false fun s => close (body s.bump) := by
  rw [withBreaks, withBreaks, passes, bump_pushBreaks]

end State

namespace Oblivious

variable {α : Type} {matter : Bool} {inner : ConstructRule}

/-- A node between brackets. -/
theorem enclosed {body : State → State} (kind : NodeKind) (close : TokenKind)
    (oblivious : Oblivious false body) :
    Oblivious matter (State.node kind fun s => (s.bump.withBreaks false body).expect close) :=
  .node_enclosed kind (fun s => s.enclosed_eq (fun s => s.expect_popBreaks close) body)
    ((expect close).comp (oblivious.comp bump))

/-- Brackets after what has been read. -/
theorem suffix {body : State → State} (kind : NodeKind) (after : kind ∈ Outline.suffixKinds)
    (close : TokenKind) (oblivious : Oblivious false body) :
    Oblivious matter (State.wrap kind fun s => (s.bump.withBreaks false body).expect close) :=
  .wrap_enclosed kind after (fun s => s.enclosed_eq (fun s => s.expect_popBreaks close) body)
    ((expect close).comp (oblivious.comp bump))

theorem separator (close : TokenKind) (recovery : KindSet) :
    Oblivious matter (Grammar.separator close recovery) :=
  ite (tested_isAt .comma) bump
    (ite ((tested_isAt close).or (tested_atSync recovery)) id (missing _))

theorem listStep (close : TokenKind) (what : String) {starts : State → Bool}
    {element : KindSet → State → State} (tested : Tested starts)
    (oblivious : ∀ recovery, Oblivious matter (element recovery)) :
    ObliviousWith matter (Grammar.listStep close what starts element) := by
  have next {rule : State → State} (rule' : Oblivious matter rule) :
      ObliviousWith matter fun s =>
        (true, Grammar.separator close (.ofList [close, .comma]) (rule s)) :=
    ((separator close _).comp rule').always true
  exact .ite ((tested_isAt close).or tested_atEnd) (.pure false) <|
    .ite tested (next (oblivious _)) <|
    .ite (tested_isAt .comma) (next (unexpected what)) <|
    .ite (tested_atSync _) (.pure false) (next (recover what _))

theorem delimited (kind : NodeKind) (close : TokenKind) (what : String) {starts : State → Bool}
    {element : KindSet → State → State} (tested : Tested starts)
    (oblivious : ∀ recovery, Oblivious false (element recovery)) :
    Oblivious matter (Grammar.delimited kind close what starts element) :=
  enclosed kind close (.repeatStep (listStep close what tested oblivious))

section Types

variable (oblivious : ∀ matter kind, Oblivious matter (inner kind))
include oblivious

theorem typeList : Oblivious matter (Grammar.typeList inner) :=
  delimited .typeList .rightParen "type" tested_atTypeStart fun _ => oblivious _ _

theorem argumentStep : ObliviousWith matter (Grammar.argumentStep inner) := by
  have next {rule : State → State} (rule' : Oblivious matter rule) :
      ObliviousWith matter fun s => nextArgument (rule s) :=
    rule'.andThen (.ite (tested_isAt .comma) (bump.always true) (.pure false))
  exact .ite ((tested_isAtSymbol ">").or tested_atEnd) (.pure false) <|
    .ite tested_atTypeStart (next (oblivious _ _)) <|
    .ite ((tested_atSync (.ofList [.comma, .symbol])).and (tested_isAt .comma).not) (.pure false)
      (next (recover "type" _))

theorem typeArguments : Oblivious matter (Grammar.typeArguments inner) := by
  let close (s : State) : State := if s.isAtSymbol ">" then s.bump else s.missing "`>`"
  have passes (s : State) : close s.popBreaks = (close s).popBreaks := by
    change (if s.isAtSymbol ">" then _ else _) = popBreaks (if s.isAtSymbol ">" then _ else _)
    split
    · exact s.bump_popBreaks
    · exact s.missing_popBreaks _
  have closes : Oblivious false close := ite (tested_isAtSymbol ">") bump (missing _)
  have whole : Oblivious matter (State.node .typeList fun s =>
      close (s.bump.withBreaks false (repeatStep (Grammar.argumentStep inner)))) :=
    .node_enclosed .typeList (fun s => s.enclosed_eq passes _)
      (closes.comp ((ObliviousWith.repeatStep (argumentStep oblivious)).comp bump))
  exact whole

theorem namedType : Oblivious matter (Grammar.namedType inner) := by
  have arguments (generic : Bool) :
      Oblivious matter fun s =>
        if generic && s.isAtSymbol "<" then Grammar.typeArguments inner s else s :=
    ite (.and (fun _ _ _ => rfl) (tested_isAtSymbol "<")) (typeArguments oblivious) id
  exact .byTest (tested_isAt .ident) fun generic =>
    .node .namedType (by decide) ((arguments generic).comp bump)

theorem funcType : Oblivious matter (Grammar.funcType inner) := by
  have params : Oblivious matter fun s =>
      if s.isAt .leftParen then Grammar.typeList inner s else s.missing "`(`" :=
    ite (tested_isAt .leftParen) (typeList oblivious) (missing _)
  have result : Oblivious matter fun s =>
      if s.isAt .leftParen then Grammar.typeList inner s else inner (.type .empty) s :=
    ite (tested_isAt .leftParen) (typeList oblivious) (oblivious _ _)
  exact .node .funcType (by decide) <|
    (ite ((tested_isAt .arrow).and tested_atBreak.not) (result.comp bump) id).comp (params.comp bump)

theorem suffixStep : ObliviousWith matter (Grammar.suffixStep inner) := by
  have size : Oblivious false fun s =>
      if s.isAt .rightBracket then s else inner (.expr 0 (.ofList [.rightBracket])) s :=
    ite (tested_isAt .rightBracket) id (oblivious _ _)
  exact .ite ((tested_isAt .leftBracket).and tested_atBreak.not)
    ((suffix .arrayType (by decide) .rightBracket size).always true) (.pure false)

theorem arraySuffixes : Oblivious matter (Grammar.arraySuffixes inner) :=
  .repeatStep (suffixStep oblivious)

theorem typeBody (recovery : KindSet) : Oblivious matter (Grammar.typeBody inner recovery) :=
  ite (tested_isAtAny modifierKinds)
      (.node .modifiedType (by decide) ((oblivious _ (.type recovery)).comp bump)) <|
    ite (tested_isAt .funcWord) ((arraySuffixes oblivious).comp (funcType oblivious))
      ((arraySuffixes oblivious).comp (namedType oblivious))

end Types

section Expressions

variable (oblivious : ∀ matter kind, Oblivious matter (inner kind))
include oblivious

theorem insideParens : ObliviousWith matter (Coupling.insideParens inner) := by
  have element := oblivious matter (.expr 0 (.ofList [.rightParen, .comma]))
  have more : Oblivious matter (repeatStep (elementStep inner)) :=
    .repeatStep <| .ite (tested_isAt .comma)
      (bump.andThen (.ite (tested_isAt .rightParen) (.pure false) (element.always true)))
      (.pure false)
  have kind : Tested fun s : State =>
      if s.isAt .comma then NodeKind.tupleExpr else NodeKind.parenExpr := fun s t agree => by
    simp only [tested_isAt .comma agree]
  exact .ite (tested_isAt .rightParen) (.pure NodeKind.tupleExpr)
    (element.andThen (.answering kind more))

theorem parenthesized : Oblivious matter (Grammar.parenthesized inner) := by
  have body : ObliviousWith false fun s =>
      ((Coupling.insideParens inner s.bump).1,
        (Coupling.insideParens inner s.bump).2.expect .rightParen) :=
    (bump.andThen (insideParens oblivious)).bind fun kind => (expect .rightParen).always kind
  have whole : Oblivious matter (nodeOf fun s =>
      let inside := Coupling.insideParens inner (s.bump.pushBreaks false)
      (inside.1, inside.2.popBreaks.expect .rightParen)) :=
    .nodeOf_enclosed (fun s => by dsimp only; rw [expect_popBreaks, bump_pushBreaks]) body
  have same : Grammar.parenthesized inner = _ := funext parenthesized_eq
  rw [same]
  exact whole

theorem postfixForm (config : Config) (kind : TokenKind) :
    ObliviousWith matter (Coupling.postfixForm config inner kind) := by
  unfold Coupling.postfixForm
  split
  · refine always true (.wrap .callExpr (by decide) ?_)
    exact delimited .argList .rightParen "argument" (tested_atExprStart config)
      fun _ => oblivious _ _
  · exact always true (suffix .indexExpr (by decide) .rightBracket (oblivious _ _))
  · exact always true (.wrap .memberExpr (by decide) ((expect .ident).comp bump))
  · exact always true (.wrap .castExpr (by decide) ((oblivious _ (.type .empty)).comp bump))
  · exact .pure false

theorem postfixForms (config : Config) : Oblivious matter (Grammar.postfixForms config inner) :=
  .repeatStep <| .ite tested_atBreak (.pure false) <|
    .byTest tested_kind (postfixForm oblivious config)

theorem prefixed (recovery : KindSet) (power? : Option Nat) :
    ObliviousWith matter (Coupling.prefixed inner recovery power?) := by
  cases power? with
  | none => exact (absent "expression" recovery).always false
  | some power =>
    exact always true <|
      .node .prefixExpr (by decide) ((oblivious _ (.expr power recovery)).comp bump)

theorem operand (config : Config) (recovery : KindSet) :
    ObliviousWith matter (Grammar.operand config inner recovery) := by
  have forms : Oblivious matter (Grammar.postfixForms config inner) := postfixForms oblivious config
  have list : Oblivious matter (Grammar.delimited .arrayExpr .rightBracket "expression"
      (atExprStart config) fun recovery => inner (.expr 0 recovery)) :=
    delimited .arrayExpr .rightBracket "expression" (tested_atExprStart config)
      fun _ => oblivious _ _
  exact .ite (tested_isAtAny literalKinds)
      ((forms.comp (.node .literal (by decide) bump)).always true) <|
    .ite (tested_isAt .ident) ((forms.comp (.node .nameRef (by decide) bump)).always true) <|
    .ite (tested_isAt .leftParen) ((forms.comp (parenthesized oblivious)).always true) <|
    .ite (tested_isAt .leftBracket) ((forms.comp list).always true) <|
    .byTest (tested_symbolText config.operators.unaryPower? none) (prefixed oblivious recovery)

theorem binaryStep (config : Config) (least : Nat) (recovery : KindSet) :
    ObliviousWith matter (Grammar.binaryStep config inner least recovery) := by
  refine .of_agree fun s => ?_
  have here (t : State) (agree : Agree s t) :
      (s.isAt .symbol && !s.atBreak) = (t.isAt .symbol && !t.atBreak) :=
    ((tested_isAt .symbol).and tested_atBreak.not) agree
  by_cases atOperator : (s.isAt .symbol && !s.atBreak) = true
  · have text (t : State) (agree : Agree s t) : s.text = t.text :=
      agree.text (beq_iff_eq.mp (Bool.and_eq_true_iff.mp atOperator).1)
    cases power? : config.operators.binaryPower? s.text with
    | none =>
      refine ⟨_, .pure false, fun t agree _ => ?_⟩
      rw [Grammar.binaryStep, ← here t agree, if_pos atOperator, ← text t agree, power?]
    | some power =>
      by_cases weaker : power.left < least
      · refine ⟨_, .pure false, fun t agree _ => ?_⟩
        rw [Grammar.binaryStep, ← here t agree, if_pos atOperator, ← text t agree, power?]
        exact if_pos weaker
      · refine ⟨_, always true (.wrap .binaryExpr (by decide)
          ((oblivious _ (.expr power.right recovery)).comp bump)), fun t agree _ => ?_⟩
        rw [Grammar.binaryStep, ← here t agree, if_pos atOperator, ← text t agree, power?]
        exact if_neg weaker
  · refine ⟨_, .pure false, fun t agree _ => ?_⟩
    rw [Grammar.binaryStep, ← here t agree, if_neg atOperator]

theorem exprBody (config : Config) (least : Nat) (recovery : KindSet) :
    Oblivious matter (Grammar.exprBody config inner least recovery) := by
  have operators (found : Bool) : Oblivious matter fun s =>
      if found then Grammar.binaryOperators config inner least recovery s else s := by
    cases found with
    | false => exact id
    | true => exact .repeatStep (binaryStep oblivious config least recovery)
  exact (operand oblivious config recovery).bind operators

omit oblivious in
/-- Expressions and types are oblivious, however many levels may be entered. -/
theorem construct (config : Config) (room : Nat) (matter : Bool) (kind : Construct) :
    Oblivious matter (Grammar.construct config room kind) := by
  induction room generalizing matter kind with
  | zero =>
    cases kind with
    | expr least recovery => exact recoverTooDeep _
    | type recovery => exact ite tested_atTypeStart (recoverTooDeep _) (absent "type" recovery)
  | succ room ih =>
    cases kind with
    | expr least recovery => exact .nested (.during .expression (exprBody ih config least recovery))
    | type recovery =>
      exact ite tested_atTypeStart (.nested (.during .expression (typeBody ih recovery)))
        (absent "type" recovery)

end Expressions

theorem skipping {advance : α → State → Option α} (tested : ∀ memory, Tested (advance memory))
    (memory : α) : ObliviousWith matter (State.skipping advance memory) where
  runs s := (coupled_skipping (C := Runs.coupling) tested memory s s).1
  same s := by
    induction size : s.ahead.length using Nat.strongRecOn generalizing s memory with
    | _ n ih =>
    by_cases none : s.ahead = []
    · refine .of_agree (.pure memory) fun t agree _ => ?_
      rw [State.skipping, dif_pos (agree.empty.mp none)]
    cases next : advance memory s with
    | none =>
      refine .of_agree (.pure memory) fun t agree _ => ?_
      rw [skipping_cons _ _ (mt agree.empty.mpr none), ← tested memory agree, next]
    | some memory' =>
      have shorter : s.bump.ahead.length < n := by
        have := List.length_pos_iff.mpr none
        rw [ahead_bump, List.length_tail]
        omega
      have rest := @ObliviousAt.bind _ _ _ _ _ (fun _ => State.skipping advance memory')
        (bump.same s) (Runs.bump s) (ih _ shorter memory' s.bump rfl)
        (coupled_skipping (C := Runs.coupling) tested memory' s.bump s.bump).1
      refine rest.of_agree fun t agree _ => ?_
      rw [skipping_cons _ _ (mt agree.empty.mpr none), ← tested memory agree, next]

theorem bumpMany_pushBreaks (count : Nat) (s : State) :
    (s.pushBreaks matter).bumpMany count = (s.bumpMany count).pushBreaks matter := by
  induction count generalizing s with
  | zero => rfl
  | succ count ih => rw [bumpMany, bumpMany, bump_pushBreaks, ih]

theorem annotationArgs : Oblivious matter Grammar.annotationArgs := by
  have close (level : Nat) : Oblivious false fun s =>
      if level == 0 then s else s.unexpected "`)`" := by
    cases level with
    | zero => exact id
    | succ level => exact unexpected _
  refine .node_enclosed .annotationArgs (fun s => ?_)
    ((bump.andThen (skipping tested_parenAdvance 1)).bind close)
  have passed := bumpMany_parenLength 1 (s.pushBreaks false).bump
  rw [withBreaks, ← passed.1, ← passed.2, bump_pushBreaks, bumpMany_pushBreaks]
  change (if (parenLength 1 s.bump.ahead).2 then _ else _) =
    popBreaks (if (parenLength 1 s.bump.ahead).2 then _ else _)
  split
  · rfl
  · exact unexpected_popBreaks ((s.bump.bumpMany _).pushBreaks false) _

theorem annotationUse : Oblivious matter Grammar.annotationUse :=
  .node .annotationUse (by decide) <|
    (ite ((tested_isAt .leftParen).and tested_atBreak.not) annotationArgs id).comp bump

theorem annotations : Oblivious matter Grammar.annotations :=
  .repeatStep <| .ite (tested_isAt .annotationMark) (annotationUse.always true) (.pure false)

section Declarations

variable (oblivious : ∀ matter kind, Oblivious matter (inner kind))
include oblivious

theorem binding : Oblivious matter (Grammar.binding inner) :=
  .node .binding (by decide) <|
    (ite ((tested_isAt .colon).and tested_atBreak.not) ((oblivious _ (.type .empty)).comp bump)
      id).comp <|
    ite (tested_isAt .ident) bump <|
    ite (tested_atSync bindingRecovery) (missing _) (recover _ _)

theorem param : Oblivious matter (Grammar.param inner) :=
  .node .param (by decide) <|
    (ite (tested_isAt .colon) ((oblivious _ (.type .empty)).comp bump) id).comp bump

theorem paramList : Oblivious matter (Grammar.paramList inner) :=
  ite (tested_isAt .leftParen)
    (delimited .paramList .rightParen "parameter" (tested_isAt .ident) fun _ => param oblivious)
    (missing _)

theorem packMember : Oblivious matter (Grammar.packMember inner) := by
  have type := oblivious matter (.type .empty)
  exact .node .packMember (by decide) <|
    (ite (tested_isAt .colon) (type.comp bump) <|
      (ite (tested_atTypeStart.and tested_atBreak.not) type id).comp (missing _)).comp bump

theorem unionMember : Oblivious matter (Grammar.unionMember inner) :=
  .node .unionMember (by decide) <|
    (ite ((tested_isAt .leftParen).and tested_atBreak.not) (typeList oblivious) id).comp bump

omit oblivious in
theorem memberStep (what : String) {member : State → State} (members : Oblivious matter member) :
    ObliviousWith matter (Grammar.memberStep what member) := by
  have after : ObliviousWith matter fun s =>
      if s.isAt .comma then (true, s.bump)
      else if s.isAt .rightBrace || s.atBreak then (true, s)
      else (true, (s.recover "`,` or line break" memberRecovery).eat .comma) :=
    .ite (tested_isAt .comma) (bump.always true) <|
    .ite ((tested_isAt .rightBrace).or tested_atBreak) (.pure true) <|
    ((eat .comma).comp (recover _ _)).always true
  exact .ite ((tested_isAt .rightBrace).or tested_atEnd) (.pure false) <|
    .ite (tested_isAt .ident).not (((eat .comma).comp (recover what _)).always true) <|
    members.andThen after

omit oblivious in
/-- Between braces line breaks matter. -/
theorem memberBody (kind : NodeKind)
    (plain : kind ∉ Outline.suffixKinds ∧ kind ∉ Outline.bracketKinds) (what : String)
    {member : State → State} (members : Oblivious true member) :
    Oblivious true (Grammar.memberBody kind what member) :=
  ite (tested_isAt .leftBrace)
    (.node kind plain <| (expect .rightBrace).comp <|
      (ObliviousWith.withBreaks (.repeatStep (memberStep what members))).comp bump)
    (missing _)

omit oblivious in
theorem usingPath : Oblivious matter Grammar.usingPath := by
  have more : Oblivious matter (repeatStep pathStep) :=
    .repeatStep <| .ite ((tested_isAt .dot).and tested_atBreak.not)
      (bump.andThen (.answering (tested_isAt .ident) (expect .ident))) (.pure false)
  exact .node .usingPath (by decide) (ite (tested_isAt .ident) (more.comp bump) (expect .ident))

theorem letRest (config : Config) : Oblivious matter (Grammar.letRest config inner) := by
  have value := oblivious matter (.expr 0 .empty)
  exact (ite (tested_isAtSymbol "=") (value.comp bump) <|
    (ite ((tested_atExprStart config).and tested_atBreak.not) value id).comp (missing _)).comp
      (binding oblivious)

end Declarations

section Statements

variable {block : State → State} (oblivious : ∀ matter kind, Oblivious matter (inner kind))
  (blocks : Oblivious true block)
include oblivious blocks

theorem ifChain : Oblivious true (Grammar.ifChain inner block) := by
  have first := blocks.comp ((oblivious true (.expr 0 conditionRecovery)).comp bump)
  -- As far as a number of tokens, a chain is put together from rules in finitely many ways.
  have within (count : Nat) : ∃ rule, Oblivious true rule ∧
      ∀ s : State, s.ahead.length < count → Grammar.ifChain inner block s = rule s := by
    induction count with
    | zero => exact ⟨_, id, fun s none => absurd none (Nat.not_lt_zero _)⟩
    | succ count ih =>
      obtain ⟨rule, more, same⟩ := ih
      have last : Oblivious true fun s => if s.isAt .ifWord then s.node .ifStmt rule else block s :=
        ite (tested_isAt .ifWord) (.node .ifStmt (by decide) more) blocks
      have rest : Oblivious true fun s => if s.isAt .elseWord then s.node .elseBranch
          (fun s => if s.bump.isAt .ifWord then s.bump.node .ifStmt rule else block s.bump) else s :=
        ite (tested_isAt .elseWord) (.node .elseBranch (by decide) (last.comp bump)) id
      refine ⟨_, rest.comp first, fun s shorter => ?_⟩
      have shrinks := (first.runs s).shrinks
      dsimp only at shrinks ⊢
      rw [ifChain_eq s shrinks, elseBranch]
      generalize block (inner (.expr 0 conditionRecovery) s.bump) = u at shrinks ⊢
      refine ite_congr rfl (fun here => ?_) fun _ => rfl
      refine congrArg (closeNode u .elseBranch) (ite_congr rfl (fun next => ?_) fun _ => rfl)
      refine congrArg (closeNode _ .ifStmt) (same _ ?_)
      have some := List.length_pos_iff.mpr (occupied_of_else_if here next)
      change u.openNode.bump.ahead.length < count
      rw [ahead_bump, List.length_tail]
      change u.ahead.length - 1 < count
      omega
  refine .of_agree fun s => ?_
  obtain ⟨rule, oblivious, same⟩ := within (s.ahead.length + 1)
  refine ⟨_, oblivious, fun t _ lengths => ?_⟩
  rw [same t (lengths ▸ Nat.lt_succ_self _)]

theorem forRest : Oblivious true (Grammar.forRest inner block) :=
  blocks.comp <| (oblivious _ (.expr 0 conditionRecovery)).comp <|
    (expect .inWord).comp (binding oblivious)

theorem functionRest : Oblivious true (Grammar.functionRest inner block) := by
  have params : Oblivious true (Grammar.paramList inner) := paramList oblivious
  have returns : Oblivious true fun s =>
      if s.isAt .arrow then s.node .returnList fun s => Grammar.paramList inner s.bump else s :=
    ite (tested_isAt .arrow) (.node .returnList (by decide) (params.comp bump)) id
  exact blocks.comp (returns.comp (params.comp (expect .ident)))

omit oblivious blocks in
theorem statementEnd : Oblivious matter Grammar.statementEnd :=
  ite tested_atStatementEnd id <| ite (tested_isAtAny statementKinds) (unexpected _) (recover _ _)

/-- A statement without its annotations, by the kind of its first token. -/
theorem statementBody (config : Config) :
    ObliviousWith true (Grammar.statementBody config inner block) := by
  have condition := (oblivious true (.expr 0 conditionRecovery)).comp bump
  have name : Oblivious true fun s => s.bump.expect .ident := (expect .ident).comp bump
  have other : ObliviousWith true fun s =>
      if atExprStart config s then (NodeKind.exprStmt, inner (.expr 0 .empty) s)
      else if s.atSync .empty then (.error, s.unexpected "statement")
      else (.error, s.recover "statement" .empty) :=
    .ite (tested_atExprStart config) ((oblivious _ (.expr 0 .empty)).always NodeKind.exprStmt) <|
    .ite (tested_atSync .empty) ((unexpected _).always NodeKind.error)
      ((recover _ _).always NodeKind.error)
  refine .of_agree fun s => ?_
  suffices ∃ rule, ObliviousWith true rule ∧
      ∀ t : State, s.kind = t.kind → Grammar.statementBody config inner block t = rule t by
    obtain ⟨rule, rest, same⟩ := this
    exact ⟨rule, rest, fun t agree _ => same t agree.kind⟩
  have rule {rule : State → NodeKind × State} (here : ObliviousWith true rule)
      (same : ∀ t : State, s.kind = t.kind → Grammar.statementBody config inner block t = rule t) :
      ∃ rule, ObliviousWith true rule ∧
        ∀ t : State, s.kind = t.kind → Grammar.statementBody config inner block t = rule t :=
    ⟨rule, here, same⟩
  generalize s.kind = kind at *
  cases kind with
  | usingWord =>
    refine rule ((usingPath.comp bump).always .usingStmt) fun t here => ?_
    simp only [Grammar.statementBody, ← here]
  | letWord =>
    refine rule (((letRest oblivious config).comp bump).always .letStmt) fun t here => ?_
    simp only [Grammar.statementBody, ← here]
  | ifWord =>
    refine rule ((ifChain oblivious blocks).always .ifStmt) fun t here => ?_
    simp only [Grammar.statementBody, ← here]
  | whileWord =>
    refine rule ((blocks.comp condition).always .whileStmt) fun t here => ?_
    simp only [Grammar.statementBody, ← here]
  | loopWord =>
    refine rule ((blocks.comp bump).always .loopStmt) fun t here => ?_
    simp only [Grammar.statementBody, ← here]
  | forWord =>
    refine rule (((forRest oblivious blocks).comp bump).always .forStmt) fun t here => ?_
    simp only [Grammar.statementBody, ← here]
  | breakWord =>
    refine rule (bump.always .breakStmt) fun t here => ?_
    simp only [Grammar.statementBody, ← here]
  | continueWord =>
    refine rule (bump.always .continueStmt) fun t here => ?_
    simp only [Grammar.statementBody, ← here]
  | returnWord =>
    refine rule (bump.always .returnStmt) fun t here => ?_
    simp only [Grammar.statementBody, ← here]
  | functionWord =>
    refine rule (((functionRest oblivious blocks).comp bump).always .functionDecl) fun t here => ?_
    simp only [Grammar.statementBody, ← here]
  | packWord =>
    refine rule (((memberBody .packBody (by decide) "pack member" (packMember oblivious)).comp
      name).always .packDecl) fun t here => ?_
    simp only [Grammar.statementBody, ← here]
  | unionWord =>
    refine rule (((memberBody .unionBody (by decide) "union member" (unionMember oblivious)).comp
      name).always .unionDecl) fun t here => ?_
    simp only [Grammar.statementBody, ← here]
  | _ => exact rule other fun t here => by simp only [Grammar.statementBody, ← here]

omit oblivious blocks in
theorem statementBody_plain (config : Config) (s : State) :
    (Grammar.statementBody config inner block s).1 ∉ Outline.suffixKinds ∧
      (Grammar.statementBody config inner block s).1 ∉ Outline.bracketKinds := by
  simp only [Grammar.statementBody]
  repeat' split
  all_goals
    dsimp only
    decide

theorem statement (config : Config) : Oblivious true (Grammar.statement config inner block) := by
  have body := (annotations.andThen (statementBody oblivious blocks config)).bind fun kind =>
    statementEnd.always kind
  rw [statement_eq]
  exact .during .statement <| ite (tested_atStatementStart config)
    (.nodeOf (fun s => statementBody_plain config (Grammar.annotations s)) body) (recover _ _)

theorem statementItem (config : Config) :
    Oblivious true (Grammar.statementItem config inner block) :=
  ite (tested_isAt .semicolon) bump (statement oblivious blocks config)

end Statements

theorem items {config : Config} {room : Nat} {stop : State → Bool}
    (blocks : Oblivious true (Grammar.block config room)) (tested : Tested stop) :
    Oblivious true (Grammar.items config room stop) :=
  .repeatStep <| .ite tested (.pure false)
    ((statementItem (construct config room) blocks config).always true)

theorem block (config : Config) (room : Nat) : Oblivious true (Grammar.block config room) := by
  induction room with
  | zero => exact ite (tested_isAt .leftBrace) (recoverTooDeep _) (placeholder _)
  | succ room ih =>
    have inside := ObliviousWith.during .block <|
      .withBreaks (items ih ((tested_isAt .rightBrace).or tested_atEnd))
    exact ite (tested_isAt .leftBrace)
      (.nested (.node .block (by decide) ((expect .rightBrace).comp (inside.comp bump))))
      (placeholder _)

end Oblivious

end LosslessSyntax.Grammar
