import LosslessSyntax.Proofs.Grammar.ConstructRules

/-! # Statements keep to every coupling

The two runs may use different rules for the constructs and the blocks inside a statement, as long
as these are coupled. Blocks themselves keep to the couplings that are closed under block nodes
(`coupled_block`).
-/

namespace LosslessSyntax.Grammar

open State

/-- An annotation, if there is one. -/
def annotationStep (s : State) : Bool × State :=
  if s.isAt .annotationMark then (true, annotationUse s) else (false, s)

/-- A member of a declaration, with the comma after it. -/
def memberStep (what : String) (member : State → State) (s : State) : Bool × State :=
  if s.isAt .rightBrace || s.atEnd then (false, s)
  else if !s.isAt .ident then (true, (s.recover what memberRecovery).eat .comma)
  else
    let s := member s
    if s.isAt .comma then (true, s.bump)
    else if s.isAt .rightBrace || s.atBreak then (true, s)
    else (true, (s.recover "`,` or line break" memberRecovery).eat .comma)

/-- A dot and the name after it, and whether there is one. -/
def pathStep (s : State) : Bool × State :=
  if s.isAt .dot && !s.atBreak then (s.bump.isAt .ident, s.bump.expect .ident) else (false, s)

namespace Coupling

variable {C : Coupling} {inner inner' : ConstructRule} {block block' : State → State}

theorem annotationArgs_eq (s : State) :
    annotationArgs s = s.node .annotationArgs fun s =>
      let passed := skipping parenAdvance 1 s.bump
      if passed.1 == 0 then passed.2 else passed.2.unexpected "`)`" := by
  simp only [annotationArgs, bumpMany_parenLength]

theorem coupled_annotationArgs : C.Coupled annotationArgs annotationArgs := by
  have close (level : Nat) : C.Coupled
      (fun s => if level == 0 then s else s.unexpected "`)`")
      (fun t => if level == 0 then t else t.unexpected "`)`") := by
    split
    · exact .id
    · exact .unexpected _
  have body := ((coupled_skipping tested_parenAdvance 1).after (C := C) .bump).bind close
  intro s t
  rw [annotationArgs_eq, annotationArgs_eq]
  exact Coupled.node .annotationArgs nofun body s t

theorem coupled_annotationUse : C.Coupled annotationUse annotationUse :=
  .node .annotationUse nofun <|
    (Coupled.ite ((tested_isAt .leftParen).and tested_atBreak.not) coupled_annotationArgs .id).comp
      .bump

theorem coupled_annotationStep : C.CoupledWith annotationStep annotationStep :=
  .ite (tested_isAt .annotationMark) (.always true coupled_annotationUse) (.always false .id)

theorem coupled_annotations : C.Coupled annotations annotations := .repeatStep coupled_annotationStep

section Declarations

variable (coupled : ∀ construct, C.Coupled (inner construct) (inner' construct))
include coupled

theorem coupled_binding : C.Coupled (binding inner) (binding inner') :=
  .node .binding nofun <|
    (Coupled.ite ((tested_isAt .colon).and tested_atBreak.not)
      ((coupled (.type .empty)).comp .bump) .id).comp <|
    .ite (tested_isAt .ident) .bump <|
    .ite (tested_atSync bindingRecovery) (.missing _) (.recover _ _)

theorem coupled_param : C.Coupled (param inner) (param inner') :=
  .node .param nofun <|
    (Coupled.ite (tested_isAt .colon) ((coupled (.type .empty)).comp .bump) .id).comp .bump

theorem coupled_paramList : C.Coupled (paramList inner) (paramList inner') :=
  .ite (tested_isAt .leftParen)
    (coupled_delimited .paramList nofun .rightParen "parameter" (tested_isAt .ident)
      fun _ => coupled_param coupled)
    (.missing _)

theorem coupled_packMember : C.Coupled (packMember inner) (packMember inner') := by
  have type := coupled (.type .empty)
  exact .node .packMember nofun <|
    (Coupled.ite (tested_isAt .colon) (type.comp .bump) <|
      (Coupled.ite (tested_atTypeStart.and tested_atBreak.not) type .id).comp (.missing _)).comp
        .bump

theorem coupled_unionMember : C.Coupled (unionMember inner) (unionMember inner') :=
  .node .unionMember nofun <|
    (Coupled.ite ((tested_isAt .leftParen).and tested_atBreak.not) (coupled_typeList coupled)
      .id).comp .bump

omit coupled in
theorem coupled_memberStep (what : String) {member member' : State → State}
    (members : C.Coupled member member') :
    C.CoupledWith (memberStep what member) (memberStep what member') := by
  have after := CoupledWith.ite (C := C) (tested_isAt .comma) (.always true .bump) <|
    .ite ((tested_isAt .rightBrace).or tested_atBreak) (.always true .id) <|
    .always true ((Coupled.eat .comma).comp (.recover "`,` or line break" memberRecovery))
  exact .ite ((tested_isAt .rightBrace).or tested_atEnd) (.always false .id) <|
    .ite (tested_isAt .ident).not
      (.always true ((Coupled.eat .comma).comp (.recover what memberRecovery))) <|
    after.after members

omit coupled in
theorem coupled_memberBody (kind : NodeKind) (other : kind ≠ .block) (what : String)
    {member member' : State → State} (members : C.Coupled member member') :
    C.Coupled (memberBody kind what member) (memberBody kind what member') := by
  have list := Coupled.repeatStep (coupled_memberStep what members)
  exact .ite (tested_isAt .leftBrace)
    (.node kind other ((Coupled.expect .rightBrace).comp ((list.withBreaks true).comp .bump)))
    (.missing _)

omit coupled in
theorem coupled_pathStep : C.CoupledWith pathStep pathStep :=
  .ite ((tested_isAt .dot).and tested_atBreak.not)
    ((CoupledWith.answering (tested_isAt .ident) (.expect .ident)).after .bump) (.always false .id)

omit coupled in
theorem coupled_usingPath : C.Coupled usingPath usingPath := by
  have more := Coupled.repeatStep (coupled_pathStep (C := C))
  exact .node .usingPath nofun (.ite (tested_isAt .ident) (more.comp .bump) (.expect .ident))

theorem coupled_letRest (config : Config) :
    C.Coupled (letRest config inner) (letRest config inner') := by
  have value := coupled (.expr 0 .empty)
  exact (Coupled.ite (tested_isAtSymbol "=") (value.comp .bump) <|
    (Coupled.ite ((tested_atExprStart config).and tested_atBreak.not) value .id).comp
      (.missing _)).comp (coupled_binding coupled)

end Declarations

/-- What follows `else`. -/
def elseBody (inner : ConstructRule) (block : State → State) (s : State) : State :=
  if s.isAt .ifWord then closeNode s .ifStmt (ifChain inner block s.openNode) else block s

/-- What follows the first block of a chain of conditions. -/
def elseBranch (inner : ConstructRule) (block : State → State) (s : State) : State :=
  if s.isAt .elseWord then closeNode s .elseBranch (elseBody inner block s.openNode.bump) else s

theorem occupied_of_else_if {s : State} (here : s.isAt .elseWord = true)
    (next : s.openNode.bump.isAt .ifWord = true) : s.ahead ≠ [] := by
  intro none
  have stays : s.openNode.bump = s.openNode := by simp only [bump, openNode, none]
  rw [stays] at next
  simp only [isAt, beq_iff_eq] at here next
  exact absurd (here.symm.trans next) (by decide)

/-- The nodes that are open before a chain are completed behind it. -/
theorem ifBranches_eq (opened : List (State × NodeKind)) (s : State) :
    ifBranches inner block opened s = closeNodes opened (ifChain inner block s) := by
  induction size : s.ahead.length using Nat.strongRecOn generalizing opened s with
  | _ n ih =>
  rw [ifChain, ifBranches, ifBranches]
  dsimp only
  split
  case isFalse => rfl
  case isTrue =>
    split
    case isFalse => rfl
    case isTrue =>
      split
      case isFalse => rfl
      case isTrue shorter =>
        rw [ih _ (size ▸ shorter) _ _ rfl, ih _ (size ▸ shorter) _ _ rfl]
        rfl

/-- A chain is a condition, its block and, as a node, the rest of the chain. -/
theorem ifChain_unfold (s : State) :
    ifChain inner block s =
      let first := block (inner (.expr 0 conditionRecovery) s.bump)
      if first.isAt .elseWord then
        let next := first.openNode.bump
        if next.isAt .ifWord then
          if next.ahead.length < s.ahead.length then
            closeNode first .elseBranch (closeNode next .ifStmt (ifChain inner block next.openNode))
          else first
        else closeNode first .elseBranch (block next)
      else first := by
  rw [ifChain, ifBranches]
  simp only [ifBranches_eq, closeNodes_nil, closeNodes_cons]

theorem ifChain_eq (s : State) :
    let first := block (inner (.expr 0 conditionRecovery) s.bump)
    first.ahead.length ≤ s.ahead.length →
      ifChain inner block s = elseBranch inner block first := by
  intro first shrinks
  rw [ifChain_unfold]
  change (if first.isAt .elseWord then _ else first) = _
  simp only [elseBranch, elseBody]
  split
  case isFalse => rfl
  case isTrue here =>
    split
    case isFalse => rfl
    case isTrue next =>
      have shorter : first.openNode.bump.ahead.length < s.ahead.length := by
        rw [ahead_bump, List.length_tail]
        have := List.length_pos_iff.mpr (occupied_of_else_if here next)
        simp only [openNode]
        omega
      exact if_pos shorter

variable (coupled : ∀ construct, C.Coupled (inner construct) (inner' construct))
  (blocks : C.Coupled block block')
include coupled blocks

theorem coupled_ifChain : C.Coupled (ifChain inner block) (ifChain inner' block') := by
  intro s
  induction size : s.ahead.length using Nat.strongRecOn generalizing s with
  | _ n ih =>
  intro t
  have first : C.Step s t (block (inner (.expr 0 conditionRecovery) s.bump))
      (block' (inner' (.expr 0 conditionRecovery) t.bump)) :=
    (blocks.comp ((coupled (.expr 0 conditionRecovery)).comp .bump)) s t
  have shrinks := C.shrinks first
  have progress := C.progress_step first
  rw [ifChain_eq s shrinks]
  generalize block (inner (.expr 0 conditionRecovery) s.bump) = s₁ at *
  have rest (u : State) :
      C.Step s₁ u (elseBranch inner block s₁) (elseBranch inner' block' u) := by
    refine step_at (fun u agree => ?_) u
    simp only [elseBranch, ← tested_isAt .elseWord agree]
    split
    case isFalse => exact C.refl s₁ u
    case isTrue here =>
    refine C.node_step nofun (C.trans (C.bump_step _ _) ?_) (.inl rfl)
    refine step_at (q := elseBody inner' block') (fun v agree => ?_) _
    simp only [elseBody, ← tested_isAt .ifWord agree]
    split
    case isFalse => exact blocks _ _
    case isTrue next =>
      refine C.node_step nofun (ih _ ?_ _ rfl _) (.inl rfl)
      have := List.length_pos_iff.mpr (occupied_of_else_if here next)
      simp only [openNode, ahead_bump, List.length_tail]
      omega
  obtain ⟨shrinks', -⟩ | free := progress
  · rw [ifChain_eq t shrinks']
    exact C.trans first (rest _)
  · exact free_then free rest _

theorem coupled_forRest : C.Coupled (forRest inner block) (forRest inner' block') :=
  blocks.comp <| (coupled (.expr 0 conditionRecovery)).comp <|
    (Coupled.expect .inWord).comp (coupled_binding coupled)

theorem coupled_functionRest : C.Coupled (functionRest inner block) (functionRest inner' block') := by
  have params := coupled_paramList coupled
  have returns := Coupled.ite (C := C) (tested_isAt .arrow)
    (.node .returnList nofun (params.comp .bump)) .id
  exact blocks.comp (returns.comp (params.comp (.expect .ident)))

omit coupled blocks in
theorem coupled_statementEnd : C.Coupled statementEnd statementEnd :=
  .ite tested_atStatementEnd .id <|
    .ite (tested_isAtAny statementKinds) (.unexpected _) (.recover _ _)

theorem coupled_statementBody (config : Config) :
    C.CoupledWith (statementBody config inner block) (statementBody config inner' block') := by
  have condition := (coupled (.expr 0 conditionRecovery)).comp .bump
  have name := (Coupled.expect (C := C) .ident).comp .bump
  refine .of_agree fun s t agree => ?_
  simp only [statementBody, ← agree.kind]
  split
  · exact ⟨coupled_usingPath.comp .bump s t, .inl rfl⟩
  · exact ⟨(coupled_letRest coupled config).comp .bump s t, .inl rfl⟩
  · exact ⟨coupled_ifChain coupled blocks s t, .inl rfl⟩
  · exact ⟨blocks.comp condition s t, .inl rfl⟩
  · exact ⟨blocks.comp .bump s t, .inl rfl⟩
  · exact ⟨(coupled_forRest coupled blocks).comp .bump s t, .inl rfl⟩
  · exact ⟨C.bump_step s t, .inl rfl⟩
  · exact ⟨C.bump_step s t, .inl rfl⟩
  · exact ⟨C.bump_step s t, .inl rfl⟩
  · exact ⟨(coupled_functionRest coupled blocks).comp .bump s t, .inl rfl⟩
  · exact ⟨(coupled_memberBody .packBody nofun _ (coupled_packMember coupled)).comp name s t,
      .inl rfl⟩
  · exact ⟨(coupled_memberBody .unionBody nofun _ (coupled_unionMember coupled)).comp name s t,
      .inl rfl⟩
  · have other := CoupledWith.ite (C := C) (tested_atExprStart config)
      (.always NodeKind.exprStmt (coupled (.expr 0 .empty))) <|
      .ite (tested_atSync .empty) (.always .error (.unexpected "statement"))
        (.always .error (.recover "statement" .empty))
    exact other s t

omit coupled blocks in
theorem statementBody_ne_block (config : Config) (s : State) :
    (statementBody config inner block s).1 ≠ .block := by
  simp only [statementBody]
  repeat' split
  all_goals exact nofun

theorem coupled_statement (config : Config) :
    C.Coupled (statement config inner block) (statement config inner' block') := by
  have body := ((coupled_statementBody coupled blocks config).after coupled_annotations).thenKeep
    coupled_statementEnd
  rw [statement_eq, statement_eq]
  exact .during .statement <| .ite (tested_atStatementStart config)
    (CoupledWith.nodeOf (fun _ => statementBody_ne_block config _) body) (.recover _ _)

/-- Statements keep to every coupling that the blocks inside them keep to. -/
theorem coupled_statementItem (config : Config) :
    C.Coupled (statementItem config inner block) (statementItem config inner' block') :=
  .ite (tested_isAt .semicolon) .bump (coupled_statement coupled blocks config)

omit coupled blocks

/-- What a block consists of. -/
def blockBody (config : Config) (room : Nat) (s : State) : State :=
  (s.bump.during .block <| withBreaks true fun s => s.repeatStep fun s =>
    if s.isAt .rightBrace || s.atEnd then (false, s)
    else
      (true, statementItem config (construct config room) (Grammar.block config room) s)).expect
    .rightBrace

theorem coupled_blockBody [C.Nests] (config : Config) (room : Nat)
    (blocks : C.Coupled (Grammar.block config room) (Grammar.block config room)) :
    C.Coupled (blockBody config room) (blockBody config room) := by
  have items := Coupled.repeatStep (C := C) <|
    .ite ((tested_isAt .rightBrace).or tested_atEnd) (.always false .id) <|
    .always true (coupled_statementItem (coupled_construct config room) blocks config)
  exact (Coupled.expect .rightBrace).comp (((items.withBreaks true).during .block).comp .bump)

/-- A coupling that survives block nodes. -/
def BlockClosed (C : Coupling) : Prop :=
  ∀ {s t s' t' : State}, C.Step s.openNode t.openNode s' t' →
    C.Step s t (closeNode s .block s') (closeNode t .block t')

theorem coupled_block [C.Nests] (closed : BlockClosed C) (config : Config) (room : Nat) :
    C.Coupled (Grammar.block config room) (Grammar.block config room) := by
  induction room with
  | zero => exact .ite (tested_isAt .leftBrace) (.recoverTooDeep _) (.placeholder _)
  | succ room ih =>
    exact .ite (tested_isAt .leftBrace)
      (.nested fun s t => closed (coupled_blockBody config room ih s.openNode t.openNode))
      (.placeholder _)

end Coupling

end LosslessSyntax.Grammar
