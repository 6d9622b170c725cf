import LosslessSyntax.Proofs.Grammar.Runs

/-! # How statements begin

A statement consumes its first token before it asks whether a line break precedes it or where the
token before it ends. So the parse of a statement does not depend on what comes before
(`statementItem_opens`), and consumes at least one token (`item_consumes`). This is what
allows a parse to begin in the middle of a text.
-/

namespace LosslessSyntax.Grammar

open State

namespace State

/-- The state in which other things are said to come before the current token. -/
def reopen (broken : Bool) (last : Option Nat) (s : State) : State :=
  match s.ahead with
  | [] => s
  | next :: rest => { s with ahead := ⟨next.token, broken⟩ :: rest, lastStop := last }

variable (broken : Bool) (last : Option Nat) (s : State)

theorem reopen_nil {s : State} (none : s.ahead = []) : s.reopen broken last = s := by
  rw [reopen, none]

theorem reopen_cons {s : State} {next : Lookahead} {rest : List Lookahead}
    (ahead : s.ahead = next :: rest) :
    s.reopen broken last = { s with ahead := ⟨next.token, broken⟩ :: rest, lastStop := last } := by
  rw [reopen, ahead]

@[simp] theorem bump_reopen : (s.reopen broken last).bump = s.bump := by
  cases ahead : s.ahead with
  | nil => rw [reopen_nil broken last ahead]
  | cons next rest => simp [reopen, bump, ahead]

@[simp] theorem token_reopen : (s.reopen broken last).current.token = s.current.token := by
  cases ahead : s.ahead <;> simp [reopen, current, ahead]

@[simp] theorem kind_reopen : (s.reopen broken last).kind = s.kind :=
  congrArg Token.kind (token_reopen broken last s)

@[simp] theorem text_reopen : (s.reopen broken last).text = s.text :=
  congrArg Token.text (token_reopen broken last s)

@[simp] theorem isAt_reopen (kind : TokenKind) : (s.reopen broken last).isAt kind = s.isAt kind := by
  rw [isAt, isAt, kind_reopen]

@[simp] theorem isAtAny_reopen (kinds : KindSet) :
    (s.reopen broken last).isAtAny kinds = s.isAtAny kinds := by
  rw [isAtAny, isAtAny, kind_reopen]

@[simp] theorem atEnd_reopen : (s.reopen broken last).atEnd = s.atEnd :=
  isAt_reopen broken last s .eof

@[simp] theorem length_reopen : (s.reopen broken last).ahead.length = s.ahead.length := by
  cases ahead : s.ahead <;> simp [reopen, ahead]

@[simp] theorem pieces_reopen : (s.reopen broken last).pieces = s.pieces := by
  cases ahead : s.ahead <;> simp [reopen, ahead]

@[simp] theorem record_reopen : (s.reopen broken last).record = s.record := by
  cases ahead : s.ahead <;> simp [reopen, ahead]

@[simp] theorem breakModes_reopen : (s.reopen broken last).breakModes = s.breakModes := by
  cases ahead : s.ahead <;> simp [reopen, ahead]

@[simp] theorem openNode_reopen :
    (s.reopen broken last).openNode = s.openNode.reopen broken last := by
  cases ahead : s.ahead <;> simp [reopen, openNode, ahead]

@[simp] theorem closeNode_reopen (kind : NodeKind) (s' : State) :
    closeNode (s.reopen broken last) kind s' = closeNode s kind s' := by
  simp only [closeNode, record_reopen, pieces_reopen]

@[simp] theorem depth_reopen : (s.reopen broken last).depth = s.depth := by
  cases ahead : s.ahead <;> simp [reopen, ahead]

@[simp] theorem phases_reopen : (s.reopen broken last).phases = s.phases := by
  cases ahead : s.ahead <;> simp [reopen, ahead]

theorem reopen_with_depth (depth : Nat) :
    ({ s with depth := depth } : State).reopen broken last =
      { s.reopen broken last with depth := depth } := by
  cases ahead : s.ahead <;> simp [reopen, ahead]

theorem reopen_with_phases (phases : List Phase) :
    ({ s with phases := phases } : State).reopen broken last =
      { s.reopen broken last with phases := phases } := by
  cases ahead : s.ahead <;> simp [reopen, ahead]

theorem report_reopen (code : DiagnosticCode) (message : String) (span : Span) :
    (s.reopen broken last).report code message span =
      (s.report code message span).reopen broken last := by
  cases ahead : s.ahead with
  | nil => rw [reopen_nil _ _ ahead, reopen_nil _ _ ((ahead_report ..).trans ahead)]
  | cons next rest =>
    have atEnd := atEnd_reopen broken last s
    rw [reopen_cons _ _ ahead] at atEnd
    rw [reopen_cons _ _ ahead, reopen_cons _ _ ((ahead_report ..).trans ahead)]
    simp only [report, atEnd]
    split <;> rfl

theorem unexpected_reopen (expected : String) :
    (s.reopen broken last).unexpected expected = (s.unexpected expected).reopen broken last := by
  simp only [unexpected, atEnd_reopen, kind_reopen, token_reopen, report_reopen]

end State

/-- What a rule does at a state does not depend on what comes before it. -/
def OpensAt {α : Type} (r : State → α) (s : State) : Prop :=
  ∀ broken last, r (s.reopen broken last) = r s

namespace OpensAt

variable {α : Type} {s : State} {r : State → State}

theorem of_bump {r : State → α} (consumes : ∀ t : State, t.bump = s.bump → r t = r s) :
    OpensAt r s :=
  fun broken last => consumes _ (bump_reopen broken last s)

theorem node (kind : NodeKind) (body : OpensAt r s.openNode) : OpensAt (State.node kind r) s := by
  intro broken last
  rw [State.node, State.node, closeNode_reopen, openNode_reopen, body]

theorem nodeOf {r : State → NodeKind × State} (body : OpensAt r s.openNode) :
    OpensAt (State.nodeOf r) s := by
  intro broken last
  simp only [State.nodeOf, closeNode_reopen, openNode_reopen, body broken last]

theorem nested (body : OpensAt r { s with depth := s.depth + 1 }) : OpensAt (State.nested r) s := by
  intro broken last
  have same := body broken last
  rw [reopen_with_depth] at same
  simp only [State.nested, depth_reopen, same]

theorem during (phase : Phase) (body : OpensAt r { s with phases := phase :: s.phases }) :
    OpensAt (State.during phase r) s := by
  intro broken last
  have same := body broken last
  rw [reopen_with_phases] at same
  simp only [State.during, phases_reopen, same]

end OpensAt

variable {s : State}

theorem ahead_cons_of_inside (inside : s.ahead ≠ []) :
    ∃ next rest, s.ahead = next :: rest ∧ s.kind = next.kind := by
  cases ahead : s.ahead with
  | nil => exact absurd ahead inside
  | cons next rest => exact ⟨next, rest, rfl, congrArg Lookahead.kind (current_of_ahead ahead)⟩

/-- A rule that cannot tell what comes before the first token consumes that token. -/
theorem OpensAt.consumes {r : State → State} (opens : OpensAt r s) (runs : ∀ t, Runs t (r t))
    (inside : s.ahead ≠ []) : (r s).ahead.length < s.ahead.length := by
  refine Nat.lt_of_le_of_ne (runs s).shrinks fun lengths => ?_
  obtain ⟨next, rest, ahead, -⟩ := ahead_cons_of_inside inside
  have stays {t : State} (run : Runs t (r s)) (lengths : t.ahead.length = s.ahead.length) :
      t.ahead = (r s).ahead := by
    obtain ⟨passed, split, -⟩ := run.passed
    have none : passed = [] := List.length_eq_zero_iff.mp (by
      have := congrArg List.length split
      rw [List.length_append] at this
      omega)
    rw [split, none, List.nil_append]
  -- the rule cannot tell whether a line break comes first, so it cannot have left the token there
  have other := runs (s.reopen (!next.afterBreak) none)
  rw [opens] at other
  have same := (stays (runs s) rfl).trans (stays other (length_reopen ..)).symm
  rw [reopen_cons _ _ ahead, ahead] at same
  have flag : next.afterBreak = !next.afterBreak :=
    congrArg Lookahead.afterBreak (List.cons.inj same).1
  exact Bool.not_ne_self _ flag.symm

theorem bumpMany_reopen (broken : Bool) (last : Option Nat) {count : Nat} (some : 0 < count) :
    (s.reopen broken last).bumpMany count = s.bumpMany count := by
  obtain ⟨count, rfl⟩ := Nat.exists_eq_succ_of_ne_zero (Nat.ne_of_gt some)
  simp only [bumpMany, bump_reopen]

theorem skipUnit_opens (inside : s.ahead ≠ []) : OpensAt skipUnit s := by
  intro broken last
  obtain ⟨next, rest, ahead, -⟩ := ahead_cons_of_inside inside
  have same : unitLength (s.reopen broken last).ahead = unitLength s.ahead := by
    simp only [reopen, ahead, unitLength]
    rfl
  rw [skipUnit, skipUnit, same]
  refine bumpMany_reopen broken last ?_
  rw [ahead, unitLength]
  split <;> omega

theorem recover_opens (expected : String) (recovery : KindSet) (inside : s.ahead ≠ [])
    (atEnd : s.atEnd = false) : OpensAt (State.recover expected recovery) s := by
  intro broken last
  have still : (s.unexpected expected).atEnd = false := (atEnd_report ..).trans atEnd
  simp only [State.recover, unexpected_reopen, atEnd_reopen, still, Bool.false_eq_true, ↓reduceIte]
  refine OpensAt.node .error (.during .recovering ?_) broken last
  intro broken last
  refine congrArg (repeatStep _) (skipUnit_opens ?_ broken last)
  exact fun none => inside ((ahead_report ..).symm.trans none)

/-- What nests too deeply is skipped from its first token on, unless that token ends something. -/
theorem recoverTooDeep_opens (limit : Nat) (inside : s.ahead ≠ []) (atEnd : s.atEnd = false)
    (opening : s.kind.isCloser = false) : OpensAt (State.recoverTooDeep limit) s := by
  intro broken last
  have skip {s : State} (inside : s.ahead ≠ []) (opening : s.kind.isCloser = false) :
      OpensAt (fun s => s.bumpMany (deepLength (s.endsRecovery .empty) 0 false s.ahead)) s := by
    intro broken last
    obtain ⟨next, rest, ahead, kind⟩ := ahead_cons_of_inside inside
    have ends : (s.reopen broken last).endsRecovery .empty = s.endsRecovery .empty := by
      funext next
      simp only [endsRecovery, breakModes_reopen]
    rw [kind] at opening
    have same : deepLength (s.endsRecovery .empty) 0 false (s.reopen broken last).ahead =
        deepLength (s.endsRecovery .empty) 0 false s.ahead := by
      simp only [reopen, ahead, deepLength, Bool.and_false, Bool.false_and]
      rfl
    simp only [ends, same]
    refine bumpMany_reopen broken last ?_
    rw [ahead, deepLength, if_neg (Bool.eq_false_iff.mp opening)]
    split
    · omega
    · rw [Bool.and_false, Bool.false_and, if_neg Bool.false_ne_true]
      omega
  simp only [State.recoverTooDeep, atEnd_reopen, atEnd, Bool.false_eq_true, ↓reduceIte,
    token_reopen, report_reopen]
  refine OpensAt.node .error (.during .recovering (skip ?_ ?_)) broken last
  · exact fun none => inside ((ahead_report ..).symm.trans none)
  · exact (congrArg TokenKind.isCloser (kind_report ..)).trans opening

variable {config : Config} {inner : ConstructRule}

theorem operand_opens {recovery : KindSet} (starts : atExprStart config s = true) :
    OpensAt (operand config inner recovery) s := by
  intro broken last
  have literal : OpensAt (State.node .literal State.bump) s := .node .literal (.of_bump fun _ => id)
  have name : OpensAt (State.node .nameRef State.bump) s := .node .nameRef (.of_bump fun _ => id)
  have parens : OpensAt (parenthesized inner) s := by
    intro broken last
    rw [Coupling.parenthesized_eq, Coupling.parenthesized_eq]
    exact OpensAt.nodeOf (.of_bump fun t same => by simp only [same]) broken last
  have list : OpensAt (delimited .arrayExpr .rightBracket "expression" (atExprStart config)
      fun recovery => inner (.expr 0 recovery)) s :=
    .node .arrayExpr (.of_bump fun t same => by simp only [same])
  have sign (power : Nat) : OpensAt
      (State.node .prefixExpr fun s => inner (.expr power recovery) s.bump) s :=
    .node .prefixExpr (.of_bump fun t same => by simp only [same])
  simp only [operand, isAtAny_reopen, isAt_reopen, text_reopen]
  split
  · exact congrArg (fun s => (true, postfixForms config inner s)) (literal broken last)
  split
  · exact congrArg (fun s => (true, postfixForms config inner s)) (name broken last)
  split
  · exact congrArg (fun s => (true, postfixForms config inner s)) (parens broken last)
  split
  · exact congrArg (fun s => (true, postfixForms config inner s)) (list broken last)
  cases sort : if s.isAt .symbol then config.operators.unaryPower? s.text else none with
  | some power => exact congrArg (true, ·) (sign power broken last)
  | none => simp_all [atExprStart]

theorem inside_of_kind (kind : s.kind ≠ .eof) : s.atEnd = false :=
  beq_eq_false_iff_ne.mpr kind

theorem kind_of_atExprStart (starts : atExprStart config s = true) :
    s.kind ≠ .eof ∧ s.kind.isCloser = false := by
  simp only [atExprStart, isAt, isAtAny, Bool.or_eq_true, Bool.and_eq_true, beq_iff_eq] at starts
  constructor
  · intro kind
    simp [kind, literalKinds, KindSet.contains, KindSet.ofList] at starts
  · cases kind : s.kind <;>
      simp_all [literalKinds, KindSet.contains, KindSet.ofList, TokenKind.isCloser]

theorem expr_opens {room least : Nat} {recovery : KindSet} (inside : s.ahead ≠ [])
    (starts : atExprStart config s = true) :
    OpensAt (construct config room (.expr least recovery)) s := by
  obtain ⟨kind, opening⟩ := kind_of_atExprStart starts
  cases room with
  | zero => exact recoverTooDeep_opens _ inside (inside_of_kind kind) opening
  | succ room =>
    refine OpensAt.nested (.during .expression ?_)
    intro broken last
    simp only [exprBody]
    rw [operand_opens (by exact starts) broken last]

variable {block : State → State}

theorem annotationUse_opens (s : State) : OpensAt annotationUse s :=
  .node .annotationUse (.of_bump fun t same => by simp only [same])

theorem ifChain_opens (s : State) : OpensAt (ifChain inner block) s := by
  intro broken last
  rw [ifChain, ifChain, ifBranches, ifBranches, bump_reopen, length_reopen]

theorem annotations_opens (here : s.isAt .annotationMark = true) : OpensAt annotations s := by
  intro broken last
  have first := annotationUse_opens s broken last
  simp only [annotations]
  rw [repeatStep.eq_1, repeatStep.eq_1 _ s]
  simp only [isAt_reopen, here, ↓reduceIte, first, length_reopen]

theorem annotations_of_none (none : s.isAt .annotationMark = false) : annotations s = s := by
  simp only [annotations]
  rw [repeatStep.eq_1]
  simp only [none, Bool.false_eq_true, ↓reduceIte, false_and]

theorem statementBody_opens
    (exprs : ∀ {s : State}, s.ahead ≠ [] → atExprStart config s = true →
      OpensAt (inner (.expr 0 .empty)) s)
    (inside : s.ahead ≠ []) (starts : atStatementStart config s = true)
    (plain : s.isAt .annotationMark = false) : OpensAt (statementBody config inner block) s := by
  intro broken last
  simp only [statementBody, kind_reopen, bump_reopen]
  split
  case h_13 =>
    have expr : atExprStart config s = true := by
      simp only [atStatementStart, Bool.or_eq_true] at starts
      refine starts.resolve_left fun word => ?_
      simp_all [isAtAny, isAt, statementKinds, KindSet.contains, KindSet.ofList]
    have same : atExprStart config (s.reopen broken last) = atExprStart config s := by
      simp only [atExprStart, isAtAny_reopen, isAt_reopen, text_reopen]
    simp only [same, expr, ↓reduceIte]
    exact congrArg (NodeKind.exprStmt, ·) (exprs inside expr broken last)
  all_goals try rfl
  exact congrArg (NodeKind.ifStmt, ·) (ifChain_opens s broken last)

/-- A statement that has begun: its annotations, its body and what is left over. -/
def statementNode (config : Config) (inner : ConstructRule) (block : State → State) (s : State) :
    NodeKind × State :=
  let body := statementBody config inner block (annotations s)
  (body.1, statementEnd body.2)

theorem statement_of_start (starts : atStatementStart config s = true) :
    statement config inner block s = s.during .statement (nodeOf (statementNode config inner block)) := by
  simp only [statement_eq, during]
  rw [if_pos (by exact starts)]
  rfl

theorem statement_of_other (other : atStatementStart config s = false) :
    statement config inner block s = s.during .statement (State.recover "statement" .empty) := by
  simp only [statement_eq, during]
  rw [if_neg (by exact Bool.eq_false_iff.mp other)]

theorem statementItem_opens
    (exprs : ∀ {s : State}, s.ahead ≠ [] → atExprStart config s = true →
      OpensAt (inner (.expr 0 .empty)) s)
    (inside : s.ahead ≠ []) (atEnd : s.atEnd = false) :
    OpensAt (statementItem config inner block) s := by
  intro broken last
  have start : atStatementStart config (s.reopen broken last) = atStatementStart config s := by
    simp only [atStatementStart, atExprStart, isAtAny_reopen, isAt_reopen, text_reopen]
  have body : statement config inner block (s.reopen broken last) = statement config inner block s := by
    cases starts : atStatementStart config s with
    | false =>
      rw [statement_of_other starts, statement_of_other (start.trans starts)]
      exact OpensAt.during .statement (recover_opens "statement" .empty inside atEnd) broken last
    | true =>
      rw [statement_of_start starts, statement_of_start (start.trans starts)]
      refine OpensAt.during .statement (.nodeOf fun broken last => ?_) broken last
      generalize opened : State.openNode { s with phases := .statement :: s.phases } = s'
      have inside' : s'.ahead ≠ [] := opened ▸ inside
      have starts' : atStatementStart config s' = true := opened ▸ starts
      simp only [statementNode]
      cases mark : s'.isAt .annotationMark with
      | true => simp only [annotations_opens mark broken last]
      | false =>
        have mark' := (isAt_reopen broken last s' .annotationMark).trans mark
        rw [annotations_of_none mark, annotations_of_none mark',
          statementBody_opens exprs inside' starts' mark broken last]
  simp only [statementItem, isAt_reopen, bump_reopen, body]

theorem item_opens {room : Nat} (inside : s.ahead ≠ []) (atEnd : s.atEnd = false) :
    OpensAt (item config room) s :=
  statementItem_opens expr_opens inside atEnd

/-- A statement consumes a token, unless the end has been reached. -/
theorem item_consumes {room : Nat} (inside : s.ahead ≠ []) (atEnd : s.atEnd = false) :
    (item config room s).ahead.length < s.ahead.length :=
  (item_opens inside atEnd).consumes (Runs.item config room) inside

end LosslessSyntax.Grammar
