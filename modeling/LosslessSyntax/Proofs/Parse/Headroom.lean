import LosslessSyntax.Proofs.Grammar.Alike
import LosslessSyntax.Proofs.Parse.Reported

/-! # Levels of nesting that are not needed

A construct for which no level is left leaves a mark: it is reported that it nests too deeply, or
that the text ends there (`not_calm_recoverTooDeep`). So a run that has left no mark (`State.Calm`)
was never short of a level. That a second run is the same as a first one unless the first leaves a
mark is a coupling (`sparing`), and it couples the rules that may enter so many levels with those
that may enter more (`coupled_construct_deeper`, `coupled_block_deeper`). Hence a nesting limit that
is not reached can be raised without effect (`Parse.limit_raised`).
-/

namespace LosslessSyntax.Grammar

open State

/-- Neither a construct that nests too deeply nor the end of the text has been reported. -/
structure State.Calm (s : State) : Prop where
  shallow : ∀ d ∈ s.reports.items, d.code ≠ .nestingTooDeep
  unended : ∀ d ∈ s.reports.items, d.code ≠ .unexpectedEnd
  endReported : s.endReported = false

variable {s s' : State}

theorem State.Calm.of_runs (calm : s'.Calm) (run : Runs s s') : s.Calm where
  shallow d member := calm.shallow d (run.kept d member)
  unended d member := calm.unended d (run.kept d member)
  endReported := by
    rcases run.ended with same | ⟨⟨d, member, code⟩, -⟩
    · exact same.symm.trans calm.endReported
    · exact absurd code (calm.unended d member)

/-- A report is made, or it is held back since the end has been reported before. -/
theorem not_calm_report {code : DiagnosticCode} {message : String} {span : Span}
    (mark : code = .nestingTooDeep ∨ code = .unexpectedEnd) :
    ¬ (s.report code message span).Calm := by
  intro calm
  rw [report] at calm
  split at calm
  case isTrue held =>
    have said := (Bool.and_eq_true_iff.mp held).2
    exact absurd (said.symm.trans calm.endReported) (by decide)
  case isFalse =>
    obtain ⟨d, member, -, same⟩ := Diagnostics.exists_mem_push s.reports (.error code message span)
    rcases mark with rfl | rfl
    · exact calm.shallow d member same
    · exact calm.unended d member same

/-- What nests too deeply leaves a mark, also at the end of the text. -/
theorem not_calm_recoverTooDeep (limit : Nat) (s : State) : ¬ (s.recoverTooDeep limit).Calm := by
  intro calm
  rw [recoverTooDeep] at calm
  split at calm
  case isTrue atEnd =>
    rw [unexpected, if_pos atEnd] at calm
    exact not_calm_report (.inr rfl) calm
  case isFalse =>
    let reported := s.report .nestingTooDeep (depthMessage limit) s.current.token.span
    have run : Runs reported (reported.node .error <| during .recovering fun state =>
        state.bumpMany (deepLength (state.endsRecovery .empty) 0 false state.ahead)) :=
      .closeNode .error (.of_context (Runs.of_coupled (.bumpMany _) _))
    exact not_calm_report (.inl rfl) (calm.of_runs run)

/-- A run from `t` is the same as one from `s`, if they begin in the same state and the one from `s`
leaves no mark. -/
def Spares (s t s' t' : State) : Prop := Runs s s' ∧ (s = t → s'.Calm → s' = t')

namespace Spares

variable {t u s'' t' t'' u' : State}

theorem trans (first : Spares s t s' t') (second : Spares s' t' s'' t'') : Spares s t s'' t'' :=
  ⟨first.1.trans second.1,
    fun same calm => second.2 (first.2 same (calm.of_runs second.1)) calm⟩

/-- One rule on both sides. -/
theorem of_runs {rule : State → State} (run : Runs s (rule s)) : Spares s t (rule s) (rule t) :=
  ⟨run, fun same _ => congrArg rule same⟩

theorem apart (step : Spares s u s' u') (differs : ¬ Agree s t) : Spares s t s' t' :=
  ⟨step.1, fun same => absurd (same ▸ Agree.refl s) differs⟩

theorem adrift (step : Spares s t s' t') (differs : ¬ Agree s' t') : Spares s t s' u :=
  ⟨step.1, fun same calm => absurd (step.2 same calm ▸ Agree.refl s') differs⟩

/-- If the first run leaves no mark, the second one makes progress as the first does. -/
theorem progress (step : Spares s t s' t') :
    (t'.ahead.length ≤ t.ahead.length ∧
      (s'.ahead.length < s.ahead.length ↔ t'.ahead.length < t.ahead.length)) ∨
        ∀ u, Spares s t s' u := by
  by_cases here : s = t ∧ s'.Calm
  · obtain ⟨rfl, calm⟩ := here
    obtain rfl := step.2 rfl calm
    exact .inl ⟨step.1.shrinks, Iff.rfl⟩
  · exact .inr fun u => ⟨step.1, fun same calm => absurd ⟨same, calm⟩ here⟩

theorem closeNode {kind kind' : NodeKind} (step : Spares s.openNode t.openNode s' t')
    (kinds : kind = kind' ∨ ∀ u, Spares s.openNode t.openNode s' u) :
    Spares s t (State.closeNode s kind s') (State.closeNode t kind' t') := by
  refine ⟨step.1.closeNode kind, ?_⟩
  rintro rfl calm
  have calm : s'.Calm := ⟨calm.shallow, calm.unended, calm.endReported⟩
  obtain rfl := step.2 rfl calm
  rcases kinds with rfl | free
  · rfl
  · have other := congrArg State.depth ((free { s' with depth := s'.depth + 1 }).2 rfl calm)
    exact absurd other (Nat.succ_ne_self s'.depth).symm

theorem closeWrap (kind : NodeKind) (step : Spares s.precedeNode t.precedeNode s' t') :
    Spares s t (State.closeWrap s kind s') (State.closeWrap t kind t') := by
  refine ⟨step.1.closeWrap kind, ?_⟩
  rintro rfl calm
  rw [step.2 rfl ⟨calm.shallow, calm.unended, calm.endReported⟩]

end Spares

/-- That runs are the same is a coupling. -/
def sparing : Coupling where
  Step := Spares
  refl s _ := ⟨.refl s, fun same _ => same⟩
  trans := Spares.trans
  apart := Spares.apart
  adrift := Spares.adrift
  shrinks step := step.1.shrinks
  progress_step := Spares.progress
  bump_step s _ := .of_runs (.bump s)
  unexpected_step expected s _ := .of_runs (.unexpected expected s)
  missing_step expected s _ := .of_runs (.missing expected s)
  tooDeep_step limit s _ _ inside :=
    @Spares.of_runs _ _ (fun s => s.report .nestingTooDeep (depthMessage limit) s.current.token.span)
      (.report fun atEnd => absurd atEnd (Bool.eq_false_iff.mp inside))
  during_step _ _ _ _ _ step :=
    ⟨.of_context step.1, fun same calm => by
      subst same
      rw [step.2 rfl ⟨calm.shallow, calm.unended, calm.endReported⟩]⟩
  breaks_step _ _ _ _ _ step :=
    ⟨.popBreaks step.1, fun same calm => by
      subst same
      rw [step.2 rfl ⟨calm.shallow, calm.unended, calm.endReported⟩]⟩
  node_step _ step kinds := step.closeNode kinds
  wrap_step kind _ _ _ _ _ step := step.closeWrap kind

instance : sparing.Nests where
  nested_step step :=
    ⟨.of_context step.1, fun same calm => by
      subst same
      rw [step.2 rfl ⟨calm.shallow, calm.unended, calm.endReported⟩]⟩

section Deeper

variable (config : Config) (limit : Nat)

/-- Where no level is left, anything goes in place of the second run. -/
theorem coupled_recoverTooDeep (most : Nat) (rule : State → State) :
    sparing.Coupled (State.recoverTooDeep most) rule := fun s _ =>
  ⟨.of_coupled (.recoverTooDeep most) s, fun _ calm => absurd calm (not_calm_recoverTooDeep most s)⟩

/-- Expressions and types that need no more levels than there are. -/
theorem coupled_construct_deeper {room room' : Nat} (more : room ≤ room') (kind : Construct) :
    sparing.Coupled (construct config room kind)
      (construct { config with maxDepth := limit } room' kind) := by
  induction room generalizing room' kind with
  | zero =>
    cases kind with
    | expr least recovery => exact coupled_recoverTooDeep _ _
    | type recovery =>
      cases room' <;>
        exact .ite Coupling.tested_atTypeStart (coupled_recoverTooDeep _ _) (.absent "type" recovery)
  | succ room ih =>
    obtain ⟨room', rfl⟩ := Nat.exists_eq_add_of_lt more
    have inner (kind : Construct) := @ih (room + room') (Nat.le_add_right room room') kind
    cases kind with
    | expr least recovery =>
      exact .nested (.during .expression (Coupling.coupled_exprBody inner config least recovery))
    | type recovery =>
      exact .ite Coupling.tested_atTypeStart
        (.nested (.during .expression (Coupling.coupled_typeBody inner recovery)))
        (.absent "type" recovery)

/-- Statements whose blocks need no more levels than there are. -/
theorem coupled_items_deeper {room room' : Nat} (more : room ≤ room')
    (blocks : sparing.Coupled (block config room) (block { config with maxDepth := limit } room'))
    {stop : State → Bool} (tested : Coupling.Tested stop) :
    sparing.Coupled (items config room stop)
      (items { config with maxDepth := limit } room' stop) :=
  .repeatStep <| .ite tested (.always false .id) <| .always true <|
    Coupling.coupled_statementItem (coupled_construct_deeper config limit more) blocks config

/-- Blocks that need no more levels than there are. -/
theorem coupled_block_deeper {room room' : Nat} (more : room ≤ room') :
    sparing.Coupled (block config room) (block { config with maxDepth := limit } room') := by
  induction room generalizing room' with
  | zero =>
    cases room' <;>
      exact .ite (Coupling.tested_isAt .leftBrace) (coupled_recoverTooDeep _ _) (.placeholder _)
  | succ room ih =>
    obtain ⟨room', rfl⟩ := Nat.exists_eq_add_of_lt more
    have more := Nat.le_add_right room room'
    have inside := coupled_items_deeper config limit more (ih more)
      ((Coupling.tested_isAt .rightBrace).or Coupling.tested_atEnd)
    have body := (Coupling.Coupled.expect .rightBrace).comp
      (((inside.withBreaks true).during .block).comp .bump)
    exact .ite (Coupling.tested_isAt .leftBrace)
      (.nested fun s t => (body s.openNode t.openNode).closeNode (.inl rfl)) (.placeholder _)

end Deeper

end LosslessSyntax.Grammar

namespace LosslessSyntax.Parse

open Grammar Lexeme

variable {config : Config} {text : String}

/-- A parse that says neither that constructs nest too deeply nor that input is incomplete has left
no mark. -/
theorem calm_run (shallow : ∀ d ∈ (ofText config text).diagnostics.items, d.code ≠ .nestingTooDeep)
    (complete : ∀ d ∈ (ofText config text).diagnostics.items, d.kind ≠ .incomplete) :
    (run config text).Calm := by
  have reported : ∀ d ∈ (run config text).reports.items,
      d ∈ (ofText config text).diagnostics.items := fun d member => by
    rw [diagnostics_ofText]
    exact Diagnostics.mem_extend_of_mem _ member
  have unended : ∀ d ∈ (run config text).reports.items, d.code ≠ .unexpectedEnd :=
    fun d member code => complete d (reported d member) (by rw [Diagnostic.kind, code]; rfl)
  refine ⟨fun d member => shallow d (reported d member), unended, ?_⟩
  rcases (runs_programRun config (fun _ => false) text.utf8ByteSize
    (Scanner.between_ofText text config.operatorLimit) rfl).ended with same | ⟨⟨d, member, code⟩, -⟩
  · refine same.trans (endReported_beginning.trans (List.any_eq_false.mpr fun d member wrong => ?_))
    obtain ⟨incomplete, -⟩ := Bool.and_eq_true_iff.mp wrong
    obtain ⟨e, member', -, code⟩ := Diagnostics.exists_mem_extend (run config text).reports member
    rw [← diagnostics_ofText] at member'
    refine complete e member' ?_
    rw [Diagnostic.kind, code]
    exact beq_iff_eq.mp incomplete
  · exact absurd code (unended d member)

/-- A nesting limit that is not reached can be raised without effect: if a parse reports neither that
constructs nest too deeply nor that input is incomplete, a parse with a greater limit yields the same
tree and the same diagnostics. -/
theorem limit_raised (config : Config) (text : String) (limit : Nat) (more : config.maxDepth ≤ limit)
    (shallow : ∀ d ∈ (ofText config text).diagnostics.items, d.code ≠ .nestingTooDeep)
    (complete : ∀ d ∈ (ofText config text).diagnostics.items, d.kind ≠ .incomplete) :
    (ofText { config with maxDepth := limit } text).tree = (ofText config text).tree ∧
      (ofText { config with maxDepth := limit } text).diagnostics =
        (ofText config text).diagnostics := by
  have same : run config text = run { config with maxDepth := limit } text :=
    (coupled_items_deeper config limit more (coupled_block_deeper config limit more)
      tested_endsProgram _ _).2 rfl (calm_run shallow complete)
  refine ⟨?_, ?_⟩
  · rw [tree_ofText, tree_ofText, same]
    rfl
  · rw [diagnostics_ofText, diagnostics_ofText, same]
    rfl

/-- A call with a missing comma, whose arguments fit in two levels. -/
theorem limit_raised_call :
    2 ≤ 64 ∧
      (∀ d ∈ (ofText ⟨3, .standard, 2⟩ "f(a b)").diagnostics.items, d.code ≠ .nestingTooDeep) ∧
      (∀ d ∈ (ofText ⟨3, .standard, 2⟩ "f(a b)").diagnostics.items, d.kind ≠ .incomplete) ∧
      (ofText ⟨3, .standard, 64⟩ "f(a b)").tree = (ofText ⟨3, .standard, 2⟩ "f(a b)").tree ∧
      (ofText ⟨3, .standard, 64⟩ "f(a b)").diagnostics =
        (ofText ⟨3, .standard, 2⟩ "f(a b)").diagnostics := by
  have shallow : ∀ d ∈ (ofText ⟨3, .standard, 2⟩ "f(a b)").diagnostics.items,
      d.code ≠ .nestingTooDeep := by decide +kernel
  have complete : ∀ d ∈ (ofText ⟨3, .standard, 2⟩ "f(a b)").diagnostics.items,
      d.kind ≠ .incomplete := by decide +kernel
  exact ⟨by decide, shallow, complete,
    limit_raised ⟨3, .standard, 2⟩ "f(a b)" 64 (by decide) shallow complete⟩

end LosslessSyntax.Parse
