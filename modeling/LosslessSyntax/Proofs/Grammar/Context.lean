import LosslessSyntax.Proofs.Grammar.Runs

/-! # The context of a place

A rule enters levels of nesting, says whether line breaks matter, and says what it reads; when it is
done, all of this is as it was (`Restores`). That holds of whatever rules are made of, and so, being
a coupling, of every rule (`Rule.restores`). A rule is given here by its name (`Rule`), so that it
can be run over other rules for the constructs and the blocks inside it.
-/

namespace LosslessSyntax.Grammar

open State

/-- What a state says about its place: how deeply constructs nest, whether line breaks matter, and
what is being read. -/
structure Context where
  depth : Nat
  breakModes : List Bool
  phases : List Phase

namespace State

def context (s : State) : Context := ⟨s.depth, s.breakModes, s.phases⟩

theorem context_bump (s : State) : s.bump.context = s.context := by
  rw [bump]
  split <;> rfl

theorem context_report (code : DiagnosticCode) (message : String) (span : Span) (s : State) :
    (s.report code message span).context = s.context := by
  rw [report]
  split <;> rfl

theorem context_missing (expected : String) (s : State) :
    (s.missing expected).context = s.context := by
  rw [missing]
  split <;> exact context_report ..

end State

/-- A run that leaves the context as it found it. -/
structure Restores (s s' : State) : Prop extends Runs s s' where
  context : s'.context = s.context

namespace Restores

variable {s s' s'' : State}

theorem refl (s : State) : Restores s s := ⟨.refl s, rfl⟩

theorem trans (first : Restores s s') (second : Restores s' s'') : Restores s s'' :=
  ⟨first.toRuns.trans second.toRuns, second.context.trans first.context⟩

theorem bump (s : State) : Restores s s.bump := ⟨.bump s, context_bump s⟩

theorem unexpected (expected : String) (s : State) : Restores s (s.unexpected expected) :=
  ⟨.unexpected expected s, context_report ..⟩

theorem missing (expected : String) (s : State) : Restores s (s.missing expected) :=
  ⟨.missing expected s, context_missing expected s⟩

theorem tooDeep (limit : Nat) (inside : s.atEnd = false) :
    Restores s (s.report .nestingTooDeep (depthMessage limit) s.current.token.span) :=
  ⟨.report fun atEnd => absurd atEnd (Bool.eq_false_iff.mp inside), context_report ..⟩

/-- A level that is entered is left again. -/
theorem nested (run : Restores { s with depth := s.depth + 1 } s') :
    Restores s { s' with depth := s'.depth - 1 } := by
  obtain ⟨depth, breakModes, phases⟩ := Context.mk.inj run.context
  refine ⟨run.toRuns.of_context, ?_⟩
  simp only [State.context, depth, breakModes, phases, Nat.add_sub_cancel]

theorem during (phase : Phase) (run : Restores { s with phases := phase :: s.phases } s') :
    Restores s { s' with phases := s'.phases.tail } := by
  obtain ⟨depth, breakModes, phases⟩ := Context.mk.inj run.context
  refine ⟨run.toRuns.of_context, ?_⟩
  simp only [State.context, depth, breakModes, phases, List.tail_cons]

theorem popBreaks {matter : Bool} (run : Restores (s.pushBreaks matter) s') :
    Restores s s'.popBreaks := by
  obtain ⟨depth, breakModes, phases⟩ := Context.mk.inj run.context
  refine ⟨run.toRuns.popBreaks, ?_⟩
  simp only [State.context, State.popBreaks, depth, breakModes, phases, State.pushBreaks,
    List.tail_cons]

theorem closeNode (kind : NodeKind) (run : Restores s.openNode s') :
    Restores s (State.closeNode s kind s') :=
  ⟨run.toRuns.closeNode kind, run.context⟩

theorem closeWrap (kind : NodeKind) (run : Restores s.precedeNode s') :
    Restores s (State.closeWrap s kind s') :=
  ⟨run.toRuns.closeWrap kind, run.context⟩

/-- That the context is restored is a coupling, whatever the second run does. -/
def coupling : Coupling where
  Step s _ s' _ := Restores s s'
  refl s _ := refl s
  trans first second := first.trans second
  apart run _ := run
  adrift run _ := run
  shrinks run := run.shrinks
  progress_step run := .inr fun _ => run
  bump_step s _ := bump s
  unexpected_step expected s _ := unexpected expected s
  missing_step expected s _ := missing expected s
  tooDeep_step limit _ _ _ inside := tooDeep limit inside
  during_step phase _ _ _ _ run := run.during phase
  breaks_step _ _ _ _ _ run := run.popBreaks
  node_step _ run _ := run.closeNode _
  wrap_step kind _ _ _ _ _ run := run.closeWrap kind

instance : coupling.Nests := ⟨fun run => run.nested⟩

theorem blockClosed : Coupling.BlockClosed coupling := fun run => run.closeNode .block

end Restores

/-- The rules of the grammar. -/
inductive Rule where
  /-- A statement, or a semicolon in its place. -/
  | statement
  | item
  | block
  /-- An expression or a type. -/
  | construct (kind : Construct)
  /-- A condition with its blocks and the branches after them. -/
  | branches
  | annotations
  | binding
  /-- The types between parentheses, or between angle brackets. -/
  | typeList
  | typeArguments
  /-- The arguments of a call. -/
  | arguments
  /-- The elements of an array, or the expressions between parentheses. -/
  | elements
  | parenthesized
  | params
  /-- The members of a record or of a union. -/
  | packBody
  | unionBody
  /-- What is left after a complete statement. -/
  | statementEnd
  /-- Recovery, up to a token that can go on. -/
  | skip (recovery : KindSet)
  | recover (expected : String) (recovery : KindSet)
  | placeholder (expected : String)
  | absent (expected : String) (recovery : KindSet)
  /-- Recovery where constructs nest too deeply. -/
  | tooDeep

namespace Rule

/-- Runs a rule over a rule for the constructs and one for the blocks inside it. -/
def run (config : Config) (inner : ConstructRule) (block : State → State) : Rule → State → State
  | statement => Grammar.statement config inner block
  | item => statementItem config inner block
  | .block => block
  | construct kind => inner kind
  | branches => ifChain inner block
  | annotations => Grammar.annotations
  | binding => Grammar.binding inner
  | typeList => Grammar.typeList inner
  | typeArguments => Grammar.typeArguments inner
  | arguments =>
    delimited .argList .rightParen "argument" (atExprStart config) fun recovery =>
      inner (.expr 0 recovery)
  | elements =>
    delimited .arrayExpr .rightBracket "expression" (atExprStart config) fun recovery =>
      inner (.expr 0 recovery)
  | parenthesized => Grammar.parenthesized inner
  | params => paramList inner
  | packBody => memberBody .packBody "pack member" (packMember inner)
  | unionBody => memberBody .unionBody "union member" (unionMember inner)
  | statementEnd => Grammar.statementEnd
  | skip recovery => skipToSync recovery
  | recover expected recovery => State.recover expected recovery
  | placeholder expected => State.placeholder expected
  | absent expected recovery => State.absent expected recovery
  | tooDeep => recoverTooDeep config.maxDepth

/-- Rules keep to a coupling if the rules for constructs and blocks inside them do. -/
theorem coupled {C : Coupling} {inner inner' : ConstructRule} {block block' : State → State}
    (constructs : ∀ kind, C.Coupled (inner kind) (inner' kind)) (blocks : C.Coupled block block')
    (config : Config) (rule : Rule) :
    C.Coupled (rule.run config inner block) (rule.run config inner' block') := by
  have exprs (recovery : KindSet) := constructs (.expr 0 recovery)
  cases rule with
  | statement => exact Coupling.coupled_statement constructs blocks config
  | item => exact Coupling.coupled_statementItem constructs blocks config
  | block => exact blocks
  | construct kind => exact constructs kind
  | branches => exact Coupling.coupled_ifChain constructs blocks
  | annotations => exact Coupling.coupled_annotations
  | binding => exact Coupling.coupled_binding constructs
  | typeList => exact Coupling.coupled_typeList constructs
  | typeArguments => exact Coupling.coupled_typeArguments constructs
  | arguments =>
    exact Coupling.coupled_delimited .argList nofun _ _ (Coupling.tested_atExprStart config) exprs
  | elements =>
    exact Coupling.coupled_delimited .arrayExpr nofun _ _ (Coupling.tested_atExprStart config) exprs
  | parenthesized => exact Coupling.coupled_parenthesized constructs
  | params => exact Coupling.coupled_paramList constructs
  | packBody =>
    exact Coupling.coupled_memberBody .packBody nofun _ (Coupling.coupled_packMember constructs)
  | unionBody =>
    exact Coupling.coupled_memberBody .unionBody nofun _ (Coupling.coupled_unionMember constructs)
  | statementEnd => exact Coupling.coupled_statementEnd
  | skip recovery => exact .skipToSync recovery
  | recover expected recovery => exact .recover expected recovery
  | placeholder expected => exact .placeholder expected
  | absent expected recovery => exact .absent expected recovery
  | tooDeep => exact .recoverTooDeep _

/-- A rule leaves the context as it found it, however many levels may be entered. -/
theorem restores (config : Config) (room : Nat) (rule : Rule) (s : State) :
    Restores s (rule.run config (Grammar.construct config room) (Grammar.block config room) s) :=
  rule.coupled (Coupling.coupled_construct config room)
    (Coupling.coupled_block Restores.blockClosed config room) config s s

end Rule

end LosslessSyntax.Grammar
