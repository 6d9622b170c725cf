import LosslessSyntax.Proofs.Diagnostic.Collection
import LosslessSyntax.Proofs.Grammar.StatementRules
import LosslessSyntax.Proofs.Tree.Outline

/-! # What every run does

`Runs s s'` collects what is true of every run of a rule from `s` to `s'`: it consumes the tokens
ahead one after the other and groups each of them once, undoes its changes of the context, and keeps
the reports made before. These laws are a coupling that takes no notice of a second run, so that
they hold of all rules at once (`Runs.of_coupled`).
-/

namespace LosslessSyntax.Grammar

open State Outline

/-- The outlines of the innermost open node. -/
def State.outline (s : State) : List Outline := Shape.outlineAll s.pieces.reverse

/-- Number of tokens in the innermost open node and ahead. -/
def State.extent (s : State) : Nat := countAll s.outline + s.ahead.length

namespace State

theorem outline_congr {s s' : State} (same : s.pieces = s'.pieces) : s.outline = s'.outline := by
  rw [outline, outline, same]

theorem outline_bump (s : State) :
    s.bump.outline = s.outline ++ if s.ahead = [] then [] else [.token] := by
  cases ahead : s.ahead <;> simp [bump, ahead, outline]

@[simp] theorem outline_openNode (s : State) : s.openNode.outline = [] := by
  simp [outline, openNode]

@[simp] theorem outline_precedeNode (s : State) : s.precedeNode.outline = [] := by
  simp [outline, precedeNode]

@[simp] theorem outline_closeNode (s s' : State) (kind : NodeKind) :
    (closeNode s kind s').outline = s.outline ++ [.node kind s'.outline] := by
  simp [outline, closeNode]

@[simp] theorem outline_closeWrap (s s' : State) (kind : NodeKind) :
    (closeWrap s kind s').outline = wrapLast kind s'.outline s.outline := by
  cases pieces : s.pieces with
  | nil => simp [outline, closeWrap, pieces, wrapLast]
  | cons first before =>
    simp only [outline, closeWrap, pieces, List.reverse_cons, Shape.outlineAll_append,
      Shape.outlineAll_cons, Shape.outlineAll_nil, List.append_nil, Shape.outline_wrap]
    rw [wrapLast_append _ _ _ first.outline_ne_nil]

@[simp] theorem ahead_closeWrap (s s' : State) (kind : NodeKind) :
    (closeWrap s kind s').ahead = s'.ahead := rfl

@[simp] theorem reports_closeWrap (s s' : State) (kind : NodeKind) :
    (closeWrap s kind s').reports = s'.reports := rfl

@[simp] theorem ahead_report (code : DiagnosticCode) (message : String) (span : Span) (s : State) :
    (s.report code message span).ahead = s.ahead := by
  rw [report]
  split <;> rfl

@[simp] theorem ahead_missing (expected : String) (s : State) :
    (s.missing expected).ahead = s.ahead := by
  rw [missing]
  split <;> exact ahead_report ..

@[simp] theorem finish_report (code : DiagnosticCode) (message : String) (span : Span)
    (s : State) : (s.report code message span).finish = s.finish := by
  rw [report]
  split <;> rfl

@[simp] theorem pieces_report (code : DiagnosticCode) (message : String) (span : Span)
    (s : State) : (s.report code message span).pieces = s.pieces := by
  rw [report]
  split <;> rfl

@[simp] theorem pieces_unexpected (expected : String) (s : State) :
    (s.unexpected expected).pieces = s.pieces := pieces_report ..

@[simp] theorem pieces_missing (expected : String) (s : State) :
    (s.missing expected).pieces = s.pieces := by
  rw [missing]
  split
  · exact pieces_unexpected expected s
  · exact pieces_report ..

@[simp] theorem record_report (code : DiagnosticCode) (message : String) (span : Span)
    (s : State) : (s.report code message span).record = s.record := by
  rw [report]
  split <;> rfl

@[simp] theorem record_missing (expected : String) (s : State) :
    (s.missing expected).record = s.record := by
  rw [missing]
  split <;> exact record_report ..

@[simp] theorem breakModes_report (code : DiagnosticCode) (message : String) (span : Span)
    (s : State) : (s.report code message span).breakModes = s.breakModes := by
  rw [report]
  split <;> rfl

@[simp] theorem lastStop_report (code : DiagnosticCode) (message : String) (span : Span)
    (s : State) : (s.report code message span).lastStop = s.lastStop := by
  rw [report]
  split <;> rfl

@[simp] theorem current_report (code : DiagnosticCode) (message : String) (span : Span)
    (s : State) : (s.report code message span).current = s.current := by
  simp only [current, ahead_report, finish_report]

@[simp] theorem kind_report (code : DiagnosticCode) (message : String) (span : Span) (s : State) :
    (s.report code message span).kind = s.kind := by
  simp only [State.kind, current_report]

@[simp] theorem atEnd_report (code : DiagnosticCode) (message : String) (span : Span) (s : State) :
    (s.report code message span).atEnd = s.atEnd := by
  simp only [atEnd, isAt, kind_report]

end State

/-- A statement, where so many more levels may be entered. -/
def item (config : Config) (room : Nat) : State → State :=
  statementItem config (construct config room) (block config room)

/-- What is true of every run from `s` to `s'`. -/
structure Runs (s s' : State) : Prop where
  passed : ∃ passed, s.ahead = passed ++ s'.ahead ∧
    s'.lastStop = (passed.getLast?.map (·.token.stop)).or s.lastStop
  extent : s'.extent = s.extent
  finish : s'.finish = s.finish
  breakModes : s'.breakModes = s.breakModes
  kept : ∀ d ∈ s.reports.items, d ∈ s'.reports.items
  /-- The end is reported only once it is reached, and then a diagnostic says so. -/
  ended : s'.endReported = s.endReported ∨
    (∃ d ∈ s'.reports.items, d.code = .unexpectedEnd) ∧
      (s'.ahead = [] ∨ ∃ a ∈ s.ahead, a.kind = .eof)

namespace Runs

variable {s s' s'' : State}

theorem refl (s : State) : Runs s s where
  passed := ⟨[], rfl, rfl⟩
  extent := rfl
  finish := rfl
  breakModes := rfl
  kept := fun _ member => member
  ended := .inl rfl

theorem shrinks (run : Runs s s') : s'.ahead.length ≤ s.ahead.length := by
  obtain ⟨passed, split, -⟩ := run.passed
  rw [split, List.length_append]
  omega

theorem mem_of_mem (run : Runs s s') {a : Lookahead} (member : a ∈ s'.ahead) : a ∈ s.ahead := by
  obtain ⟨passed, split, -⟩ := run.passed
  rw [split]
  exact List.mem_append_right passed member

theorem nil_of_nil (run : Runs s s') (none : s.ahead = []) : s'.ahead = [] := by
  obtain ⟨passed, split, -⟩ := run.passed
  rw [none] at split
  exact (List.append_eq_nil_iff.mp split.symm).2

/-- The end is not reported before it is reached. -/
theorem endReported_eq (run : Runs s s') (inside : ∀ a ∈ s.ahead, a.kind ≠ .eof)
    (early : s'.ahead ≠ []) : s'.endReported = s.endReported := by
  rcases run.ended with same | ⟨-, none | ⟨a, member, kind⟩⟩
  · exact same
  · exact absurd none early
  · exact absurd kind (inside a member)

theorem trans (first : Runs s s') (second : Runs s' s'') : Runs s s'' where
  passed := by
    obtain ⟨passed, split, last⟩ := first.passed
    obtain ⟨more, split', last'⟩ := second.passed
    refine ⟨passed ++ more, by rw [split, split', List.append_assoc], ?_⟩
    rw [last', last, List.getLast?_append]
    cases more.getLast? <;> rfl
  extent := second.extent.trans first.extent
  finish := second.finish.trans first.finish
  breakModes := second.breakModes.trans first.breakModes
  kept := fun d member => second.kept d (first.kept d member)
  ended := by
    rcases second.ended with same | ⟨reported, rest⟩
    · rcases first.ended with same' | ⟨⟨d, member, code⟩, rest⟩
      · exact .inl (same.trans same')
      · exact .inr ⟨⟨d, second.kept d member, code⟩, rest.imp_left second.nil_of_nil⟩
    · refine .inr ⟨reported, rest.imp_right fun ⟨a, member, kind⟩ => ?_⟩
      exact ⟨a, first.mem_of_mem member, kind⟩

theorem bump (s : State) : Runs s s.bump := by
  cases ahead : s.ahead with
  | nil =>
    have stays : s.bump = s := by rw [State.bump, ahead]
    rw [stays]
    exact refl s
  | cons next rest =>
    have bumped : s.bump =
        { s with
          ahead := rest
          lastStop := some next.token.stop
          record := s.record.token
          pieces := .token :: s.pieces } := by rw [State.bump, ahead]
    refine ⟨⟨[next], ?_, ?_⟩, ?_, ?_, ?_, ?_, ?_⟩
    · simp [ahead]
    · simp [bumped]
    · simp [State.extent, outline_bump, ahead]
      omega
    all_goals simp [bumped]

theorem report {code : DiagnosticCode} {message : String} {span : Span}
    (known : s.atEnd = true → code = .unexpectedEnd) : Runs s (s.report code message span) := by
  rw [State.report]
  split
  case isTrue => exact refl s
  case isFalse =>
    refine ⟨⟨[], rfl, rfl⟩, rfl, rfl, rfl, fun d member => ?_, ?_⟩
    · exact Diagnostics.mem_push.mpr (.inl member)
    cases atEnd : s.atEnd with
    | false => exact .inl (Bool.or_false _)
    | true =>
      refine .inr ⟨?_, ?_⟩
      · obtain ⟨d, member, -, code⟩ :=
          Diagnostics.exists_mem_push s.reports (.error code message span)
        exact ⟨d, member, code.trans (known atEnd)⟩
      · cases ahead : s.ahead with
        | nil => exact .inl rfl
        | cons next rest =>
          have here : s.kind = next.kind := congrArg Lookahead.kind (current_of_ahead ahead)
          exact .inr ⟨next, by simp, here.symm.trans (beq_iff_eq.mp atEnd)⟩

theorem unexpected (expected : String) (s : State) : Runs s (s.unexpected expected) :=
  report fun atEnd => if_pos atEnd

theorem missing (expected : String) (s : State) : Runs s (s.missing expected) := by
  rw [State.missing]
  split
  case isTrue => exact unexpected expected s
  case isFalse inside => exact report fun atEnd => absurd atEnd inside

theorem closeNode (kind : NodeKind) (run : Runs s.openNode s') :
    Runs s (State.closeNode s kind s') where
  passed := run.passed
  extent := by
    have inner := run.extent
    simp only [State.extent, outline_openNode, countAll_nil, Nat.zero_add] at inner
    simp only [State.extent, outline_closeNode, countAll_append, countAll_cons, count_node,
      countAll_nil, Nat.add_zero]
    change _ + s'.ahead.length = _
    change _ = s.ahead.length at inner
    omega
  finish := run.finish
  breakModes := run.breakModes
  kept := run.kept
  ended := run.ended

theorem closeWrap (kind : NodeKind) (run : Runs s.precedeNode s') :
    Runs s (State.closeWrap s kind s') where
  passed := run.passed
  extent := by
    have inner := run.extent
    simp only [State.extent, outline_precedeNode, countAll_nil, Nat.zero_add] at inner
    simp only [State.extent, outline_closeWrap, countAll_wrapLast, ahead_closeWrap]
    change _ = s.ahead.length at inner
    omega
  finish := run.finish
  breakModes := run.breakModes
  kept := run.kept
  ended := run.ended

/-- How deeply a state is nested and what is being read there makes no difference. -/
theorem of_context {depth depth' : Nat} {phases phases' : List Phase}
    (run : Runs { s with depth := depth, phases := phases } s') :
    Runs s { s' with depth := depth', phases := phases' } :=
  ⟨run.passed, run.extent, run.finish, run.breakModes, run.kept, run.ended⟩

theorem popBreaks {matter : Bool} (run : Runs (s.pushBreaks matter) s') : Runs s s'.popBreaks :=
  ⟨run.passed, run.extent, run.finish, congrArg List.tail run.breakModes, run.kept, run.ended⟩

/-- The laws of runs as a coupling, whatever the second run does. -/
def coupling : Coupling where
  Step s _ s' _ := Runs s s'
  refl s _ := refl s
  trans first second := first.trans second
  apart run _ := run
  adrift run _ := run
  shrinks run := run.shrinks
  progress_step run := .inr fun _ => run
  bump_step s _ := bump s
  unexpected_step expected s _ := unexpected expected s
  missing_step expected s _ := missing expected s
  tooDeep_step _ _ _ _ inside := report fun atEnd => absurd atEnd (Bool.eq_false_iff.mp inside)
  during_step _ _ _ _ _ run := of_context run
  breaks_step _ _ _ _ _ run := popBreaks run
  node_step _ run _ := run.closeNode _
  wrap_step kind _ _ _ _ _ run := run.closeWrap kind

instance : coupling.Nests := ⟨fun run => of_context run⟩

theorem blockClosed : Coupling.BlockClosed coupling := fun run => closeNode .block run

theorem of_coupled {r q : State → State} (coupled : coupling.Coupled r q) (s : State) :
    Runs s (r s) := coupled s s

theorem block (config : Config) (room : Nat) (s : State) :
    Runs s (Grammar.block config room s) :=
  of_coupled (Coupling.coupled_block blockClosed config room) s

theorem construct (config : Config) (room : Nat) (kind : Construct) (s : State) :
    Runs s (Grammar.construct config room kind s) :=
  of_coupled (Coupling.coupled_construct config room kind) s

theorem item (config : Config) (room : Nat) (s : State) :
    Runs s (Grammar.item config room s) :=
  of_coupled (Coupling.coupled_statementItem (Coupling.coupled_construct config room)
    (Coupling.coupled_block blockClosed config room) config) s

end Runs

end LosslessSyntax.Grammar
