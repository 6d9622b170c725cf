import LosslessSyntax.Proofs.Grammar.Programs

/-! # Where the grammar reports

A report is either about the end of the text, or about something before a token that has not been
consumed (`Situated`). This holds of every run that comes to its tokens one behind the other
(`situated_items`).
-/

namespace LosslessSyntax.Grammar

open State Lookahead

/-- The tokens ahead follow each other behind what was consumed, and the end comes after them. -/
structure State.InOrder (s : State) : Prop extends s.Proper where
  behind : ∀ a ∈ s.ahead, s.lastStop.getD 0 ≤ a.token.start
  apart : s.ahead.Pairwise fun a b => a.token.stop ≤ b.token.start

/-- A report is about the end of the text, or about something before a token ahead. -/
def Situated (s : State) (d : Diagnostic) : Prop :=
  (d.code = .unexpectedEnd ∧ d.span = s.finish.token.span) ∨
    (d.code ≠ .unexpectedEnd ∧ ∃ a ∈ s.ahead, d.span.start ≤ a.token.start)

/-- A run that makes reports at the end of the text and before the tokens ahead. -/
structure Situates (s s' : State) : Prop where
  inOrder : s'.InOrder
  reports : ∀ d ∈ s'.reports.items, d ∈ s.reports.items ∨ Situated s d

/-- States that differ in the open nodes and in the context alone. -/
structure SameCourse (s t : State) : Prop where
  ahead : s.ahead = t.ahead
  finish : s.finish = t.finish
  lastStop : s.lastStop = t.lastStop
  reports : s.reports = t.reports

variable {s t s' t' s'' : State}

theorem State.InOrder.of_same (inOrder : s.InOrder) (same : SameCourse t s) : t.InOrder := by
  refine ⟨⟨?_, ?_⟩, ?_, ?_⟩
  · rw [same.finish]
    exact inOrder.finish
  · rw [same.ahead]
    exact inOrder.inside
  · rw [same.ahead, same.lastStop]
    exact inOrder.behind
  · rw [same.ahead]
    exact inOrder.apart

theorem State.InOrder.current_mem (inOrder : s.InOrder) (inside : s.atEnd = false) :
    s.current ∈ s.ahead := by
  have some : s.ahead ≠ [] := fun none => by
    rw [inOrder.atEnd_iff.mpr none] at inside
    exact absurd inside (by decide)
  obtain ⟨next, rest, ahead, -⟩ := ahead_cons_of_inside some
  rw [current_of_ahead ahead, ahead]
  exact List.mem_cons_self

theorem State.InOrder.bump (inOrder : s.InOrder) : s.bump.InOrder := by
  cases ahead : s.ahead with
  | nil => rwa [State.bump, ahead]
  | cons next rest =>
    have apart := inOrder.apart
    rw [ahead] at apart
    obtain ⟨first, others⟩ := List.pairwise_cons.mp apart
    rw [State.bump, ahead]
    exact ⟨⟨inOrder.finish, fun a member => inOrder.inside a (by simp [ahead, member])⟩, first, others⟩

namespace Situates

theorem refl (inOrder : s.InOrder) : Situates s s := ⟨inOrder, fun _ => .inl⟩

theorem trans (run : Runs s s') (first : Situates s s') (second : Situates s' s'') :
    Situates s s'' := by
  refine ⟨second.inOrder, fun d member => ?_⟩
  rcases second.reports d member with member | situated
  · exact first.reports d member
  · refine .inr ?_
    rcases situated with ⟨code, span⟩ | ⟨code, a, member, start⟩
    · exact .inl ⟨code, by rw [span, run.finish]⟩
    · exact .inr ⟨code, a, run.mem_of_mem member, start⟩

theorem bump (inOrder : s.InOrder) : Situates s s.bump := by
  refine ⟨inOrder.bump, fun d member => .inl ?_⟩
  rw [State.bump] at member
  split at member <;> exact member

theorem report {code : DiagnosticCode} {message : String} {span : Span} (inOrder : s.InOrder)
    (situated : Situated s (.error code message span)) :
    Situates s (s.report code message span) := by
  rw [State.report]
  split
  · exact refl inOrder
  · refine ⟨⟨⟨inOrder.finish, inOrder.inside⟩, inOrder.behind, inOrder.apart⟩, fun d member => ?_⟩
    rcases Diagnostics.mem_push.mp member with member | ⟨rfl, -⟩
    · exact .inl member
    · exact .inr situated

/-- A report about the current token, or about what is before it. -/
theorem report_inside {code : DiagnosticCode} {message : String} {span : Span} (inOrder : s.InOrder)
    (inside : s.atEnd = false) (other : code ≠ .unexpectedEnd)
    (start : span.start ≤ s.current.token.start) : Situates s (s.report code message span) :=
  report inOrder (.inr ⟨other, s.current, inOrder.current_mem inside, start⟩)

theorem unexpected (expected : String) (inOrder : s.InOrder) :
    Situates s (s.unexpected expected) := by
  rw [State.unexpected]
  cases atEnd : s.atEnd with
  | true =>
    have none := inOrder.atEnd_iff.mp atEnd
    refine report inOrder (.inl ⟨rfl, ?_⟩)
    rw [State.current, none, List.headD_nil]
    rfl
  | false => exact report_inside inOrder atEnd (by decide) (Nat.le_refl _)

theorem missing (expected : String) (inOrder : s.InOrder) : Situates s (s.missing expected) := by
  rw [State.missing]
  cases atEnd : s.atEnd with
  | true => exact unexpected expected inOrder
  | false =>
    refine report_inside inOrder atEnd (by decide) ?_
    have behind := inOrder.behind _ (inOrder.current_mem atEnd)
    cases last : s.lastStop with
    | none => exact Nat.le_refl _
    | some stop =>
      rw [last] at behind
      exact behind

/-- Open nodes and the context make no difference. -/
theorem of_same (step : t.InOrder → Situates t t') (opened : SameCourse t s)
    (closed : SameCourse s' t') (inOrder : s.InOrder) : Situates s s' := by
  have inner := step (inOrder.of_same opened)
  refine ⟨inner.inOrder.of_same closed, fun d member => ?_⟩
  rw [closed.reports] at member
  have situated := inner.reports d member
  rwa [Situated, opened.ahead, opened.finish, opened.reports] at situated

theorem sameCourse_closeWrap (kind : NodeKind) (s s' : State) :
    SameCourse (closeWrap s kind s') s' := ⟨rfl, rfl, rfl, rfl⟩

/-- The law of situated reports as a coupling, whatever the second run does. -/
def coupling : Coupling where
  Step s _ s' _ := Runs s s' ∧ (s.InOrder → Situates s s')
  refl s _ := ⟨.refl s, refl⟩
  trans first second :=
    ⟨first.1.trans second.1, fun inOrder =>
      trans first.1 (first.2 inOrder) (second.2 (first.2 inOrder).inOrder)⟩
  apart step _ := step
  adrift step _ := step
  shrinks step := step.1.shrinks
  progress_step step := .inr fun _ => step
  bump_step s _ := ⟨.bump s, bump⟩
  unexpected_step expected s _ := ⟨.unexpected expected s, unexpected expected⟩
  missing_step expected s _ := ⟨.missing expected s, missing expected⟩
  tooDeep_step _ _ _ _ inside :=
    ⟨.report fun atEnd => absurd atEnd (Bool.eq_false_iff.mp inside), fun inOrder =>
      report_inside inOrder inside (by decide) (Nat.le_refl _)⟩
  during_step _ _ _ _ _ step :=
    ⟨step.1.of_context, of_same step.2 ⟨rfl, rfl, rfl, rfl⟩ ⟨rfl, rfl, rfl, rfl⟩⟩
  breaks_step _ _ _ _ _ step :=
    ⟨step.1.popBreaks, of_same step.2 ⟨rfl, rfl, rfl, rfl⟩ ⟨rfl, rfl, rfl, rfl⟩⟩
  node_step _ step _ :=
    ⟨step.1.closeNode _, of_same step.2 ⟨rfl, rfl, rfl, rfl⟩ ⟨rfl, rfl, rfl, rfl⟩⟩
  wrap_step kind _ _ _ _ _ step :=
    ⟨step.1.closeWrap kind, of_same step.2 ⟨rfl, rfl, rfl, rfl⟩ (sameCourse_closeWrap kind _ _)⟩

instance : coupling.Nests where
  nested_step step :=
    ⟨step.1.of_context, of_same step.2 ⟨rfl, rfl, rfl, rfl⟩ ⟨rfl, rfl, rfl, rfl⟩⟩

theorem blockClosed : Coupling.BlockClosed coupling := fun step =>
  ⟨step.1.closeNode .block, of_same step.2 ⟨rfl, rfl, rfl, rfl⟩ ⟨rfl, rfl, rfl, rfl⟩⟩

end Situates

/-- Sequences of statements make reports at the end of the text and before the tokens ahead. -/
theorem situated_items (config : Config) (room : Nat) {stop : State → Bool}
    (tested : Coupling.Tested stop) (inOrder : s.InOrder) :
    Situates s (items config room stop s) :=
  (coupled_items config room Situates.blockClosed tested s s).2 inOrder

theorem pairwise_tokensAt (position : Position) (lexemes : List Lexeme)
    (solid : ∀ lexeme ∈ lexemes, lexeme.chars ≠ []) :
    (Lexeme.tokensAt position lexemes).Pairwise fun a b => a.stop ≤ b.start := by
  induction lexemes generalizing position with
  | nil => exact .nil
  | cons first rest ih =>
    have solid' : ∀ lexeme ∈ rest, lexeme.chars ≠ [] :=
      fun lexeme member => solid lexeme (List.mem_cons_of_mem first member)
    refine .cons (fun token member => ?_) (ih _ solid')
    have behind := (Lexeme.mem_tokensAt solid' member).1
    rwa [Position.offset_after, ← Lexeme.stop_tokenAt] at behind

theorem sublist_ofTokens (broken : Bool) (tokens : List Token) :
    ((ofTokens broken tokens).map (·.token)).Sublist tokens := by
  induction tokens generalizing broken with
  | nil => exact .slnil
  | cons first rest ih =>
    rw [ofTokens]
    split
    · exact (ih false).cons_cons first
    · exact (ih _).cons first

theorem inOrder_programStart {length : Nat} {scanner : Scanner} (between : scanner.Between)
    (fresh : scanner.diagnostics = .empty) : (programStart length scanner).InOrder := by
  obtain ⟨ahead, -⟩ := programStart_eq length between fresh
  refine ⟨proper_programStart length between fresh, fun a _ => Nat.zero_le _, ?_⟩
  rw [ahead]
  have tokens := pairwise_tokensAt scanner.position scanner.ahead Lexeme.chars_ne_nil
  exact List.pairwise_map.mp (tokens.sublist (sublist_ofTokens false _))

end LosslessSyntax.Grammar
