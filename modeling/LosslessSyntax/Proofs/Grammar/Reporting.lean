import LosslessSyntax.Proofs.Grammar.Runs

/-! # What the grammar reports

The reports of the grammar are errors. That the text ends too early is reported once at most: at the
end, and only if it has not been reported before (`Reporting`).
-/

namespace LosslessSyntax.Grammar

open State

/-- The codes of the reports that the grammar makes. -/
def reportCodes : List DiagnosticCode :=
  [.unexpectedToken, .missingToken, .unexpectedEnd, .nestingTooDeep]

/-- A report that the grammar has made between two states. -/
structure Made (s s' : State) (d : Diagnostic) : Prop where
  severity : d.severity = .error
  code : d.code ∈ reportCodes
  /-- Where the end is reported, it has not been reported before. -/
  ending : d.code = .unexpectedEnd → s.endReported = false ∧ s'.endReported = true ∧
    (d.span = s.finish.token.span ∨ ∃ a ∈ s.ahead, a.kind = .eof)

/-- The only incomplete thing that the grammar reports is the end. -/
theorem Made.code_of_incomplete {s s' : State} {d : Diagnostic} (made : Made s s' d)
    (incomplete : d.kind = .incomplete) : d.code = .unexpectedEnd := by
  have only : ∀ code ∈ reportCodes, code.kind = .incomplete → code = .unexpectedEnd := by decide
  exact only d.code made.code incomplete

/-- What is true of every run, and of the reports that it makes. -/
structure Reporting (s s' : State) : Prop extends Runs s s' where
  made : ∀ d ∈ s'.reports.items, d ∈ s.reports.items ∨ Made s s' d
  known : s.endReported = true → s'.endReported = true

namespace Reporting

variable {s s' s'' : State}

/-- A run in which nothing is reported. -/
theorem silent (run : Runs s s') (same : s'.reports = s.reports)
    (ended : s'.endReported = s.endReported) : Reporting s s' :=
  ⟨run, fun _ member => .inl (same ▸ member), fun known => ended.trans known⟩

theorem refl (s : State) : Reporting s s := silent (.refl s) rfl rfl

theorem trans (first : Reporting s s') (second : Reporting s' s'') : Reporting s s'' where
  toRuns := first.toRuns.trans second.toRuns
  made := by
    intro d member
    rcases second.made d member with before | made
    · rcases first.made d before with known | made
      · exact .inl known
      · refine .inr ⟨made.severity, made.code, ?_⟩
        intro code
        obtain ⟨fresh, ended, place⟩ := made.ending code
        exact ⟨fresh, second.known ended, place⟩
    · refine .inr ⟨made.severity, made.code, ?_⟩
      intro code
      obtain ⟨fresh, ended, place⟩ := made.ending code
      refine ⟨?_, ended, ?_⟩
      · by_contra known
        exact absurd (first.known (eq_true_of_ne_false known)) (Bool.eq_false_iff.mp fresh)
      · rcases place with finish | ⟨a, ahead, kind⟩
        · exact .inl (first.finish ▸ finish)
        · exact .inr ⟨a, first.mem_of_mem ahead, kind⟩
  known := fun known => second.known (first.known known)

theorem bump (s : State) : Reporting s s.bump := by
  apply silent (.bump s)
  all_goals
    rw [State.bump]
    split <;> rfl

/-- A report of the grammar: at the end it says so and stands there. -/
theorem report {code : DiagnosticCode} {message : String} {span : Span} (known : code ∈ reportCodes)
    (ending : s.atEnd = true ↔ code = .unexpectedEnd)
    (place : s.atEnd = true → span = s.current.token.span) :
    Reporting s (s.report code message span) := by
  have run : Runs s (s.report code message span) := .report ending.mp
  revert run
  rw [State.report]
  split
  case isTrue => exact fun _ => refl s
  case isFalse fresh =>
    intro run
    refine ⟨run, ?_, ?_⟩
    · intro d member
      rcases Diagnostics.mem_push.mp member with before | ⟨rfl, -⟩
      · exact .inl before
      refine .inr ⟨rfl, known, ?_⟩
      intro atEnd
      have atEnd : s.atEnd = true := ending.mpr atEnd
      rw [atEnd, Bool.true_and] at fresh
      refine ⟨Bool.eq_false_iff.mpr fresh, ?_, ?_⟩
      · simp only [atEnd, Bool.or_true]
      · cases ahead : s.ahead with
        | nil =>
          left
          apply (place atEnd).trans
          rw [current, ahead, List.headD_nil]
        | cons next rest =>
          have here : s.kind = next.kind := congrArg Lookahead.kind (current_of_ahead ahead)
          exact .inr ⟨next, List.mem_cons_self, here.symm.trans (beq_iff_eq.mp atEnd)⟩
    · intro known
      simp only [known, Bool.true_or]

theorem unexpected (expected : String) (s : State) : Reporting s (s.unexpected expected) := by
  rw [State.unexpected]
  refine report ?_ ?_ fun _ => rfl
  · split <;> decide
  · cases s.atEnd <;> simp

theorem missing (expected : String) (s : State) : Reporting s (s.missing expected) := by
  rw [State.missing]
  split
  case isTrue => exact unexpected expected s
  case isFalse inside =>
    refine report (by decide) ⟨fun atEnd => absurd atEnd inside, fun code => ?_⟩
      fun atEnd => absurd atEnd inside
    exact absurd code (by decide)

/-- What only concerns the context of a state makes no difference. -/
theorem congr {t t' : State} (reporting : Reporting t t') (run : Runs s s')
    (before : t.reports = s.reports ∧ t.endReported = s.endReported ∧ t.finish = s.finish ∧
      t.ahead = s.ahead)
    (after : t'.reports = s'.reports ∧ t'.endReported = s'.endReported) : Reporting s s' := by
  obtain ⟨reports, ended, finish, ahead⟩ := before
  obtain ⟨reports', ended'⟩ := after
  refine ⟨run, ?_, ?_⟩
  · intro d member
    rw [← reports'] at member
    rw [← reports]
    rcases reporting.made d member with before | made
    · exact .inl before
    · refine .inr ⟨made.severity, made.code, ?_⟩
      rw [← ended, ← ended', ← finish, ← ahead]
      exact made.ending
  · intro known
    rw [← ended']
    exact reporting.known (ended.trans known)

theorem of_context {depth depth' : Nat} {phases phases' : List Phase}
    (inner : Reporting { s with depth := depth, phases := phases } s') :
    Reporting s { s' with depth := depth', phases := phases' } :=
  inner.congr inner.toRuns.of_context ⟨rfl, rfl, rfl, rfl⟩ ⟨rfl, rfl⟩

theorem popBreaks {matter : Bool} (inner : Reporting (s.pushBreaks matter) s') :
    Reporting s s'.popBreaks :=
  inner.congr inner.toRuns.popBreaks ⟨rfl, rfl, rfl, rfl⟩ ⟨rfl, rfl⟩

theorem closeNode (kind : NodeKind) (inner : Reporting s.openNode s') :
    Reporting s (State.closeNode s kind s') :=
  inner.congr (inner.toRuns.closeNode kind) ⟨rfl, rfl, rfl, rfl⟩ ⟨rfl, rfl⟩

theorem closeWrap (kind : NodeKind) (inner : Reporting s.precedeNode s') :
    Reporting s (State.closeWrap s kind s') :=
  inner.congr (inner.toRuns.closeWrap kind) ⟨rfl, rfl, rfl, rfl⟩ ⟨rfl, rfl⟩

/-- The laws of reporting as a coupling, whatever the second run does. -/
def coupling : Coupling where
  Step s _ s' _ := Reporting s s'
  refl s _ := refl s
  trans first second := first.trans second
  apart run _ := run
  adrift run _ := run
  shrinks run := run.toRuns.shrinks
  progress_step run := .inr fun _ => run
  bump_step s _ := bump s
  unexpected_step expected s _ := unexpected expected s
  missing_step expected s _ := missing expected s
  tooDeep_step _ _ _ _ inside := by
    have inside := Bool.eq_false_iff.mp inside
    exact report (by decide) ⟨fun atEnd => absurd atEnd inside, nofun⟩ fun atEnd => absurd atEnd inside
  during_step _ _ _ _ _ run := of_context run
  breaks_step _ _ _ _ _ run := popBreaks run
  node_step _ run _ := run.closeNode _
  wrap_step kind _ _ _ _ _ run := run.closeWrap kind

instance : coupling.Nests := ⟨fun run => of_context run⟩

theorem of_coupled {r q : State → State} (coupled : coupling.Coupled r q) (s : State) :
    Reporting s (r s) := coupled s s

theorem item (config : Config) (room : Nat) (s : State) :
    Reporting s (Grammar.item config room s) :=
  of_coupled (Coupling.coupled_statementItem (Coupling.coupled_construct config room)
    (Coupling.coupled_block (closeNode .block) config room) config) s

theorem block (config : Config) (room : Nat) (s : State) :
    Reporting s (Grammar.block config room s) :=
  of_coupled (Coupling.coupled_block (closeNode .block) config room) s

end Reporting

end LosslessSyntax.Grammar
