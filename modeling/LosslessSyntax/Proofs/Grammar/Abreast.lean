import Mathlib.Data.List.Forall2
import LosslessSyntax.Proofs.Grammar.Runs

/-! # Runs over similar tokens

Two runs over tokens that look the same to the grammar (`Seen`) take the same way and group the
tokens in the same way. The tokens need to look the same only up to a place: `Abreast L u u' s t`
says that the tokens ahead of `s` and `t` are related one by one until `u` and `u'` are left, of
which only the first count. If the link `L` asks for it, the two runs also make the same reports, at
spans that are related as those of the tokens are.
-/

namespace LosslessSyntax.Grammar

open State

/-- Two tokens that the grammar cannot tell apart. -/
structure Seen (a b : Lookahead) : Prop where
  kind : a.kind = b.kind
  text : a.kind = .symbol → a.token.text = b.token.text
  afterBreak : a.afterBreak = b.afterBreak

/-- How two texts are linked. -/
structure Link where
  /-- Which spans correspond to each other. -/
  span : Span → Span → Prop
  /-- Whether the reports have to correspond. -/
  reports : Prop

/-- Two tokens that are alike and may be reported. -/
structure Facing (L : Link) (a b : Lookahead) : Prop extends Seen a b where
  span : L.span a.token.span b.token.span

/-- Two tokens that are alike, may be reported and may be consumed. -/
structure Matched (L : Link) (a b : Lookahead) : Prop extends Facing L a b where
  stop : L.span (.empty a.token.stop) (.empty b.token.stop)
  inside : a.kind ≠ .eof

/-- Two diagnostics that differ in their spans alone. -/
structure SameReport (L : Link) (d e : Diagnostic) : Prop where
  severity : d.severity = e.severity
  code : d.code = e.code
  message : d.message = e.message
  span : L.span d.span e.span

/-- The reports made by two runs are related one by one. -/
def Logged (L : Link) (s t s' t' : State) : Prop :=
  L.reports → ∃ log log', s'.reports = s.reports.extend log ∧ t'.reports = t.reports.extend log' ∧
    List.Forall₂ (SameReport L) log log'

/-- Where something is missing that should come before the current token. -/
def State.gap (s : State) : Span := .empty (s.lastStop.getD s.current.token.start)

/-- Two states of which the tokens ahead are related one by one until `u` and `u'` are left. -/
structure Abreast (L : Link) (u u' : List Lookahead) (s t : State) : Prop where
  ahead : ∃ w w', s.ahead = w ++ u ∧ t.ahead = w' ++ u' ∧ List.Forall₂ (Matched L) w w'
  next : Facing L (u.headD s.finish) (u'.headD t.finish)
  empty : u = [] ↔ u' = []
  modes : s.breakModes.headD true = t.breakModes.headD true
  gap : L.span s.gap t.gap
  ended : L.reports → (u.headD s.finish).kind = .eof → s.endReported = t.endReported

variable {L : Link} {u u' : List Lookahead} {s t s' t' s'' t'' : State}

theorem Logged.refl (s t : State) : Logged L s t s t := fun _ => ⟨[], [], rfl, rfl, .nil⟩

theorem Logged.trans (first : Logged L s t s' t') (second : Logged L s' t' s'' t'') :
    Logged L s t s'' t'' := by
  intro asked
  obtain ⟨log, log', made, made', same⟩ := first asked
  obtain ⟨more, more', made₂, made₂', same'⟩ := second asked
  refine ⟨log ++ more, log' ++ more', ?_, ?_, List.rel_append same same'⟩
  · rw [made₂, made, Diagnostics.extend_append]
  · rw [made₂', made', Diagnostics.extend_append]

/-- The link of a text with itself. -/
def Link.same : Link := ⟨Eq, True⟩

theorem SameReport.eq_of_span {d e : Diagnostic} (same : SameReport L d e) (span : d.span = e.span) :
    d = e := by
  obtain ⟨severity, code, message, -⟩ := same
  cases d
  cases e
  simp_all

theorem SameReport.eq {d e : Diagnostic} (same : SameReport .same d e) : d = e :=
  same.eq_of_span same.span

theorem Logged.same (logged : Logged .same s t s' t') :
    ∃ log, s'.reports = s.reports.extend log ∧ t'.reports = t.reports.extend log := by
  obtain ⟨log, log', made, made', same⟩ := logged trivial
  have equal : log = log' := by
    rw [← List.forall₂_eq_eq_eq]
    exact same.imp fun d e => SameReport.eq
  exact ⟨log, made, equal ▸ made'⟩

namespace Abreast

theorem length_eq (abreast : Abreast L u u' s t) :
    ∃ count, s.ahead.length = count + u.length ∧ t.ahead.length = count + u'.length := by
  obtain ⟨w, w', split, split', matched⟩ := abreast.ahead
  refine ⟨w.length, ?_, ?_⟩
  · rw [split, List.length_append]
  · rw [split', List.length_append, matched.length_eq]

theorem nil_iff (abreast : Abreast L u u' s t) : s.ahead = [] ↔ t.ahead = [] := by
  obtain ⟨w, w', split, split', matched⟩ := abreast.ahead
  have empty := abreast.empty
  rw [split, split', List.append_eq_nil_iff, List.append_eq_nil_iff, empty]
  have lengths := matched.length_eq
  rw [← List.length_eq_zero_iff, lengths, List.length_eq_zero_iff]

theorem current (abreast : Abreast L u u' s t) : Facing L s.current t.current := by
  obtain ⟨w, w', split, split', matched⟩ := abreast.ahead
  rw [State.current, State.current, split, split']
  cases matched with
  | nil => exact abreast.next
  | cons first _ => exact first.toFacing

theorem agree (abreast : Abreast L u u' s t) : Agree s t where
  kind := abreast.current.kind
  text := abreast.current.text
  atBreak := by
    have current := abreast.current.afterBreak
    rw [State.atBreak, State.atBreak, abreast.modes, current]
  empty := abreast.nil_iff

theorem endReported_eq (abreast : Abreast L u u' s t) (asked : L.reports)
    (atEnd : s.atEnd = true) : s.endReported = t.endReported := by
  refine abreast.ended asked ?_
  obtain ⟨w, w', split, split', matched⟩ := abreast.ahead
  have kind : s.current.kind = .eof := beq_iff_eq.mp atEnd
  rw [State.current, split] at kind
  cases matched with
  | nil => exact kind
  | cons first _ => exact absurd kind first.inside

theorem of_context (abreast : Abreast L u u' s t) {depth depth' : Nat}
    {phases phases' : List Phase} :
    Abreast L u u' { s with depth := depth, phases := phases }
      { t with depth := depth', phases := phases' } :=
  ⟨abreast.ahead, abreast.next, abreast.empty, abreast.modes, abreast.gap, abreast.ended⟩

theorem openNode (abreast : Abreast L u u' s t) : Abreast L u u' s.openNode t.openNode :=
  ⟨abreast.ahead, abreast.next, abreast.empty, abreast.modes, abreast.gap, abreast.ended⟩

theorem precedeNode (abreast : Abreast L u u' s t) :
    Abreast L u u' s.precedeNode t.precedeNode :=
  ⟨abreast.ahead, abreast.next, abreast.empty, abreast.modes, abreast.gap, abreast.ended⟩

theorem closeNode {kind kind' : NodeKind} (abreast : Abreast L u u' s' t') :
    Abreast L u u' (closeNode s kind s') (State.closeNode t kind' t') :=
  ⟨abreast.ahead, abreast.next, abreast.empty, abreast.modes, abreast.gap, abreast.ended⟩

theorem closeWrap {kind kind' : NodeKind} (abreast : Abreast L u u' s' t') :
    Abreast L u u' (closeWrap s kind s') (State.closeWrap t kind' t') :=
  ⟨abreast.ahead, abreast.next, abreast.empty, abreast.modes, abreast.gap, abreast.ended⟩

theorem pushBreaks (matter : Bool) (abreast : Abreast L u u' s t) :
    Abreast L u u' (s.pushBreaks matter) (t.pushBreaks matter) :=
  ⟨abreast.ahead, abreast.next, abreast.empty, rfl, abreast.gap, abreast.ended⟩

theorem popBreaks {matter : Bool} (run : Runs (s.pushBreaks matter) s')
    (run' : Runs (t.pushBreaks matter) t') (modes : s.breakModes.headD true = t.breakModes.headD true)
    (abreast : Abreast L u u' s' t') : Abreast L u u' s'.popBreaks t'.popBreaks := by
  refine ⟨abreast.ahead, abreast.next, abreast.empty, ?_, abreast.gap, abreast.ended⟩
  simp only [State.popBreaks, run.breakModes, run'.breakModes]
  exact modes

/-- A report of the same thing in both states. -/
theorem report (abreast : Abreast L u u' s t) (code : DiagnosticCode) (message : String)
    {span span' : Span} (related : L.span span span') :
    Abreast L u u' (s.report code message span) (t.report code message span') ∧
      Logged L s t (s.report code message span) (t.report code message span') := by
  have atEnd : s.atEnd = t.atEnd := Coupling.tested_atEnd abreast.agree
  have stays (asked : L.reports) : (s.atEnd && s.endReported) = (t.atEnd && t.endReported) := by
    cases here : s.atEnd with
    | false => rw [← atEnd, here]; rfl
    | true => rw [← atEnd, here, abreast.endReported_eq asked here]
  constructor
  · refine ⟨?_, ?_, abreast.empty, ?_, ?_, fun asked kind => ?_⟩
    · rw [ahead_report, ahead_report]
      exact abreast.ahead
    · rw [finish_report, finish_report]
      exact abreast.next
    · rw [breakModes_report, breakModes_report]
      exact abreast.modes
    · rw [State.gap, State.gap, lastStop_report, lastStop_report, current_report, current_report]
      exact abreast.gap
    · rw [finish_report] at kind
      have same := abreast.ended asked kind
      simp only [State.report, ← stays asked]
      split
      · exact same
      · simp only [same, atEnd]
  · intro asked
    simp only [State.report, ← stays asked]
    split
    · exact ⟨[], [], rfl, rfl, .nil⟩
    · exact ⟨[.error code message span], [.error code message span'], rfl, rfl,
        .cons ⟨rfl, rfl, rfl, related⟩ .nil⟩

end Abreast

/-- Two runs that keep abreast. -/
structure Keeps (L : Link) (u u' : List Lookahead) (s t s' t' : State) : Prop where
  abreast : Abreast L u u' s' t'
  logged : Logged L s t s' t'
  run : Runs t t'

namespace Keeps

theorem refl (abreast : Abreast L u u' s t) : Keeps L u u' s t s t := ⟨abreast, .refl s t, .refl t⟩

theorem trans (first : Keeps L u u' s t s' t') (second : Keeps L u u' s' t' s'' t'') :
    Keeps L u u' s t s'' t'' :=
  ⟨second.abreast, first.logged.trans second.logged, first.run.trans second.run⟩

theorem bump (abreast : Abreast L u u' s t) (within : u.length ≤ s.bump.ahead.length) :
    Keeps L u u' s t s.bump t.bump := by
  refine ⟨?_, ?_, .bump t⟩
  · obtain ⟨w, w', split, split', matched⟩ := abreast.ahead
    cases matched with
    | nil =>
      have none : u = [] := by
        rw [ahead_bump, split, List.nil_append, List.length_tail] at within
        exact List.length_eq_zero_iff.mp (by omega)
      have stays : s.bump = s := by rw [State.bump, split, List.nil_append, none]
      have stays' : t.bump = t := by
        rw [State.bump, split', List.nil_append, abreast.empty.mp none]
      rw [stays, stays']
      exact abreast
    | cons first rest =>
      have bumped := congrArg List.tail split
      have bumped' := congrArg List.tail split'
      rw [← ahead_bump] at bumped bumped'
      simp only [State.bump, split, split', List.cons_append]
      exact ⟨⟨_, _, rfl, rfl, rest⟩, abreast.next, abreast.empty, abreast.modes,
        first.stop, abreast.ended⟩
  · have kept (s : State) : s.bump.reports = s.reports := by rw [State.bump]; split <;> rfl
    exact fun _ => ⟨[], [], kept s, kept t, .nil⟩

theorem unexpected (expected : String) (abreast : Abreast L u u' s t) :
    Keeps L u u' s t (s.unexpected expected) (t.unexpected expected) := by
  have agree := abreast.agree
  have reported := abreast.report (if s.atEnd then .unexpectedEnd else .unexpectedToken)
    (expectation expected s.kind) abreast.current.span
  refine ⟨?_, ?_, .unexpected expected t⟩
  all_goals simp only [State.unexpected, ← agree.kind, ← Coupling.tested_atEnd agree]
  · exact reported.1
  · exact reported.2

theorem missing (expected : String) (abreast : Abreast L u u' s t) :
    Keeps L u u' s t (s.missing expected) (t.missing expected) := by
  have agree := abreast.agree
  simp only [State.missing, ← Coupling.tested_atEnd agree]
  split
  case isTrue => exact unexpected expected abreast
  case isFalse inside =>
    have reported := abreast.report .missingToken (expectation expected s.kind) abreast.gap
    rw [← agree.kind]
    refine ⟨reported.1, reported.2, .report fun atEnd => ?_⟩
    exact absurd ((Coupling.tested_atEnd agree).trans atEnd) inside

theorem tooDeep (limit : Nat) (abreast : Abreast L u u' s t) (inside : s.atEnd = false) :
    Keeps L u u' s t (s.report .nestingTooDeep (depthMessage limit) s.current.token.span)
      (t.report .nestingTooDeep (depthMessage limit) t.current.token.span) := by
  have reported := abreast.report .nestingTooDeep (depthMessage limit) abreast.current.span
  refine ⟨reported.1, reported.2, .report fun atEnd => ?_⟩
  have agree := Coupling.tested_atEnd abreast.agree
  rw [inside, atEnd] at agree
  exact nomatch agree

theorem popBreaks {matter : Bool} (run : Runs (s.pushBreaks matter) s')
    (abreast : Abreast L u u' s t)
    (keeps : Keeps L u u' (s.pushBreaks matter) (t.pushBreaks matter) s' t') :
    Keeps L u u' s t s'.popBreaks t'.popBreaks := by
  exact ⟨keeps.abreast.popBreaks run keeps.run abreast.modes, keeps.logged, keeps.run.popBreaks⟩

theorem of_context {depth₁ depth₂ depth₃ depth₄ : Nat} {phases₁ phases₂ phases₃ phases₄ : List Phase}
    (keeps : Keeps L u u' { s with depth := depth₁, phases := phases₁ }
      { t with depth := depth₂, phases := phases₂ } s' t') :
    Keeps L u u' s t { s' with depth := depth₃, phases := phases₃ }
      { t' with depth := depth₄, phases := phases₄ } :=
  ⟨keeps.abreast.of_context, keeps.logged, keeps.run.of_context⟩

theorem closeNode {kind kind' : NodeKind}
    (keeps : Keeps L u u' s.openNode t.openNode s' t') :
    Keeps L u u' s t (closeNode s kind s') (State.closeNode t kind' t') := by
  exact ⟨keeps.abreast.closeNode, keeps.logged, keeps.run.closeNode kind'⟩

theorem closeWrap (kind : NodeKind) (keeps : Keeps L u u' s.precedeNode t.precedeNode s' t') :
    Keeps L u u' s t (State.closeWrap s kind s') (State.closeWrap t kind t') :=
  ⟨keeps.abreast.closeWrap, keeps.logged, keeps.run.closeWrap kind⟩

end Keeps

/-- No state is abreast of every other. -/
theorem exists_not_abreast (L : Link) (u u' : List Lookahead) (s : State) :
    ∃ t, ¬ Abreast L u u' s t := by
  obtain ⟨t, differs⟩ := exists_not_agree s
  exact ⟨t, fun abreast => differs abreast.agree⟩

/-- As long as only related tokens have been consumed, two runs keep abreast and group the tokens in
the same way. -/
def abreastCoupling (L : Link) (u u' : List Lookahead) : Coupling where
  Step s t s' t' := Runs s s' ∧
    (Abreast L u u' s t → s.pieces = t.pieces → u.length ≤ s'.ahead.length →
      Keeps L u u' s t s' t' ∧ s'.pieces = t'.pieces)
  refl s t := ⟨.refl s, fun abreast same _ => ⟨.refl abreast, same⟩⟩
  trans := by
    rintro s t s' t' s'' t'' ⟨run, keeps⟩ ⟨run', keeps'⟩
    refine ⟨run.trans run', fun abreast same within => ?_⟩
    obtain ⟨first, same⟩ := keeps abreast same (Nat.le_trans within run'.shrinks)
    obtain ⟨second, same⟩ := keeps' first.abreast same within
    exact ⟨first.trans second, same⟩
  apart step differs := ⟨step.1, fun abreast => absurd abreast.agree differs⟩
  adrift step differs := ⟨step.1, fun abreast same within =>
    absurd (step.2 abreast same within).1.abreast.agree differs⟩
  shrinks step := step.1.shrinks
  progress_step := by
    rintro s t s' t' ⟨run, keeps⟩
    by_cases related : Abreast L u u' s t ∧ s.pieces = t.pieces ∧ u.length ≤ s'.ahead.length
    · obtain ⟨abreast, same, within⟩ := related
      obtain ⟨count, length, length'⟩ := abreast.length_eq
      obtain ⟨count', left, left'⟩ := (keeps abreast same within).1.abreast.length_eq
      have := run.shrinks
      exact .inl ⟨by omega, by omega⟩
    · exact .inr fun other => ⟨run, fun abreast same within =>
        absurd ⟨abreast, same, within⟩ related⟩
  bump_step s t := ⟨.bump s, fun abreast same within => by
    refine ⟨.bump abreast within, ?_⟩
    have empty := abreast.nil_iff
    rw [State.bump, State.bump]
    cases ahead : s.ahead <;> cases ahead' : t.ahead <;> simp_all⟩
  unexpected_step expected s t := ⟨.unexpected expected s, fun abreast same _ =>
    ⟨.unexpected expected abreast, by rw [pieces_unexpected, pieces_unexpected, same]⟩⟩
  missing_step expected s t := ⟨.missing expected s, fun abreast same _ =>
    ⟨.missing expected abreast, by rw [pieces_missing, pieces_missing, same]⟩⟩
  tooDeep_step limit s t _ inside :=
    ⟨.report fun atEnd => absurd atEnd (Bool.eq_false_iff.mp inside), fun abreast same _ =>
      ⟨.tooDeep limit abreast inside, by rw [pieces_report, pieces_report, same]⟩⟩
  during_step := by
    rintro phase s t s' t' ⟨run, keeps⟩
    refine ⟨run.of_context, fun abreast same within => ?_⟩
    obtain ⟨keeps, same⟩ := keeps abreast.of_context same within
    exact ⟨keeps.of_context, same⟩
  breaks_step := by
    rintro matter s t s' t' ⟨run, keeps⟩
    refine ⟨run.popBreaks, fun abreast same within => ?_⟩
    obtain ⟨keeps, same⟩ := keeps (abreast.pushBreaks matter) same within
    exact ⟨keeps.popBreaks run abreast, same⟩
  node_step := by
    rintro kind kind' s t s' t' - ⟨run, keeps⟩ kinds
    refine ⟨run.closeNode kind, fun abreast same within => ?_⟩
    have opened : Abreast L u u' s.openNode t.openNode := abreast.openNode
    obtain ⟨keeps, same'⟩ := keeps opened rfl within
    rcases kinds with rfl | free
    · exact ⟨keeps.closeNode, by simp only [closeNode, same, same']⟩
    · obtain ⟨other, differs⟩ := exists_not_abreast L u u' s'
      exact absurd ((free other).2 opened rfl within).1.abreast differs
  wrap_step := by
    rintro kind s t s' t' - ⟨run, keeps⟩
    refine ⟨run.closeWrap kind, fun abreast same within => ?_⟩
    obtain ⟨keeps, same'⟩ := keeps abreast.precedeNode rfl within
    exact ⟨keeps.closeWrap kind, by simp only [closeWrap, same, same']⟩

instance (L : Link) (u u' : List Lookahead) : (abreastCoupling L u u').Nests where
  nested_step := by
    rintro s t s' t' ⟨run, keeps⟩
    refine ⟨run.of_context, fun abreast same within => ?_⟩
    obtain ⟨keeps, same⟩ := keeps abreast.of_context same within
    exact ⟨keeps.of_context, same⟩

theorem abreast_blockClosed (L : Link) (u u' : List Lookahead) :
    Coupling.BlockClosed (abreastCoupling L u u') := by
  rintro s t s' t' ⟨run, keeps⟩
  refine ⟨run.closeNode .block, fun abreast same within => ?_⟩
  obtain ⟨keeps, same'⟩ := keeps abreast.openNode rfl within
  exact ⟨keeps.closeNode, by simp only [closeNode, same, same']⟩

end LosslessSyntax.Grammar
