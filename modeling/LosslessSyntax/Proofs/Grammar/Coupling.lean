import LosslessSyntax.Grammar.Program

/-! # Two runs of the grammar side by side

A rule looks at nothing but the current token, and does nothing but a few things to a state. So a
relation between two runs that survives these few things survives every rule. `Coupling` is such a
relation, between a pair of states and a later pair, and `Coupling.Coupled` says that two rules
keep to it. The rules of the grammar are coupled with themselves in `Proofs.Grammar.Rules`, once for
all relations; each law about runs then chooses a relation.

While both states show the same to a rule (`Agree`), both runs take the same way. Once they do not,
the relation has to be one that no longer depends on the second run.
-/

namespace LosslessSyntax.Grammar

open State

/-- Two states in which every test of the grammar has the same result. -/
structure Agree (s t : State) : Prop where
  kind : s.kind = t.kind
  text : s.kind = .symbol → s.text = t.text
  atBreak : s.atBreak = t.atBreak
  empty : s.ahead = [] ↔ t.ahead = []

theorem Agree.refl (s : State) : Agree s s := ⟨rfl, fun _ => rfl, rfl, Iff.rfl⟩

/-- For every state there is one that shows something else. -/
theorem exists_not_agree (s : State) : ∃ t, ¬ Agree s t := by
  by_cases same : s.kind = .comma
  · refine ⟨{ s with ahead := [⟨⟨.colon, "", default⟩, false⟩] }, fun agree => ?_⟩
    have other := agree.kind
    rw [same] at other
    exact nomatch other
  · exact ⟨{ s with ahead := [⟨⟨.comma, "", default⟩, false⟩] }, fun agree => same agree.kind⟩

/-- A relation between two runs that survives everything that rules do but for entering a level of
nesting: `Step s t s' t'` relates runs from `s` to `s'` and from `t` to `t'`. -/
structure Coupling where
  Step : (s t s' t' : State) → Prop
  refl (s t : State) : Step s t s t
  trans {s t s' t' s'' t'' : State} :
    Step s t s' t' → Step s' t' s'' t'' → Step s t s'' t''
  /-- Between states that differ for the grammar only the first run counts. -/
  apart {s t u s' t' u' : State} : Step s u s' u' → ¬ Agree s t → Step s t s' t'
  /-- Runs that have come to differ for the grammar leave the second one free. -/
  adrift {s t s' t' u : State} : Step s t s' t' → ¬ Agree s' t' → Step s t s' u
  shrinks {s t s' t' : State} : Step s t s' t' → s'.ahead.length ≤ s.ahead.length
  progress_step {s t s' t' : State} : Step s t s' t' →
    (t'.ahead.length ≤ t.ahead.length ∧
      (s'.ahead.length < s.ahead.length ↔ t'.ahead.length < t.ahead.length)) ∨
        ∀ u, Step s t s' u
  bump_step (s t : State) : Step s t s.bump t.bump
  unexpected_step (expected : String) (s t : State) :
    Step s t (s.unexpected expected) (t.unexpected expected)
  missing_step (expected : String) (s t : State) :
    Step s t (s.missing expected) (t.missing expected)
  tooDeep_step (limit : Nat) {s t : State} : Agree s t → s.atEnd = false →
    Step s t (s.report .nestingTooDeep (depthMessage limit) s.current.token.span)
      (t.report .nestingTooDeep (depthMessage limit) t.current.token.span)
  during_step (phase : Phase) {s t s' t' : State} :
    Step { s with phases := phase :: s.phases } { t with phases := phase :: t.phases } s' t' →
      Step s t { s' with phases := s'.phases.tail } { t' with phases := t'.phases.tail }
  breaks_step (matter : Bool) {s t s' t' : State} :
    Step (s.pushBreaks matter) (t.pushBreaks matter) s' t' → Step s t s'.popBreaks t'.popBreaks
  node_step {kind kind' : NodeKind} {s t s' t' : State} : kind ≠ .block →
    Step s.openNode t.openNode s' t' →
    (kind = kind' ∨ ∀ u, Step s.openNode t.openNode s' u) →
      Step s t (closeNode s kind s') (closeNode t kind' t')
  wrap_step (kind : NodeKind) {s t s' t' : State} : kind ≠ .block →
    Step s.precedeNode t.precedeNode s' t' → Step s t (closeWrap s kind s') (closeWrap t kind t')

namespace Coupling

/-- A coupling that survives a level of nesting. A relation that says how deeply the two runs are
nested need not. -/
class Nests (C : Coupling) : Prop where
  nested_step {s t s' t' : State} :
    C.Step { s with depth := s.depth + 1 } { t with depth := t.depth + 1 } s' t' →
      C.Step s t { s' with depth := s'.depth - 1 } { t' with depth := t'.depth - 1 }

variable (C : Coupling)

/-- Runs of two rules keep to the relation. -/
def Coupled (r q : State → State) : Prop := ∀ s t, C.Step s t (r s) (q t)

/-- Runs of two rules keep to the relation, and their answers are the same as long as the second
run counts. -/
def CoupledWith {α : Type} (r q : State → α × State) : Prop :=
  ∀ s t, C.Step s t (r s).2 (q t).2 ∧ ((r s).1 = (q t).1 ∨ ∀ u, C.Step s t (r s).2 u)

/-- A question to a state that the grammar may ask. -/
def Tested {α : Type} (test : State → α) : Prop := ∀ ⦃s t⦄, Agree s t → test s = test t

variable {C}

/-- Against states in which the tests have other results there is nothing to show. -/
theorem step_at {s s' : State} {q : State → State}
    (agreeing : ∀ t, Agree s t → C.Step s t s' (q t)) (t : State) : C.Step s t s' (q t) := by
  by_cases agree : Agree s t
  · exact agreeing t agree
  · exact C.apart (agreeing s (.refl s)) agree

theorem Coupled.of_agree {r q : State → State}
    (agreeing : ∀ s t, Agree s t → C.Step s t (r s) (q t)) : C.Coupled r q :=
  fun s => step_at (agreeing s)

/-- Once the second run is free it stays so. -/
theorem free_then {s t s' s'' : State} {f : State → State} (free : ∀ u, C.Step s t s' u)
    (next : ∀ u, C.Step s' u s'' (f u)) (u : State) : C.Step s t s'' u := by
  obtain ⟨other, differs⟩ := exists_not_agree s'
  exact C.trans (free other) (C.apart (next other) differs)

theorem Coupled.free {s t s' : State} {r q : State → State} (coupled : C.Coupled r q)
    (free : ∀ u, C.Step s t s' u) (u : State) : C.Step s t (r s') u :=
  free_then free (fun other => coupled s' other) u

theorem Coupled.id : C.Coupled (fun s => s) (fun s => s) := fun s t => C.refl s t

theorem Coupled.comp {r q r' q' : State → State} (second : C.Coupled r' q')
    (first : C.Coupled r q) : C.Coupled (fun s => r' (r s)) (fun t => q' (q t)) :=
  fun s t => C.trans (first s t) (second (r s) (q t))

/-- A rule that chooses between two by a test. -/
theorem Coupled.ite {test : State → Bool} {r q r' q' : State → State} (tested : Tested test)
    (yes : C.Coupled r q) (no : C.Coupled r' q') :
    C.Coupled (fun s => if test s then r s else r' s) (fun t => if test t then q t else q' t) := by
  refine .of_agree fun s t agree => ?_
  simp only [tested agree]
  split
  · exact yes s t
  · exact no s t

/-- A rule that chooses by an answer to a test. -/
theorem Coupled.byTest {α : Type} {test : State → α} {r q : α → State → State}
    (tested : Tested test) (each : ∀ answer, C.Coupled (r answer) (q answer)) :
    C.Coupled (fun s => r (test s) s) (fun t => q (test t) t) := by
  refine .of_agree fun s t agree => ?_
  simp only [tested agree]
  exact each _ s t

theorem agree_at {α : Type} {s s' : State} {answer : α} {q : State → α × State}
    (agreeing : ∀ t, Agree s t →
      C.Step s t s' (q t).2 ∧ (answer = (q t).1 ∨ ∀ u, C.Step s t s' u)) (t : State) :
    C.Step s t s' (q t).2 ∧ (answer = (q t).1 ∨ ∀ u, C.Step s t s' u) := by
  by_cases agree : Agree s t
  · exact agreeing t agree
  · have free := fun u => @C.apart _ _ _ _ u _ (agreeing s (.refl s)).1 agree
    exact ⟨free _, .inr free⟩

theorem CoupledWith.of_agree {α : Type} {r q : State → α × State}
    (agreeing : ∀ s t, Agree s t →
      C.Step s t (r s).2 (q t).2 ∧ ((r s).1 = (q t).1 ∨ ∀ u, C.Step s t (r s).2 u)) :
    C.CoupledWith r q :=
  fun s => agree_at (agreeing s)

/-- A rule with the answer to a test before it. -/
theorem CoupledWith.answering {α : Type} {test : State → α} {r q : State → State}
    (tested : Tested test) (coupled : C.Coupled r q) :
    C.CoupledWith (fun s => (test s, r s)) (fun t => (test t, q t)) :=
  .of_agree fun s t agree => ⟨coupled s t, .inl (tested agree)⟩

/-- A rule with a fixed answer. -/
theorem CoupledWith.always {α : Type} (answer : α) {r q : State → State} (coupled : C.Coupled r q) :
    C.CoupledWith (fun s => (answer, r s)) (fun t => (answer, q t)) :=
  fun s t => ⟨coupled s t, .inl rfl⟩

theorem CoupledWith.ite {α : Type} {test : State → Bool} {r q r' q' : State → α × State}
    (tested : Tested test) (yes : C.CoupledWith r q) (no : C.CoupledWith r' q') :
    C.CoupledWith (fun s => if test s then r s else r' s)
      (fun t => if test t then q t else q' t) := by
  refine .of_agree fun s t agree => ?_
  simp only [tested agree]
  split
  · exact yes s t
  · exact no s t

theorem CoupledWith.byTest {α β : Type} {test : State → β} {r q : β → State → α × State}
    (tested : Tested test) (each : ∀ answer, C.CoupledWith (r answer) (q answer)) :
    C.CoupledWith (fun s => r (test s) s) (fun t => q (test t) t) := by
  refine .of_agree fun s t agree => ?_
  simp only [tested agree]
  exact each _ s t

/-- A rule, and then one that answers. -/
theorem CoupledWith.after {α : Type} {r q : State → State} {r' q' : State → α × State}
    (second : C.CoupledWith r' q') (first : C.Coupled r q) :
    C.CoupledWith (fun s => r' (r s)) (fun t => q' (q t)) := by
  intro s t
  refine ⟨C.trans (first s t) (second (r s) (q t)).1, ?_⟩
  exact (second (r s) (q t)).2.imp_right fun free u => C.trans (first s t) (free u)

/-- A rule that answers, and then one that depends on the answer. -/
theorem CoupledWith.bind {α : Type} {r q : State → α × State} {r' q' : α → State → State}
    (first : C.CoupledWith r q) (second : ∀ answer, C.Coupled (r' answer) (q' answer)) :
    C.Coupled (fun s => r' (r s).1 (r s).2) (fun t => q' (q t).1 (q t).2) := by
  intro s t
  obtain ⟨step, same | free⟩ := first s t
  · have next := second (r s).1 (r s).2 (q t).2
    rw [same] at next
    simpa only [same] using C.trans step next
  · exact (second (r s).1).free free _

/-- A rule that answers, and then one that leaves the answer as it is. -/
theorem CoupledWith.thenKeep {α : Type} {r q : State → α × State} {r' q' : State → State}
    (first : C.CoupledWith r q) (second : C.Coupled r' q') :
    C.CoupledWith (fun s => ((r s).1, r' (r s).2)) (fun t => ((q t).1, q' (q t).2)) := by
  intro s t
  obtain ⟨step, same⟩ := first s t
  exact ⟨C.trans step (second _ _), same.imp_right fun free => second.free free⟩

/-- Loops keep to the relation if their steps do. -/
theorem Coupled.repeatStep {r q : State → Bool × State} (each : C.CoupledWith r q) :
    C.Coupled (repeatStep r) (repeatStep q) := by
  intro s
  induction size : s.ahead.length using Nat.strongRecOn generalizing s with
  | _ n ih =>
  intro t
  have onward (smaller : (r s).2.ahead.length < s.ahead.length) (u : State) :
      C.Step (r s).2 u (State.repeatStep r (r s).2) (State.repeatStep q u) :=
    ih _ (size ▸ smaller) _ rfl u
  obtain ⟨step, same⟩ := each s t
  have settled : ((r s).1 = (q t).1 ∧
      ((r s).2.ahead.length < s.ahead.length ↔ (q t).2.ahead.length < t.ahead.length)) ∨
      ∀ u, C.Step s t (r s).2 u := by
    rcases same with same | free
    · exact (C.progress_step step).imp_left fun lengths => ⟨same, lengths.2⟩
    · exact .inr free
  rw [State.repeatStep.eq_1 r s]
  rcases settled with ⟨flag, lengths⟩ | free
  · rw [State.repeatStep.eq_1 q t]
    simp only [← flag, ← lengths]
    split
    case isTrue continues => exact C.trans step (onward continues.2 _)
    case isFalse => exact step
  · split
    case isTrue continues => exact free_then free (onward continues.2) _
    case isFalse => exact free _

end Coupling

end LosslessSyntax.Grammar
