import LosslessSyntax.Proofs.Derivation.Phrase
import LosslessSyntax.Proofs.Diagnostic.Merging

/-! # Runs over tokens that go on

Where the tokens of one state go on in another one, the two runs are the same up to the last of the
tokens that they share. At that place one state shows the end, and the other one a token on a new
line (`StartsAnew`). A rule that reports nothing takes no notice of the difference: it stops in both
states, or it has asked for more and reported the end.

`Settles` says this of a rule. Rules that begin with a token are met only before one (`Enters`), and
rules that cannot do without one report the end (`Demands`). These three are closed under the ways
in which the grammar makes rules of rules, with the couplings for what lies before the last part.
-/

namespace LosslessSyntax.Grammar

open State

variable {u : List Lookahead} {s s' t t' : State} {r r' : State → State}

/-- A token that does not go on with the statement before it: it is the first one of its line, and
neither `else` nor the bracket in front of type arguments. -/
structure StartsAnew (next : Lookahead) : Prop where
  afterBreak : next.afterBreak = true
  notElse : next.kind ≠ .elseWord
  notAngle : next.kind = .symbol → next.token.text ≠ "<"

/-- The tokens ahead of a state go on with others in a second state, and the first of these starts
anew. -/
structure Prolonged (u : List Lookahead) (s t : State) : Prop where
  proper : s.Proper
  ahead : t.ahead = s.ahead ++ u
  next : StartsAnew (u.headD t.finish)
  breaks : s.breakModes.headD true = true
  modes : t.breakModes = s.breakModes
  pieces : t.pieces = s.pieces
  reports : t.reports = s.reports

/-- The link of texts whose reports correspond, wherever they stand. -/
def Link.placeless : Link := ⟨fun _ _ => True, True⟩

/-- A rule that does the same wherever it sees the same tokens. -/
def Steady (r : State → State) : Prop :=
  ∀ u u', (abreastCoupling .placeless u u').Coupled r r

/-- A rule that does the same and answers the same wherever it sees the same tokens. -/
def SteadyWith {α : Type} (r : State → α × State) : Prop :=
  ∀ u u', (abreastCoupling .placeless u u').CoupledWith r r

theorem Steady.runs (steady : Steady r) (s : State) : Runs s (r s) := (steady [] [] s s).1

theorem SteadyWith.runs {α : Type} {r : State → α × State} (steady : SteadyWith r) (s : State) :
    Runs s (r s).2 := ((steady [] [] s s).1).1

namespace Prolonged

theorem agree (prolonged : Prolonged u s t) (some : s.ahead ≠ []) : Agree s t := by
  obtain ⟨next, rest, ahead, -⟩ := ahead_cons_of_inside some
  have ahead' : t.ahead = next :: (rest ++ u) := by rw [prolonged.ahead, ahead, List.cons_append]
  have current : t.current = s.current := by
    rw [current_of_ahead ahead, current_of_ahead ahead']
  refine ⟨?_, fun _ => ?_, ?_, ?_⟩
  · rw [State.kind, State.kind, current]
  · rw [State.text, State.text, current]
  · rw [State.atBreak, State.atBreak, prolonged.modes, current]
  · rw [ahead, ahead']
    exact iff_of_false (List.cons_ne_nil _ _) (List.cons_ne_nil _ _)

theorem startsAnew (prolonged : Prolonged u s t) (none : s.ahead = []) :
    StartsAnew t.current ∧ t.atBreak = true := by
  have current : t.current = u.headD t.finish := by
    rw [State.current, prolonged.ahead, none, List.nil_append]
  refine ⟨current ▸ prolonged.next, ?_⟩
  rw [State.atBreak, current, prolonged.next.afterBreak, prolonged.modes, prolonged.breaks]
  rfl

theorem bump (prolonged : Prolonged u s t) (some : s.ahead ≠ []) : Prolonged u s.bump t.bump := by
  obtain ⟨next, rest, ahead, -⟩ := ahead_cons_of_inside some
  have ahead' : t.ahead = next :: (rest ++ u) := by rw [prolonged.ahead, ahead, List.cons_append]
  refine ⟨prolonged.proper.of_runs (.bump s), ?_, ?_, ?_, ?_, ?_, ?_⟩
  · rw [ahead_bump, ahead_bump, ahead, ahead']
    rfl
  · rw [(Runs.bump t).finish]
    exact prolonged.next
  · rw [breakModes_bump]
    exact prolonged.breaks
  · rw [breakModes_bump, breakModes_bump, prolonged.modes]
  · rw [State.bump, State.bump, ahead, ahead']
    exact congrArg (Shape.token :: ·) prolonged.pieces
  · rw [State.bump, State.bump, ahead, ahead']
    exact prolonged.reports

theorem openNode (prolonged : Prolonged u s t) : Prolonged u s.openNode t.openNode :=
  ⟨⟨prolonged.proper.finish, prolonged.proper.inside⟩, prolonged.ahead, prolonged.next,
    prolonged.breaks, prolonged.modes, rfl, prolonged.reports⟩

theorem precedeNode (prolonged : Prolonged u s t) : Prolonged u s.precedeNode t.precedeNode :=
  ⟨⟨prolonged.proper.finish, prolonged.proper.inside⟩, prolonged.ahead, prolonged.next,
    prolonged.breaks, prolonged.modes, rfl, prolonged.reports⟩

theorem closeNode (kind : NodeKind) (outer : Prolonged u s t) (inner : Prolonged u s' t') :
    Prolonged u (closeNode s kind s') (State.closeNode t kind t') := by
  refine ⟨⟨inner.proper.finish, inner.proper.inside⟩, inner.ahead, inner.next, inner.breaks,
    inner.modes, ?_, inner.reports⟩
  simp only [State.closeNode, inner.pieces, outer.pieces]

theorem closeWrap (kind : NodeKind) (outer : Prolonged u s t) (inner : Prolonged u s' t') :
    Prolonged u (closeWrap s kind s') (State.closeWrap t kind t') := by
  refine ⟨⟨inner.proper.finish, inner.proper.inside⟩, inner.ahead, inner.next, inner.breaks,
    inner.modes, ?_, inner.reports⟩
  simp only [State.closeWrap, inner.pieces, outer.pieces]

/-- How deeply a state is nested and what is being read there makes no difference. -/
theorem of_context (prolonged : Prolonged u s t) {depth depth' : Nat} {phases phases' : List Phase} :
    Prolonged u { s with depth := depth, phases := phases }
      { t with depth := depth', phases := phases' } :=
  ⟨⟨prolonged.proper.finish, prolonged.proper.inside⟩, prolonged.ahead, prolonged.next,
    prolonged.breaks, prolonged.modes, prolonged.pieces, prolonged.reports⟩

/-- Up to the last token of the first state the second run is the same. -/
theorem answered {α : Type} {r : State → α × State} (steady : SteadyWith r)
    (prolonged : Prolonged u s t) (clean : (r s).2.Clean) (left : (r s).2.ahead ≠ []) :
    (r s).1 = (r t).1 ∧ Prolonged u (r s).2 (r t).2 := by
  have run := steady.runs s
  have run' := steady.runs t
  obtain ⟨front, last, split⟩ : ∃ front last, s.ahead = front ++ [last] :=
    (List.eq_nil_or_concat' s.ahead).resolve_left fun none => left (run.nil_of_nil none)
  have inside := prolonged.proper.inside
  rw [split] at inside
  have abreast : Abreast .placeless [last] (last :: u) s t := by
    refine ⟨⟨front, front, split, ?_, List.forall₂_same.mpr fun a member => ?_⟩,
      ⟨⟨rfl, fun _ => rfl, rfl⟩, trivial⟩, ?_, ?_, trivial, fun _ ends => absurd ends ?_⟩
    · rw [prolonged.ahead, split, List.append_assoc, List.singleton_append]
    · exact ⟨⟨⟨rfl, fun _ => rfl, rfl⟩, trivial⟩, trivial, inside a (List.mem_append_left _ member)⟩
    · exact iff_of_false (List.cons_ne_nil _ _) (List.cons_ne_nil _ _)
    · rw [prolonged.modes]
    · exact inside last (List.mem_append_right _ (List.mem_singleton_self _))
  obtain ⟨⟨-, keeps⟩, same⟩ := steady [last] (last :: u) s t
  obtain ⟨keeps, pieces⟩ := keeps abreast prolonged.pieces.symm (List.length_pos_iff.mpr left)
  refine ⟨same.resolve_right fun free => ?_, ?_⟩
  · -- no state is abreast of all others
    obtain ⟨other, differs⟩ := exists_not_abreast .placeless [last] (last :: u) (r s).2
    have others := (free other).2 abreast prolonged.pieces.symm (List.length_pos_iff.mpr left)
    exact differs others.1.abreast
  refine ⟨prolonged.proper.of_runs run, ?_, ?_, ?_, ?_, pieces.symm, ?_⟩
  · obtain ⟨passed, ahead, -⟩ := run.passed
    obtain ⟨passed', ahead', -⟩ := run'.passed
    obtain ⟨count, length, length'⟩ := keeps.abreast.length_eq
    rw [prolonged.ahead, ahead, List.append_assoc] at ahead'
    refine (List.append_inj' ahead' ?_).2.symm
    rw [List.length_append, length, length', List.length_singleton, List.length_cons]
    omega
  · rw [run'.finish]
    exact prolonged.next
  · rw [run.breakModes]
    exact prolonged.breaks
  · rw [run.breakModes, run'.breakModes, prolonged.modes]
  · obtain ⟨log, log', made, made', paired⟩ := keeps.logged trivial
    have reported := clean.reports
    rw [made] at reported
    have none : log = [] := Diagnostics.eq_nil_of_extend reported
    have none' : log' = [] := by
      rw [none] at paired
      exact List.forall₂_nil_left_iff.mp paired
    rw [made, made', none, none', prolonged.reports]

theorem steady (steady : Steady r) (prolonged : Prolonged u s t) (clean : (r s).Clean)
    (left : (r s).ahead ≠ []) : Prolonged u (r s) (r t) :=
  (prolonged.answered (r := fun s => ((), r s)) (fun u u' => .always () (steady u u')) clean left).2

end Prolonged

/-- A rule that reports nothing keeps two states together if a token is left in the first one. -/
structure Enters (r : State → State) : Prop where
  steady : Steady r
  entered : ∀ {u : List Lookahead} {s t : State}, Prolonged u s t → s.ahead ≠ [] → (r s).Clean →
    Prolonged u (r s) (r t)

/-- A rule that reports nothing keeps two states together, whether a token is left in the first one
or not. -/
structure Settles (r : State → State) : Prop extends Enters r where
  stopped : ∀ {u : List Lookahead} {s t : State}, Prolonged u s t → s.ahead = [] → (r s).Clean →
    Prolonged u (r s) (r t)

/-- A rule that cannot do without a token. -/
structure Demands (r : State → State) : Prop extends Enters r where
  fails : ∀ {s : State}, s.Proper → s.ahead = [] → ¬ (r s).Clean

theorem Settles.settled (settles : Settles r) (prolonged : Prolonged u s t) (clean : (r s).Clean) :
    Prolonged u (r s) (r t) := by
  by_cases none : s.ahead = []
  · exact settles.stopped prolonged none clean
  · exact settles.entered prolonged none clean

theorem Demands.settles (demands : Demands r) : Settles r where
  toEnters := demands.toEnters
  stopped := fun prolonged none clean => absurd clean (demands.fails prolonged.proper none)

theorem Demands.of_reported (steady : Steady r) (reported : ∀ s, ¬ (r s).Clean) : Demands r where
  steady := steady
  entered := fun _ _ clean => absurd clean (reported _)
  fails := fun _ _ => reported _

/-- What is reported before a rule is still there after it. -/
theorem Steady.before (steady : Steady r') (clean : (r' s).Clean) : s.Clean :=
  clean.of_runs (steady.runs s)

theorem Steady.comp (second : Steady r') (first : Steady r) : Steady fun s => r' (r s) :=
  fun u u' => (second u u').comp (first u u')

namespace Enters

theorem bump : Enters State.bump where
  steady := fun _ _ => .bump
  entered := fun prolonged some _ => prolonged.bump some

theorem comp (second : Settles r') (first : Enters r) : Enters fun s => r' (r s) where
  steady := second.steady.comp first.steady
  entered := fun prolonged some clean =>
    second.settled (first.entered prolonged some (second.steady.before clean)) clean

theorem ite {test : State → Bool} (tested : Coupling.Tested test) (yes : Enters r) (no : Enters r') :
    Enters fun s => if test s then r s else r' s where
  steady := fun u u' => .ite tested (yes.steady u u') (no.steady u u')
  entered := by
    intro u s t prolonged some
    simp only [← tested (prolonged.agree some)]
    split
    · exact yes.entered prolonged some
    · exact no.entered prolonged some

/-- A rule that chooses by an answer to a test. -/
theorem byTest {α : Type} {test : State → α} {r : α → State → State}
    (tested : Coupling.Tested test) (each : ∀ answer, Enters (r answer)) :
    Enters fun s => r (test s) s where
  steady := fun u u' => .byTest tested fun answer => (each answer).steady u u'
  entered := by
    intro u s t prolonged some
    simp only [← tested (prolonged.agree some)]
    exact (each _).entered prolonged some

theorem node (kind : NodeKind) (body : Enters r) : Enters (State.node kind r) where
  steady := by
    intro u u' s t
    by_cases other : kind = .block
    · rw [other]
      exact abreast_blockClosed .placeless u u' (body.steady u u' s.openNode t.openNode)
    · exact Coupling.Coupled.node kind other (body.steady u u') s t
  entered := fun prolonged some clean => .closeNode kind prolonged
    (body.entered prolonged.openNode some ⟨clean.reports, clean.endReported⟩)

theorem wrap (kind : NodeKind) (other : kind ≠ .block) (body : Enters r) :
    Enters (State.wrap kind r) where
  steady := fun u u' => .wrap kind other (body.steady u u')
  entered := fun prolonged some clean => .closeWrap kind prolonged
    (body.entered prolonged.precedeNode some ⟨clean.reports, clean.endReported⟩)

theorem nested (body : Enters r) : Enters (State.nested r) where
  steady := fun u u' => .nested (body.steady u u')
  entered := by
    intro u s t prolonged some clean
    have deeper : Prolonged u { s with depth := s.depth + 1 } { t with depth := t.depth + 1 } :=
      prolonged.of_context
    exact (body.entered deeper some ⟨clean.reports, clean.endReported⟩).of_context

theorem during (phase : Phase) (body : Enters r) : Enters (State.during phase r) where
  steady := fun u u' => .during phase (body.steady u u')
  entered := by
    intro u s t prolonged some clean
    have inside : Prolonged u { s with phases := phase :: s.phases }
        { t with phases := phase :: t.phases } := prolonged.of_context
    exact (body.entered inside some ⟨clean.reports, clean.endReported⟩).of_context

end Enters

theorem isAt_of_atEnd {kind : TokenKind} (other : kind ≠ .eof) (atEnd : s.atEnd = true) :
    s.isAt kind = false := by
  rw [isAt, beq_iff_eq.mp atEnd]
  exact beq_eq_false_iff_ne.mpr other.symm

theorem isAtSymbol_of_atEnd (symbol : String) (atEnd : s.atEnd = true) :
    s.isAtSymbol symbol = false := by
  rw [isAtSymbol, isAt_of_atEnd (by decide) atEnd, Bool.false_and]

theorem isAtAny_of_atEnd {kinds : KindSet} (other : kinds.contains .eof = false)
    (atEnd : s.atEnd = true) : s.isAtAny kinds = false := by
  rw [isAtAny, beq_iff_eq.mp atEnd, other]

theorem atExprStart_of_atEnd (config : Config) (atEnd : s.atEnd = true) :
    atExprStart config s = false :=
  Bool.eq_false_iff.mpr fun starts => (kind_of_atExprStart starts).1 (beq_iff_eq.mp atEnd)

namespace Demands

theorem missing (expected : String) : Demands (State.missing expected) :=
  .of_reported (fun _ _ => .missing expected) (Accepts.not_clean_missing expected)

theorem unexpected (expected : String) : Demands (State.unexpected expected) :=
  .of_reported (fun _ _ => .unexpected expected) (Accepts.not_clean_unexpected expected)

theorem recover (expected : String) (stops : KindSet) : Demands (State.recover expected stops) :=
  .of_reported (fun _ _ => .recover expected stops) (Accepts.not_clean_recover expected stops)

theorem recoverTooDeep (most : Nat) : Demands (State.recoverTooDeep most) :=
  .of_reported (fun _ _ => .recoverTooDeep most) (Accepts.not_clean_recoverTooDeep most)

theorem absent (expected : String) (stops : KindSet) : Demands (State.absent expected stops) :=
  .of_reported (fun _ _ => .absent expected stops) (Accepts.not_clean_absent expected stops)

theorem placeholder (expected : String) : Demands (State.placeholder expected) :=
  .of_reported (fun _ _ => .placeholder expected) (Accepts.not_clean_placeholder expected)

theorem ite {test : State → Bool} (tested : Coupling.Tested test)
    (ends : ∀ s : State, s.atEnd = true → test s = false) (yes : Enters r) (no : Demands r') :
    Demands fun s => if test s then r s else r' s where
  toEnters := .ite tested yes no.toEnters
  fails := by
    intro s proper none
    rw [if_neg (Bool.eq_false_iff.mp (ends s (proper.atEnd_iff.mpr none)))]
    exact no.fails proper none

/-- A rule that chooses by the kind of the token. -/
theorem ifAt {kind : TokenKind} (other : kind ≠ .eof) (yes : Enters r) (no : Demands r') :
    Demands fun s => if s.isAt kind then r s else r' s :=
  .ite (Coupling.tested_isAt kind) (fun _ => isAt_of_atEnd other) yes no

theorem expect {kind : TokenKind} (other : kind ≠ .eof) : Demands (State.expect kind) :=
  .ifAt other .bump (.missing kind.describe)

theorem comp (second : Settles r') (first : Demands r) : Demands fun s => r' (r s) where
  toEnters := .comp second first.toEnters
  fails := fun proper none clean => first.fails proper none (second.steady.before clean)

/-- Whatever is read before a rule that cannot do without a token, a token is left after it. -/
theorem closing (second : Demands r') (first : Steady r) : Demands fun s => r' (r s) where
  steady := second.steady.comp first
  entered := by
    intro u s t prolonged _ clean
    by_cases none : (r s).ahead = []
    · exact absurd clean (second.fails (prolonged.proper.of_runs (first.runs s)) none)
    · exact second.entered (prolonged.steady first (second.steady.before clean) none) none clean
  fails := by
    intro s proper none
    have run := first.runs s
    exact second.fails (proper.of_runs run) (run.nil_of_nil none)

theorem node (kind : NodeKind) (body : Demands r) : Demands (State.node kind r) where
  toEnters := .node kind body.toEnters
  fails := by
    intro s proper none clean
    have opened : s.openNode.Proper := ⟨proper.finish, proper.inside⟩
    exact body.fails opened none ⟨clean.reports, clean.endReported⟩

theorem nested (body : Demands r) : Demands (State.nested r) where
  toEnters := .nested body.toEnters
  fails := by
    intro s proper none clean
    have deeper : State.Proper { s with depth := s.depth + 1 } := ⟨proper.finish, proper.inside⟩
    exact body.fails deeper none ⟨clean.reports, clean.endReported⟩

theorem during (phase : Phase) (body : Demands r) : Demands (State.during phase r) where
  toEnters := .during phase body.toEnters
  fails := by
    intro s proper none clean
    have inside : State.Proper { s with phases := phase :: s.phases } :=
      ⟨proper.finish, proper.inside⟩
    exact body.fails inside none ⟨clean.reports, clean.endReported⟩

end Demands

/-- A test that is met neither by the end nor by a token that starts anew. -/
structure Onward (test : State → Bool) : Prop where
  tested : Coupling.Tested test
  atEnd : ∀ s : State, s.atEnd = true → test s = false
  anew : ∀ t : State, StartsAnew t.current → t.atBreak = true → test t = false

/-- What is asked for on the same line. -/
theorem Onward.sameLine {test : State → Bool} (tested : Coupling.Tested test)
    (atEnd : ∀ s : State, s.atEnd = true → test s = false) :
    Onward fun s => test s && !s.atBreak where
  tested := tested.and Coupling.tested_atBreak.not
  atEnd := by
    intro s ended
    rw [atEnd s ended, Bool.false_and]
  anew := by
    intro t _ atBreak
    rw [atBreak, Bool.not_true, Bool.and_false]

theorem Onward.kind {kind : TokenKind} (other : kind ≠ .eof) :
    Onward fun s => s.isAt kind && !s.atBreak :=
  .sameLine (Coupling.tested_isAt kind) fun _ => isAt_of_atEnd other

namespace Settles

theorem id : Settles fun s => s where
  steady := fun _ _ => .id
  entered := fun prolonged _ _ => prolonged
  stopped := fun prolonged _ _ => prolonged

theorem comp (second : Settles r') (first : Settles r) : Settles fun s => r' (r s) where
  toEnters := .comp second first.toEnters
  stopped := fun prolonged none clean =>
    second.settled (first.stopped prolonged none (second.steady.before clean)) clean

/-- A part that may follow on the same line. -/
theorem continuing {test : State → Bool} (onward : Onward test) (enters : Enters r) :
    Settles fun s => if test s then r s else s where
  toEnters := .ite onward.tested enters Settles.id.toEnters
  stopped := by
    intro u s t prolonged none _
    obtain ⟨anew, atBreak⟩ := prolonged.startsAnew none
    simp only [onward.atEnd s (prolonged.proper.atEnd_iff.mpr none), onward.anew t anew atBreak,
      Bool.false_eq_true, ↓reduceIte]
    exact prolonged

/-- Parts that may follow on the same line, one after the other. -/
theorem repeatStep {step : State → Bool × State} (steady : Steady (State.repeatStep step))
    (atEnd : ∀ s : State, s.atEnd = true → step s = (false, s))
    (anew : ∀ t : State, StartsAnew t.current → t.atBreak = true → step t = (false, t))
    (entered : ∀ {u : List Lookahead} {s t : State}, Prolonged u s t → s.ahead ≠ [] →
      (step s).2.Clean → (step s).1 = (step t).1 ∧ Prolonged u (step s).2 (step t).2) :
    Settles (State.repeatStep step) := by
  have each {u : List Lookahead} {s t : State} (prolonged : Prolonged u s t)
      (clean : (step s).2.Clean) : (step s).1 = (step t).1 ∧ Prolonged u (step s).2 (step t).2 := by
    by_cases none : s.ahead = []
    · obtain ⟨next, atBreak⟩ := prolonged.startsAnew none
      rw [atEnd s (prolonged.proper.atEnd_iff.mpr none), anew t next atBreak]
      exact ⟨rfl, prolonged⟩
    · exact entered prolonged none clean
  have settled {u : List Lookahead} {s t : State} (prolonged : Prolonged u s t)
      (clean : (State.repeatStep step s).Clean) :
      Prolonged u (State.repeatStep step s) (State.repeatStep step t) := by
    induction size : s.ahead.length using Nat.strongRecOn generalizing s t with
    | _ n ih =>
    rw [State.repeatStep.eq_1] at clean
    have first : (step s).2.Clean := by
      split at clean
      · exact steady.before clean
      · exact clean
    obtain ⟨flag, prolonged'⟩ := each prolonged first
    rw [State.repeatStep.eq_1, State.repeatStep.eq_1 step t, ← flag, prolonged.ahead,
      prolonged'.ahead]
    simp only [List.length_append, Nat.add_lt_add_iff_right]
    split at clean
    case isTrue continues =>
      rw [if_pos continues, if_pos continues]
      exact ih _ (size ▸ continues.2) prolonged' clean rfl
    case isFalse halts =>
      rw [if_neg halts, if_neg halts]
      exact prolonged'
  exact ⟨⟨steady, fun prolonged _ => settled prolonged⟩, fun prolonged _ => settled prolonged⟩

/-- Parts that follow as often as a test asks for them. -/
theorem loopWith {test : State → Bool} {step : State → Bool × State} (onward : Onward test)
    (steady : Steady (State.repeatStep fun s => if test s then step s else (false, s)))
    (entered : ∀ {u : List Lookahead} {s t : State}, Prolonged u s t → s.ahead ≠ [] →
      test s = true → (step s).2.Clean → (step s).1 = (step t).1 ∧ Prolonged u (step s).2 (step t).2) :
    Settles (State.repeatStep fun s => if test s then step s else (false, s)) := by
  refine repeatStep steady (fun s atEnd => ?_) (fun t anew atBreak => ?_) ?_
  · simp only [onward.atEnd s atEnd, Bool.false_eq_true, ↓reduceIte]
  · simp only [onward.anew t anew atBreak, Bool.false_eq_true, ↓reduceIte]
  · intro u s t prolonged some clean
    rw [← onward.tested (prolonged.agree some)]
    split at clean
    case isTrue here =>
      rw [if_pos here, if_pos here]
      exact entered prolonged some here clean
    case isFalse here =>
      rw [if_neg here, if_neg here]
      exact ⟨rfl, prolonged⟩

/-- The same part, as often as a test asks for it. -/
theorem loop {test : State → Bool} (onward : Onward test) (enters : Enters r) :
    Settles (State.repeatStep fun s => if test s then (true, r s) else (false, s)) := by
  refine loopWith onward (fun u u' => ?_) fun prolonged some _ clean => ?_
  · exact .repeatStep (.ite onward.tested (.always true (enters.steady u u')) (.always false .id))
  · exact ⟨rfl, enters.entered prolonged some clean⟩

end Settles

end LosslessSyntax.Grammar
