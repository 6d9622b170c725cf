import LosslessSyntax.Proofs.Grammar.Items

/-! # Statement by statement

A sequence of statements is a number of steps, each of which reads one statement (`statements`). The
number is the only thing about it that depends on where the sequence is to end
(`items_eq_statements`), so a run can be cut between any two of its statements and compared there
with another one.
-/

namespace LosslessSyntax.Grammar

open State Outline

variable {config : Config} {room : Nat} {stop : State → Bool} {s t : State}

/-- The state after so many statements. -/
def statements (config : Config) (room : Nat) : Nat → State → State
  | 0, s => s
  | count + 1, s => statements config room count (item config room s)

theorem statements_add (first second : Nat) (s : State) :
    statements config room (first + second) s =
      statements config room second (statements config room first s) := by
  induction first generalizing s with
  | zero => rw [Nat.zero_add]; rfl
  | succ first ih =>
    rw [Nat.succ_add]
    exact ih (item config room s)

theorem statements_succ (count : Nat) (s : State) :
    statements config room (count + 1) s = item config room (statements config room count s) :=
  statements_add count 1 s

theorem runs_statements (count : Nat) (s : State) : Runs s (statements config room count s) := by
  induction count generalizing s with
  | zero => exact .refl s
  | succ count ih => exact (Runs.item config room s).trans (ih _)

theorem proper_statements (config : Config) (room : Nat) (proper : s.Proper) (count : Nat) :
    (statements config room count s).Proper := proper.of_runs (runs_statements count s)

/-- A sequence is a number of statements, none of which begins where the sequence may end. -/
theorem items_eq_statements (config : Config) (room : Nat) (proper : s.Proper) (ends : ∀ s, s.atEnd = true → stop s = true) :
    ∃ count, items config room stop s = statements config room count s ∧
      ∀ k < count, stop (statements config room k s) = false ∧
        (statements config room k s).ahead ≠ [] := by
  refine items_induction config room stop (motive := fun s => ∃ count,
    items config room stop s = statements config room count s ∧
      ∀ k < count, stop (statements config room k s) = false ∧
        (statements config room k s).ahead ≠ [])
    (fun s here => ?_) ends (fun s proper some goes ih => ?_) s proper
  · exact ⟨0, items_of_stop here, fun k earlier => absurd earlier (Nat.not_lt_zero k)⟩
  · obtain ⟨count, same, before⟩ := ih
    refine ⟨count + 1, (items_of_go proper some goes).trans same, fun k earlier => ?_⟩
    cases k with
    | zero => exact ⟨goes, some⟩
    | succ k => exact before k (Nat.lt_of_succ_lt_succ earlier)

/-- Some statements of a sequence that goes on over them. -/
theorem items_statements (proper : s.Proper) {count : Nat}
    (goes : ∀ k < count, stop (statements config room k s) = false ∧
      (statements config room k s).ahead ≠ []) :
    items config room stop s = items config room stop (statements config room count s) := by
  induction count with
  | zero => rfl
  | succ count ih =>
    obtain ⟨goes', some⟩ := goes count (Nat.lt_succ_self count)
    rw [ih fun k earlier => goes k (Nat.lt_succ_of_lt earlier), statements_succ]
    exact items_of_go (proper_statements config room proper count) some goes'

/-- Runs over similar tokens keep abreast over as many statements as they share. -/
theorem keeps_statements {L : Link} {u u' : List Lookahead} (abreast : Abreast L u u' s t)
    (pieces : s.pieces = t.pieces) {count : Nat}
    (within : u.length ≤ (statements config room count s).ahead.length) :
    Keeps L u u' s t (statements config room count s) (statements config room count t) ∧
      (statements config room count s).pieces = (statements config room count t).pieces := by
  induction count with
  | zero => exact ⟨.refl abreast, pieces⟩
  | succ count ih =>
    rw [statements_succ] at within
    have shrinks := (Runs.item config room (statements config room count s)).shrinks
    obtain ⟨keeps, same⟩ := ih (Nat.le_trans within shrinks)
    obtain ⟨keeps', same'⟩ := (Coupling.coupled_statementItem
      (Coupling.coupled_construct config room) (Coupling.coupled_block (abreast_blockClosed L u u')
        config room) config _ _).2 keeps.abreast same within
    rw [statements_succ, statements_succ]
    exact ⟨keeps.trans keeps', same'⟩

/-- Statements neither look at the shapes that were read before them nor change these. -/
theorem statements_frame (proper : s.Proper) {count : Nat}
    (inside : ∀ k < count, (statements config room k s).ahead ≠ []) :
    ∃ added : List Shape, ∃ after : State, (Shape.outlineAll added.reverse).length = count ∧
      ∀ pieces, statements config room count { s with pieces := pieces } =
        { after with pieces := added ++ pieces } := by
  induction count with
  | zero => exact ⟨[], s, rfl, fun pieces => rfl⟩
  | succ count ih =>
    obtain ⟨added, after, length, frame⟩ := ih fun k earlier => inside k (Nat.lt_succ_of_lt earlier)
    have here : statements config room count s = { after with pieces := added ++ s.pieces } :=
      frame s.pieces
    have some := inside count (Nat.lt_succ_self count)
    have proper' := proper_statements config room proper count
    rw [here] at some proper'
    obtain ⟨piece, after', ⟨outline, single⟩, frame'⟩ :=
      item_frame config room some (proper'.atEnd_eq_false some)
    refine ⟨piece :: added, after', ?_, fun pieces => ?_⟩
    · rw [List.reverse_cons, Shape.outlineAll_append, Shape.outlineAll_cons, Shape.outlineAll_nil,
        single, List.length_append, length]
      rfl
    · rw [statements_succ, frame]
      exact frame' (added ++ pieces)

/-- Every statement adds one outline. -/
theorem outline_statements (proper : s.Proper) {count : Nat}
    (inside : ∀ k < count, (statements config room k s).ahead ≠ []) :
    ∃ added, (statements config room count s).outline = s.outline ++ added ∧
      added.length = count := by
  obtain ⟨added, after, length, frame⟩ := statements_frame proper inside
  refine ⟨Shape.outlineAll added.reverse, ?_, length⟩
  have same : statements config room count s = { after with pieces := added ++ s.pieces } :=
    frame s.pieces
  rw [same, State.outline, State.outline, List.reverse_append, Shape.outlineAll_append]

/-- Every statement takes up some tokens. -/
theorem count_pos_statements (proper : s.Proper) {count : Nat}
    (inside : ∀ k < count, (statements config room k s).ahead ≠ []) :
    ∀ outline ∈ (statements config room count s).outline, outline ∈ s.outline ∨ 0 < outline.count := by
  induction count with
  | zero => exact fun _ => .inl
  | succ count ih =>
    have ih := ih fun k earlier => inside k (Nat.lt_succ_of_lt earlier)
    have some := inside count (Nat.lt_succ_self count)
    have proper' := proper_statements config room proper count
    obtain ⟨added, outlines⟩ := outline_item config room proper' some
    have extent := (Runs.item config room (statements config room count s)).extent
    have shorter : (item config room (statements config room count s)).ahead.length <
        (statements config room count s).ahead.length := item_shorter proper' some
    rw [State.extent, State.extent, outlines, countAll_append, countAll_cons, countAll_nil] at extent
    intro outline member
    rw [statements_succ, outlines] at member
    rcases List.mem_append.mp member with member | member
    · exact ih outline member
    · obtain rfl := List.mem_singleton.mp member
      exact .inr (by omega)

/-- Statements do not depend on what is said to come before the first of them. -/
theorem statements_reopen (proper : s.Proper) (some : s.ahead ≠ []) {count : Nat}
    (positive : 0 < count) (broken : Bool) (last : Option Nat) :
    statements config room count (s.reopen broken last) = statements config room count s := by
  obtain ⟨count, rfl⟩ := Nat.exists_eq_succ_of_ne_zero (Nat.ne_of_gt positive)
  rw [statements, statements, item_opens some (proper.atEnd_eq_false some) broken last]

/-- The link of a text with itself that keeps to the places of which `P` is known. -/
def Link.within (P : Span → Prop) : Link := ⟨fun a b => a = b ∧ P a, True⟩

/-- A run keeps abreast of itself, as long as the tokens it comes to are at places of which `P` is
known. -/
theorem abreast_within {P : Span → Prop} {w u : List Lookahead} (ahead : s.ahead = w ++ u)
    (inside : ∀ a ∈ w, a.kind ≠ .eof ∧ P a.token.span ∧ P (.empty a.token.stop))
    (next : P (u.headD s.finish).token.span) (gap : P s.gap) : Abreast (.within P) u u s s where
  ahead := by
    refine ⟨w, w, ahead, ahead, List.forall₂_same.mpr fun a member => ?_⟩
    obtain ⟨kind, span, stop⟩ := inside a member
    exact ⟨⟨⟨rfl, fun _ => rfl, rfl⟩, rfl, span⟩, ⟨rfl, stop⟩, kind⟩
  next := ⟨⟨rfl, fun _ => rfl, rfl⟩, rfl, next⟩
  empty := Iff.rfl
  modes := rfl
  gap := ⟨rfl, gap⟩
  ended := fun _ _ => rfl

/-- So does a run that begins with the first of its tokens. -/
theorem abreast_fresh {P : Span → Prop} (proper : s.Proper) (fresh : s.lastStop = none)
    (inside : ∀ a ∈ s.ahead,
      P a.token.span ∧ P (.empty a.token.start) ∧ P (.empty a.token.stop))
    (last : P s.finish.token.span ∧ P (.empty s.finish.token.start)) :
    Abreast (.within P) [] [] s s := by
  refine abreast_within (List.append_nil _).symm ?_ ?_ ?_
  · intro a member
    obtain ⟨span, -, stop⟩ := inside a member
    exact ⟨proper.inside a member, span, stop⟩
  · exact last.1
  · rw [State.gap, fresh, Option.getD_none]
    cases ahead : s.ahead with
    | nil =>
      rw [State.current, ahead, List.headD_nil]
      exact last.2
    | cons next others =>
      rw [State.current_of_ahead ahead]
      exact (inside next (by rw [ahead]; exact List.mem_cons_self)).2.1

/-- Reports at places that correspond only to themselves are the same. -/
theorem eq_of_within {P : Span → Prop} {log log' : List Diagnostic}
    (same : List.Forall₂ (SameReport (.within P)) log log') :
    log' = log ∧ ∀ d ∈ log, P d.span := by
  induction same with
  | nil => exact ⟨rfl, fun _ member => nomatch member⟩
  | @cons d e log log' first _ ih =>
    obtain ⟨rfl, others⟩ := ih
    obtain rfl := first.eq_of_span first.span.1
    refine ⟨rfl, fun f member => ?_⟩
    rcases List.mem_cons.mp member with rfl | member
    · exact first.span.2
    · exact others f member

theorem Logged.within {P : Span → Prop} {s' t' : State} (logged : Logged (.within P) s t s' t') :
    ∃ log, s'.reports = s.reports.extend log ∧ t'.reports = t.reports.extend log ∧
      ∀ d ∈ log, P d.span := by
  obtain ⟨log, log', made, made', same⟩ := logged trivial
  obtain ⟨rfl, places⟩ := eq_of_within same
  exact ⟨log', made, made', places⟩

/-- Statements make reports only at tokens that they come to. -/
theorem exists_log_statements {P : Span → Prop} {u : List Lookahead}
    (abreast : Abreast (.within P) u u s s) {count : Nat}
    (within : u.length ≤ (statements config room count s).ahead.length) :
    ∃ log, (statements config room count s).reports = s.reports.extend log ∧
      ∀ d ∈ log, P d.span := by
  obtain ⟨log, made, -, places⟩ := (keeps_statements abreast rfl within).1.logged.within
  exact ⟨log, made, places⟩

/-- A block makes reports only at tokens that it comes to. -/
theorem exists_log_block {P : Span → Prop} {u : List Lookahead}
    (abreast : Abreast (.within P) u u s s) (within : u.length ≤ (block config room s).ahead.length) :
    ∃ log, (block config room s).reports = s.reports.extend log ∧ ∀ d ∈ log, P d.span := by
  have coupled := Coupling.coupled_block (abreast_blockClosed (.within P) u u) config room
  obtain ⟨log, made, -, places⟩ := ((coupled s s).2 abreast rfl within).1.logged.within
  exact ⟨log, made, places⟩

/-- A sequence adds to the reports. -/
theorem exists_log_items (config : Config) (room : Nat) (proper : s.Proper) (ends : ∀ s, s.atEnd = true → stop s = true) :
    ∃ log, (items config room stop s).reports = s.reports.extend log := by
  obtain ⟨count, same, -⟩ := items_eq_statements config room proper ends
  have abreast : Abreast (.within fun _ => True) [] [] s s :=
    abreast_within (List.append_nil s.ahead).symm
      (fun a member => ⟨proper.inside a member, trivial, trivial⟩) trivial trivial
  obtain ⟨log, made, -⟩ := exists_log_statements abreast (Nat.zero_le _)
  exact ⟨log, same ▸ made⟩

end LosslessSyntax.Grammar
