import LosslessSyntax.Proofs.Grammar.Abreast
import LosslessSyntax.Proofs.Grammar.Opening

/-! # Sequences of statements

Programs and blocks are sequences of statements. A sequence goes on until a test says that it ends
(`stop_items`). Each statement adds one shape to those before it, which it neither looks at nor
changes (`item_frame`).
-/

namespace LosslessSyntax.Grammar

open State Outline

/-- The tokens ahead are followed by the end, and by nothing else. -/
structure State.Proper (s : State) : Prop where
  finish : s.finish.kind = .eof
  inside : ∀ a ∈ s.ahead, a.kind ≠ .eof

namespace State

variable {s s' : State}

theorem Proper.of_runs (proper : s.Proper) (run : Runs s s') : s'.Proper where
  finish := (congrArg Lookahead.kind run.finish).trans proper.finish
  inside := fun a member => proper.inside a (run.mem_of_mem member)

theorem Proper.atEnd_iff (proper : s.Proper) : s.atEnd = true ↔ s.ahead = [] := by
  rw [atEnd, isAt, beq_iff_eq, State.kind, current]
  cases ahead : s.ahead with
  | nil => simp [proper.finish]
  | cons next rest =>
    have inside := proper.inside next (by rw [ahead]; exact List.mem_cons_self)
    simpa using inside

theorem Proper.atEnd_eq_false (proper : s.Proper) (some : s.ahead ≠ []) : s.atEnd = false :=
  Bool.eq_false_iff.mpr (mt proper.atEnd_iff.mp some)

end State

section Items

variable (config : Config) (room : Nat) (stop : State → Bool)

/-- A statement, unless a test says that they end. -/
def itemStep (s : State) : Bool × State := if stop s then (false, s) else (true, item config room s)

/-- Statements up to one where a test says that they end. -/
def items : State → State :=
  repeatStep fun s => if stop s then (false, s) else (true, item config room s)

variable {config room stop} {s : State}

theorem item_shorter (proper : s.Proper) (some : s.ahead ≠ []) :
    (item config room s).ahead.length < s.ahead.length :=
  item_consumes some (proper.atEnd_eq_false some)

theorem items_of_stop (ends : stop s = true) : items config room stop s = s := by
  rw [items, repeatStep.eq_1]
  simp only [ends, ↓reduceIte, Bool.false_eq_true, false_and]

theorem items_of_go (proper : s.Proper) (some : s.ahead ≠ []) (goes : stop s = false) :
    items config room stop s = items config room stop (item config room s) := by
  rw [items, repeatStep.eq_1]
  simp only [goes, Bool.false_eq_true, ↓reduceIte, true_and, item_shorter proper some]

/-- A law of sequences holds if it holds where they end and before every statement. -/
theorem items_induction (config : Config) (room : Nat) (stop : State → Bool)
    {motive : State → Prop} (atStop : ∀ s, stop s = true → motive s)
    (ends : ∀ s, s.atEnd = true → stop s = true)
    (step : ∀ s : State, s.Proper → s.ahead ≠ [] → stop s = false → motive (item config room s) →
      motive s) (s : State) (proper : s.Proper) : motive s := by
  induction size : s.ahead.length using Nat.strongRecOn generalizing s with
  | _ n ih =>
  cases here : stop s with
  | true => exact atStop s here
  | false =>
    have some : s.ahead ≠ [] := fun none => by
      rw [ends s (proper.atEnd_iff.mpr none)] at here
      exact nomatch here
    refine step s proper some here (ih _ ?_ _ (proper.of_runs (.item config room s)) rfl)
    exact size ▸ item_shorter proper some

/-- A sequence ends only where it may. -/
theorem stop_items (config : Config) (room : Nat)
    (ends : ∀ s, s.atEnd = true → stop s = true) (proper : s.Proper) :
    stop (items config room stop s) = true := by
  refine items_induction config room stop (motive := fun s => stop (items config room stop s) = true)
    (fun s here => ?_) ends (fun s proper some goes ih => ?_) s proper
  · rwa [items_of_stop here]
  · rwa [items_of_go proper some goes]

theorem runs_items (proper : s.Proper) (ends : ∀ s, s.atEnd = true → stop s = true) :
    Runs s (items config room stop s) := by
  refine items_induction config room stop (motive := fun s => Runs s (items config room stop s))
    (fun s here => ?_) ends (fun s proper some goes ih => ?_) s proper
  · rw [items_of_stop here]
    exact .refl s
  · rw [items_of_go proper some goes]
    exact (Runs.item config room s).trans ih

theorem coupled_itemStep {C : Coupling} [C.Nests]
    (blocks : C.Coupled (block config room) (block config room)) (tested : Coupling.Tested stop) :
    C.CoupledWith (itemStep config room stop) (itemStep config room stop) :=
  .ite tested (.always false .id) <| .always true <|
    Coupling.coupled_statementItem (Coupling.coupled_construct config room) blocks config

theorem coupled_items_of_block {C : Coupling} [C.Nests]
    (blocks : C.Coupled (block config room) (block config room)) (tested : Coupling.Tested stop) :
    C.Coupled (items config room stop) (items config room stop) :=
  .repeatStep (coupled_itemStep blocks tested)

theorem coupled_items (config : Config) (room : Nat) {C : Coupling} [C.Nests]
    (closed : Coupling.BlockClosed C) (tested : Coupling.Tested stop) :
    C.Coupled (items config room stop) (items config room stop) :=
  coupled_items_of_block (Coupling.coupled_block closed config room) tested

end Items

theorem unexpected_with_pieces (expected : String) (s : State) (pieces : List Shape) :
    State.unexpected expected { s with pieces := pieces } =
      { s.unexpected expected with pieces := pieces } := by
  change State.report _ _ _ { s with pieces := pieces } = _
  simp only [State.unexpected, State.report]
  change (if (s.atEnd && s.endReported) = true then _ else _) = _
  split <;> rfl

/-- A statement adds one shape to those that were read before, whatever these are. -/
theorem item_frame (config : Config) (room : Nat) {s : State} (some : s.ahead ≠ [])
    (atEnd : s.atEnd = false) :
    ∃ (piece : Shape) (after : State), (∃ outline, piece.outline = [outline]) ∧
      ∀ pieces, item config room { s with pieces := pieces } =
        { after with pieces := piece :: pieces } := by
  obtain ⟨next, rest, ahead, -⟩ := ahead_cons_of_inside some
  by_cases semicolon : s.isAt .semicolon = true
  · refine ⟨.token, s.bump, ⟨_, Shape.outline_token⟩, fun pieces => (if_pos semicolon).trans ?_⟩
    rw [State.bump, State.bump, ahead]
  cases starts : atStatementStart config s with
  | true =>
    let inner := statementNode config (construct config room) (block config room)
      (openNode { s with phases := .statement :: s.phases })
    refine ⟨.node inner.1 inner.2.pieces.reverse,
      { closeNode s inner.1 inner.2 with phases := inner.2.phases.tail }, ⟨_, Shape.outline_node ..⟩,
      fun pieces => (if_neg semicolon).trans ?_⟩
    exact statement_of_start (s := { s with pieces := pieces }) starts
  | false =>
    let reported := unexpected "statement" { s with phases := .statement :: s.phases }
    let inner := during .recovering (skipToSync .empty) reported.openNode
    refine ⟨.node .error inner.pieces.reverse,
      { closeNode reported .error inner with phases := inner.phases.tail }, ⟨_, Shape.outline_node ..⟩,
      fun pieces => (if_neg semicolon).trans ?_⟩
    refine (statement_of_other (s := { s with pieces := pieces }) starts).trans ?_
    have same := unexpected_with_pieces "statement" { s with phases := .statement :: s.phases } pieces
    have inside : ({ reported with pieces := pieces } : State).atEnd = false :=
      (atEnd_report ..).trans atEnd
    simp only [during, State.recover]
    rw [same, if_neg (Bool.eq_false_iff.mp inside)]
    rfl

/-- What a statement does to the shapes read before it. -/
theorem outline_item (config : Config) (room : Nat) {s : State} (proper : s.Proper)
    (some : s.ahead ≠ []) :
    ∃ outline, (item config room s).outline = s.outline ++ [outline] := by
  obtain ⟨piece, after, ⟨outline, single⟩, frame⟩ :=
    item_frame config room some (proper.atEnd_eq_false some)
  refine ⟨outline, ?_⟩
  have same : item config room s = { after with pieces := piece :: s.pieces } := frame s.pieces
  rw [same, State.outline, State.outline, List.reverse_cons, Shape.outlineAll_append,
    Shape.outlineAll_cons, Shape.outlineAll_nil, List.append_nil, single]

end LosslessSyntax.Grammar
