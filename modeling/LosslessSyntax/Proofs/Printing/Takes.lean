import LosslessSyntax.Proofs.Grammar.Runs
import LosslessSyntax.Proofs.Tree.Grouping
import LosslessSyntax.Proofs.Tree.Replay

/-! # What a rule takes from the tokens ahead

`State.Faces` says which tokens are ahead of a state, on one line, and `Takes` that a run has taken
trees from them without a report. The ways in which rules are put together carry over what they take.
-/

namespace LosslessSyntax

namespace Grammar

open LosslessSyntax.Tree State

theorem repeatStep_of_go {step : State → Bool × State} {s s' : State} (goes : step s = (true, s'))
    (shorter : s'.ahead.length < s.ahead.length) : s.repeatStep step = s'.repeatStep step := by
  rw [State.repeatStep, goes, if_pos ⟨rfl, shorter⟩]

theorem repeatStep_of_halt {step : State → Bool × State} {s s' : State}
    (halts : step s = (false, s')) : s.repeatStep step = s' := by
  rw [State.repeatStep, halts, if_neg (by rintro ⟨asked, -⟩; exact Bool.false_ne_true asked)]

/-- The tokens ahead, without line breaks between them, and then the end. -/
structure State.Faces (s : State) (leaves : List Leaf) : Prop where
  ahead : s.ahead.map (·.token.leaf) = leaves
  flat : ∀ next ∈ s.ahead, next.afterBreak = false
  finish : s.finish.kind = .eof

namespace State.Faces

variable {s : State} {leaves back : List Leaf} {kind : TokenKind} {text : String}

theorem precedeNode (faces : s.Faces leaves) : s.precedeNode.Faces leaves :=
  ⟨faces.ahead, faces.flat, faces.finish⟩

theorem openNode (faces : s.Faces leaves) : s.openNode.Faces leaves :=
  ⟨faces.ahead, faces.flat, faces.finish⟩

theorem pushBreaks (faces : s.Faces leaves) (matter : Bool) : (s.pushBreaks matter).Faces leaves :=
  ⟨faces.ahead, faces.flat, faces.finish⟩

theorem of_context (faces : s.Faces leaves) (depth : Nat) (phases : List Phase) :
    State.Faces { s with depth := depth, phases := phases } leaves :=
  ⟨faces.ahead, faces.flat, faces.finish⟩

theorem exists_next (faces : s.Faces ((kind, text) :: back)) :
    ∃ next rest, s.ahead = next :: rest ∧ next.kind = kind ∧ next.token.text = text := by
  obtain ⟨next, rest, ahead, same, -⟩ := List.map_eq_cons_iff.mp faces.ahead
  exact ⟨next, rest, ahead, congrArg Prod.fst same, congrArg Prod.snd same⟩

theorem kind_eq (faces : s.Faces ((kind, text) :: back)) : s.kind = kind := by
  obtain ⟨next, rest, ahead, same, -⟩ := faces.exists_next
  rw [State.kind, current_of_ahead ahead, same]

theorem text_eq (faces : s.Faces ((kind, text) :: back)) : s.text = text := by
  obtain ⟨next, rest, ahead, -, same⟩ := faces.exists_next
  rw [State.text, current_of_ahead ahead, same]

theorem isAt_eq (faces : s.Faces ((kind, text) :: back)) (other : TokenKind) :
    s.isAt other = (kind == other) := by rw [isAt, faces.kind_eq]

theorem isAt_here (faces : s.Faces ((kind, text) :: back)) : s.isAt kind = true := by
  rw [faces.isAt_eq, BEq.rfl]

theorem isAt_other (faces : s.Faces ((kind, text) :: back)) {other : TokenKind}
    (differs : kind ≠ other) : ¬ s.isAt other = true := by
  rw [faces.isAt_eq, beq_iff_eq]
  exact differs

theorem atBreak_eq (faces : s.Faces ((kind, text) :: back)) : s.atBreak = false := by
  obtain ⟨next, rest, ahead, -⟩ := faces.exists_next
  have flat := faces.flat next (by rw [ahead]; exact List.mem_cons_self)
  rw [atBreak, current_of_ahead ahead, flat, Bool.and_false]

theorem kind_eq_eof (faces : s.Faces []) : s.kind = .eof := by
  rw [State.kind, current, List.map_eq_nil_iff.mp faces.ahead, List.headD_nil, faces.finish]

/-- The current token is the first of those ahead, or the end. -/
theorem kind_eq_head (faces : s.Faces leaves) : s.kind = (leaves.head?.map (·.1)).getD .eof := by
  cases leaves with
  | nil => exact faces.kind_eq_eof
  | cons first rest => exact faces.kind_eq

end State.Faces

/-- A run takes trees from the tokens ahead and reports nothing. -/
structure Takes (s s' : State) (trees : List Tree) : Prop where
  ahead : s'.ahead = s.ahead.drop (leavesAll trees).length
  outline : s'.outline = s.outline ++ outlineAll trees
  finish : s'.finish = s.finish
  breakModes : s'.breakModes = s.breakModes
  reports : s'.reports = s.reports
  endReported : s'.endReported = s.endReported

namespace Takes

variable {s s' s'' : State} {trees front back : List Tree} {leaves : List Leaf}

/-- After a run the rest of the tokens is ahead. -/
theorem faces (takes : Takes s s' trees) (before : s.Faces (leavesAll trees ++ leaves)) :
    s'.Faces leaves where
  ahead := by rw [takes.ahead, List.map_drop, before.ahead, List.drop_left]
  flat := fun next member => before.flat next (List.drop_subset _ _ (takes.ahead ▸ member))
  finish := by rw [takes.finish, before.finish]

theorem shorter (takes : Takes s s' trees) {first : Leaf} (before : s.Faces (first :: leaves))
    (some : leavesAll trees ≠ []) : s'.ahead.length < s.ahead.length := by
  have length := congrArg List.length before.ahead
  rw [List.length_map, List.length_cons] at length
  have positive := List.length_pos_iff.mpr some
  rw [takes.ahead, List.length_drop]
  omega

theorem refl (s : State) : Takes s s [] := ⟨rfl, by simp, rfl, rfl, rfl, rfl⟩

theorem trans (first : Takes s s' front) (second : Takes s' s'' back) :
    Takes s s'' (front ++ back) where
  ahead := by rw [second.ahead, first.ahead, List.drop_drop, leavesAll_append, List.length_append]
  outline := by rw [second.outline, first.outline, outlineAll_append, List.append_assoc]
  finish := second.finish.trans first.finish
  breakModes := second.breakModes.trans first.breakModes
  reports := second.reports.trans first.reports
  endReported := second.endReported.trans first.endReported

theorem bump {kind : TokenKind} {text : String} (faces : s.Faces ((kind, text) :: leaves)) :
    Takes s s.bump [.leaf kind text] := by
  obtain ⟨next, rest, ahead, -⟩ := faces.exists_next
  refine ⟨?_, ?_, ?_, ?_, ?_, ?_⟩
  · rw [ahead_bump, ahead]
    simp [leavesAll, Tree.leaves]
  · rw [outline_bump, if_neg (by rw [ahead]; exact List.cons_ne_nil _ _)]
    simp
  all_goals rw [State.bump, ahead]

theorem closeNode (kind : NodeKind) (inner : Takes s.openNode s' trees) :
    Takes s (State.closeNode s kind s') [.node kind trees] where
  ahead := by
    rw [leavesAll, leavesAll, List.append_nil, Tree.leaves]
    exact inner.ahead
  outline := by rw [outline_closeNode, inner.outline, outline_openNode]; simp
  finish := inner.finish
  breakModes := inner.breakModes
  reports := inner.reports
  endReported := inner.endReported

/-- A node around the tree that was taken last. -/
theorem closeWrap {kind inside : NodeKind} {children : List Tree}
    (first : Takes s s' [.node inside children]) (inner : Takes s'.precedeNode s'' back) :
    Takes s (State.closeWrap s' kind s'') [.node kind (.node inside children :: back)] where
  ahead := by
    rw [ahead_closeWrap, inner.ahead, show s'.precedeNode.ahead = s'.ahead from rfl, first.ahead,
      List.drop_drop]
    simp [leavesAll, Tree.leaves]
  outline := by
    rw [outline_closeWrap, first.outline, outlineAll_cons, outlineAll_nil, Tree.outline_node,
      Outline.wrapLast_concat, inner.outline, outline_precedeNode]
    simp [Outline.wrapLast]
  finish := inner.finish.trans first.finish
  breakModes := inner.breakModes.trans first.breakModes
  reports := inner.reports.trans first.reports
  endReported := inner.endReported.trans first.endReported

theorem popBreaks {matter : Bool} (inner : Takes (s.pushBreaks matter) s' trees) :
    Takes s s'.popBreaks trees where
  ahead := inner.ahead
  outline := inner.outline
  finish := inner.finish
  breakModes := congrArg List.tail inner.breakModes
  reports := inner.reports
  endReported := inner.endReported

/-- How deeply a state is nested and what is being read there makes no difference. -/
theorem of_context {depth depth' : Nat} {phases phases' : List Phase}
    (inner : Takes { s with depth := depth, phases := phases } s' trees) :
    Takes s { s' with depth := depth', phases := phases' } trees :=
  ⟨inner.ahead, inner.outline, inner.finish, inner.breakModes, inner.reports, inner.endReported⟩

theorem expect {kind : TokenKind} {text : String} (faces : s.Faces ((kind, text) :: leaves)) :
    Takes s (s.expect kind) [.leaf kind text] := by
  rw [State.expect, if_pos faces.isAt_here]
  exact bump faces

end Takes

end Grammar

end LosslessSyntax
