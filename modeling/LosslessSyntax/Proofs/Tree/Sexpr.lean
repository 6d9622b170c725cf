import LosslessSyntax.Proofs.Derivation.Stripped
import LosslessSyntax.Tree.Render

/-! # What s-expressions show

An s-expression shows a tree without whitespace and comments, and not where it stands
(`Cursor.sexpr_of_stripped`).
-/

namespace LosslessSyntax

namespace Tree

theorem leaf_of_stripped {tree : Tree} {kind : TokenKind} {text : String}
    (same : tree.stripped = .leaf kind text) : tree = .leaf kind text := by
  cases tree with
  | node => rw [stripped] at same; cases same
  | leaf => rwa [stripped] at same

theorem node_of_stripped {tree : Tree} {kind : NodeKind} {children : List Tree}
    (same : tree.stripped = .node kind children) :
    ∃ children', tree = .node kind children' ∧ strippedAll children' = children := by
  cases tree with
  | leaf => rw [stripped] at same; cases same
  | node kind' children' =>
    rw [stripped] at same
    obtain ⟨rfl, shown⟩ := Tree.node.inj same
    exact ⟨children', rfl, shown⟩

end Tree

open LosslessSyntax.Tree

namespace Cursor

/-- The children that are shown, without whitespace and comments below them. -/
theorem stripped_sequence (start : Nat) (trees : List Tree) :
    ((sequence start trees).filter (!·.tree.isTrivia)).map (·.tree.stripped) =
      strippedAll trees := by
  induction trees generalizing start with
  | nil => rw [strippedAll]; rfl
  | cons first rest ih =>
    rw [sequence, strippedAll, List.filter_cons]
    cases first.isTrivia with
    | false => exact congrArg (first.stripped :: ·) (ih _)
    | true => exact ih _

namespace SexprStep

/-- The tree that a step shows, without whitespace and comments below it. -/
def shown? : SexprStep → Option Tree
  | .enter cursor => some cursor.tree.stripped
  | .close => none

end SexprStep

open SexprStep

variable {cursor : Cursor} {steps : List SexprStep}

theorem writeSteps_leaf {kind : TokenKind} {text : String} (leaf : cursor.tree = .leaf kind text)
    (out : SexprText) :
    writeSteps out (.enter cursor :: steps) = writeSteps (out.add text) steps := by
  rw [writeSteps, leaf]

theorem writeSteps_node {kind : NodeKind} {children : List Tree}
    (node : cursor.tree = .node kind children) (out : SexprText) :
    writeSteps out (.enter cursor :: steps) =
      writeSteps ⟨(out.add ("(" ++ kind.name)).text, false⟩
        (cursor.shownChildren.map SexprStep.enter ++ .close :: steps) := by
  rw [writeSteps, node]

/-- The children that a node shows. -/
theorem shown?_children {kind : NodeKind} {children : List Tree}
    (node : cursor.tree = .node kind children) :
    (cursor.shownChildren.map SexprStep.enter ++ .close :: steps).map shown? =
      (strippedAll children).map some ++ none :: steps.map shown? := by
  rw [List.map_append, List.map_map, ← stripped_sequence cursor.start, List.map_map, shownChildren,
    Cursor.children, node]
  rfl

/-- Steps that show the same write the same. -/
theorem writeSteps_of_shown {steps' : List SexprStep} (same : steps.map shown? = steps'.map shown?)
    (out : SexprText) : writeSteps out steps = writeSteps out steps' := by
  fun_induction writeSteps out steps generalizing steps' with
  | case1 out => rw [List.map_eq_nil_iff.mp same.symm, writeSteps]
  | case2 out steps ih =>
    obtain ⟨first, others, rfl, here, rest⟩ := List.map_eq_cons_iff.mp same.symm
    cases first with
    | enter => exact nomatch here
    | close => rw [writeSteps, ih rest.symm]
  | case3 out cursor steps kind text leaf ih =>
    obtain ⟨first, others, rfl, here, rest⟩ := List.map_eq_cons_iff.mp same.symm
    cases first with
    | close => exact nomatch here
    | enter cursor' =>
    have here : cursor'.tree.stripped = cursor.tree.stripped := Option.some.inj here
    rw [leaf, stripped] at here
    rw [writeSteps_leaf (leaf_of_stripped here), ih rest.symm]
  | case4 out cursor steps kind children node ih =>
    obtain ⟨first, others, rfl, here, rest⟩ := List.map_eq_cons_iff.mp same.symm
    cases first with
    | close => exact nomatch here
    | enter cursor' =>
    have here : cursor'.tree.stripped = cursor.tree.stripped := Option.some.inj here
    rw [node, stripped] at here
    obtain ⟨children', node', shown⟩ := node_of_stripped here
    rw [writeSteps_node node']
    refine ih ?_
    rw [shown?_children node, shown?_children node', shown, rest]

/-- Trees that differ only in whitespace and comments have the same s-expression. -/
theorem sexpr_of_stripped {cursor cursor' : Cursor}
    (same : cursor.tree.stripped = cursor'.tree.stripped) : cursor.sexpr = cursor'.sexpr := by
  have step : [SexprStep.enter cursor].map shown? = [SexprStep.enter cursor'].map shown? :=
    congrArg ([some ·]) same
  rw [sexpr, sexpr, writeSteps_of_shown step]

end Cursor

end LosslessSyntax
