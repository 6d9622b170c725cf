import LosslessSyntax.Proofs.Tree.Filling

/-! # The outline of a tree

The tokens of a tree are grouped in some way (`Tree.outline`). This and the leaves are all there is to
a tree (`Tree.eq_of_outlineAll`).
-/

namespace LosslessSyntax.Tree

mutual
/-- How the tokens of a tree are grouped. -/
def outline : Tree → Outline
  | .node kind children => .node kind (outlineAll children)
  | .leaf _ _ => .token
/-- How the tokens of several trees are grouped. -/
def outlineAll : List Tree → List Outline
  | [] => []
  | first :: rest => first.outline :: outlineAll rest
end

@[simp] theorem outline_node (kind : NodeKind) (children : List Tree) :
    (node kind children).outline = .node kind (outlineAll children) := by rw [outline]

@[simp] theorem outline_leaf (kind : TokenKind) (text : String) :
    (leaf kind text).outline = .token := by rw [outline]

@[simp] theorem outlineAll_nil : outlineAll [] = [] := by rw [outlineAll]

@[simp] theorem outlineAll_cons (first : Tree) (rest : List Tree) :
    outlineAll (first :: rest) = first.outline :: outlineAll rest := by rw [outlineAll]

@[simp] theorem outlineAll_append (front back : List Tree) :
    outlineAll (front ++ back) = outlineAll front ++ outlineAll back := by
  induction front with
  | nil => simp
  | cons first rest ih => simp [ih]

mutual
/-- Trees whose tokens are grouped in the same way have the same form. -/
theorem blank_of_outline {tree tree' : Tree} (same : tree.outline = tree'.outline) :
    tree.blank = tree'.blank := by
  match tree, tree' with
  | .node kind children, .node kind' children' =>
    rw [outline, outline] at same
    obtain ⟨rfl, others⟩ := Outline.node.inj same
    rw [blank_node, blank_node, blankAll_of_outlineAll others]
  | .node _ _, .leaf _ _ => rw [outline, outline] at same; exact nomatch same
  | .leaf _ _, .node _ _ => rw [outline, outline] at same; exact nomatch same
  | .leaf _ _, .leaf _ _ => rw [blank_leaf, blank_leaf]
theorem blankAll_of_outlineAll {trees trees' : List Tree}
    (same : outlineAll trees = outlineAll trees') : blankAll trees = blankAll trees' := by
  match trees, trees' with
  | [], [] => rfl
  | [], _ :: _ => rw [outlineAll, outlineAll] at same; exact nomatch same
  | _ :: _, [] => rw [outlineAll, outlineAll] at same; exact nomatch same
  | first :: rest, first' :: rest' =>
    rw [outlineAll_cons, outlineAll_cons] at same
    obtain ⟨here, others⟩ := List.cons.inj same
    rw [blankAll_cons, blankAll_cons, blank_of_outline here, blankAll_of_outlineAll others]
end

/-- Trees are known from how their tokens are grouped, and from their leaves. -/
theorem eq_of_outlineAll {trees trees' : List Tree} (grouped : outlineAll trees = outlineAll trees')
    (same : leavesAll trees = leavesAll trees') : trees = trees' :=
  eq_of_blankAll (blankAll_of_outlineAll grouped) same

end LosslessSyntax.Tree
