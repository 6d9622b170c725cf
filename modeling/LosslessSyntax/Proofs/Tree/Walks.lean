import LosslessSyntax.Proofs.Tree.Leaves

/-! # What the walks visit

The walks keep a stack, and at each step what is still to be visited is what the recursive
definitions list for the cursors on the stack, one after the other (`Cursor.nodesOfStack_eq`,
`Cursor.leavesOfStack_tree`). So a walk visits the leaves from left to right (`Cursor.leavesFrom`) and
the nodes each before those below it (`Cursor.nodesFrom`), all in their places. The leaves of a node
fill its span without a gap (`Span.Tiled`), and they are those of the whole tree between two
offsets (`Cursor.exists_of_mem_nodesFrom`).
-/

namespace LosslessSyntax

open LosslessSyntax.Tree

/-- Spans that follow each other without a gap, from one offset to another. -/
def Span.Tiled : Nat → Nat → List Span → Prop
  | start, stop, [] => start = stop
  | start, stop, first :: rest =>
    first.start = start ∧ first.start ≤ first.stop ∧ Tiled first.stop stop rest

namespace Cursor

theorem tiled_ofLeaves (start : Nat) (leaves : List Leaf) :
    Span.Tiled start (start + Leaf.width leaves) ((ofLeaves start leaves).map span) := by
  induction leaves generalizing start with
  | nil => exact (Nat.add_zero start).symm
  | cons first rest ih =>
    have others := ih (start + first.toTree.width)
    have width : first.toTree.width = first.2.utf8ByteSize := by rw [Leaf.toTree, width_leaf]
    rw [Nat.add_assoc, width] at others
    refine ⟨rfl, Nat.le_add_right _ _, ?_⟩
    rw [Leaf.width_cons]
    change Span.Tiled (start + first.toTree.width) _ _
    rwa [width]

mutual
/-- The leaves of a tree that starts at an offset, from left to right. -/
def leavesFrom (start : Nat) : Tree → List Cursor
  | .leaf kind text => [⟨.leaf kind text, start⟩]
  | .node _ children => leavesFromAll start children
/-- The leaves of trees that follow each other from an offset on. -/
def leavesFromAll (start : Nat) : List Tree → List Cursor
  | [] => []
  | first :: rest => leavesFrom start first ++ leavesFromAll (start + first.width) rest
end

mutual
/-- The nodes of a tree that starts at an offset, each before those below it. -/
def nodesFrom (start : Nat) : Tree → List Cursor
  | .leaf _ _ => []
  | .node kind children => ⟨.node kind children, start⟩ :: nodesFromAll start children
/-- The nodes of trees that follow each other from an offset on. -/
def nodesFromAll (start : Nat) : List Tree → List Cursor
  | [] => []
  | first :: rest => nodesFrom start first ++ nodesFromAll (start + first.width) rest
end

mutual
theorem leavesFrom_eq (start : Nat) (tree : Tree) :
    leavesFrom start tree = ofLeaves start tree.leaves := by
  match tree with
  | .leaf kind text => rw [leavesFrom, leaves]; rfl
  | .node kind children => rw [leavesFrom, leaves_node, leavesFromAll_eq start children]
theorem leavesFromAll_eq (start : Nat) (trees : List Tree) :
    leavesFromAll start trees = ofLeaves start (leavesAll trees) := by
  match trees with
  | [] => rw [leavesFromAll, leavesAll_nil]; rfl
  | first :: rest =>
    rw [leavesFromAll, leavesFrom_eq start first, leavesFromAll_eq (start + first.width) rest,
      leavesAll_cons, ofLeaves_append, width_leaves]
end

theorem nodesOfStack_cons (top : Cursor) (stack : List Cursor) :
    nodesOfStack (top :: stack) = top :: nodesOfStack (top.childNodes ++ stack) := by
  rw [nodesOfStack]

/-- The cursors on a stack are visited one after the other. -/
theorem nodesOfStack_append (front back : List Cursor) :
    nodesOfStack (front ++ back) = nodesOfStack front ++ nodesOfStack back := by
  induction size : sizeAll front using Nat.strongRecOn generalizing front with
  | _ n ih =>
  cases front with
  | nil => rw [List.nil_append, nodesOfStack, List.nil_append]
  | cons top front =>
    have shorter : sizeAll (top.childNodes ++ front) < n := by
      have := sizeAll_children_lt top
      have := sizeAll_filter_le (·.tree.isNode) top.children
      rw [← size, sizeAll_append, sizeAll_cons, childNodes]
      omega
    rw [List.cons_append, nodesOfStack_cons, nodesOfStack_cons, ← List.append_assoc,
      ih _ shorter _ rfl, List.cons_append]

theorem descendants_eq (cursor : Cursor) :
    cursor.descendants = cursor :: nodesOfStack cursor.childNodes := by
  rw [descendants, nodesOfStack_cons, List.append_nil]

/-- The nodes among trees that follow each other from an offset on. -/
def nodesAmong (start : Nat) (trees : List Tree) : List Cursor :=
  (sequence start trees).filter (·.tree.isNode)

theorem nodesAmong_append (start : Nat) (front back : List Tree) :
    nodesAmong start (front ++ back) =
      nodesAmong start front ++ nodesAmong (start + widthAll front) back := by
  rw [nodesAmong, sequence_append, List.filter_append]
  rfl

theorem nodesAmong_leaves (start : Nat) (leaves : List Leaf) :
    nodesAmong start (leaves.map Leaf.toTree) = [] := by
  induction leaves generalizing start with
  | nil => rfl
  | cons first rest ih => exact ih _

theorem nodesAmong_node (start : Nat) (kind : NodeKind) (children : List Tree) :
    nodesAmong start [.node kind children] = [⟨.node kind children, start⟩] := rfl

theorem isNode_of_mem_childNodes {cursor child : Cursor} (member : child ∈ cursor.childNodes) :
    child.tree.isNode = true := (List.mem_filter.mp member).2

/-- The nodes below some trees are those below the ones among them that are nodes. -/
theorem flatMap_nodesFrom (start : Nat) (trees : List Tree) :
    (nodesAmong start trees).flatMap (fun node => nodesFrom node.start node.tree) =
      nodesFromAll start trees := by
  induction trees generalizing start with
  | nil => rw [nodesFromAll]; rfl
  | cons first rest ih =>
    rw [nodesAmong, sequence, List.filter_cons, nodesFromAll, ← ih]
    cases first with
    | leaf kind text => rw [nodesFrom]; rfl
    | node kind children => rfl

theorem nodesFrom_of_isNode {node : Cursor} (inner : node.tree.isNode = true) :
    nodesFrom node.start node.tree =
      node :: node.childNodes.flatMap fun child => nodesFrom child.start child.tree := by
  obtain ⟨tree, start⟩ := node
  cases tree with
  | leaf => exact nomatch inner
  | node kind children =>
    rw [nodesFrom, ← flatMap_nodesFrom]
    rfl

/-- What is still to be visited are the nodes at and below those on the stack. -/
theorem nodesOfStack_eq {stack : List Cursor} (nodes : ∀ top ∈ stack, top.tree.isNode = true) :
    nodesOfStack stack = stack.flatMap fun top => nodesFrom top.start top.tree := by
  fun_induction nodesOfStack stack with
  | case1 => rfl
  | case2 top stack ih =>
    obtain ⟨inner, others⟩ := List.forall_mem_cons.mp nodes
    have below : ∀ next ∈ top.childNodes ++ stack, next.tree.isNode = true := fun next member =>
      (List.mem_append.mp member).elim isNode_of_mem_childNodes (others next)
    rw [ih below, List.flatMap_append, List.flatMap_cons, nodesFrom_of_isNode inner, List.cons_append]

theorem descendants_eq_nodesFrom {node : Cursor} (inner : node.tree.isNode = true) :
    node.descendants = nodesFrom node.start node.tree := by
  have only : ∀ top ∈ [node], top.tree.isNode = true := by simpa using inner
  rw [descendants, nodesOfStack_eq only, List.flatMap_singleton]

mutual
/-- The leaves of a node below a tree are some that follow each other, and it stands where they do. -/
theorem exists_of_mem_nodesFrom {start : Nat} {tree : Tree} {node : Cursor}
    (member : node ∈ nodesFrom start tree) :
    ∃ front back, tree.leaves = front ++ node.tree.leaves ++ back ∧
      node.start = start + Leaf.width front := by
  match tree with
  | .leaf kind text =>
    rw [nodesFrom] at member
    exact absurd member List.not_mem_nil
  | .node kind children =>
    rw [nodesFrom] at member
    rcases List.mem_cons.mp member with rfl | below
    · exact ⟨[], [], by simp, rfl⟩
    · rw [leaves_node]
      exact exists_of_mem_nodesFromAll below
theorem exists_of_mem_nodesFromAll {start : Nat} {trees : List Tree} {node : Cursor}
    (member : node ∈ nodesFromAll start trees) :
    ∃ front back, leavesAll trees = front ++ node.tree.leaves ++ back ∧
      node.start = start + Leaf.width front := by
  match trees with
  | [] =>
    rw [nodesFromAll] at member
    exact absurd member List.not_mem_nil
  | first :: rest =>
    rw [nodesFromAll] at member
    rcases List.mem_append.mp member with here | later
    · obtain ⟨front, back, leaves, place⟩ := exists_of_mem_nodesFrom here
      refine ⟨front, back ++ leavesAll rest, ?_, place⟩
      rw [leavesAll_cons, leaves, List.append_assoc]
    · obtain ⟨front, back, leaves, place⟩ := exists_of_mem_nodesFromAll later
      refine ⟨first.leaves ++ front, back, ?_, ?_⟩
      · rw [leavesAll_cons, leaves]
        simp only [List.append_assoc]
      · rw [place, Leaf.width_append, width_leaves, Nat.add_assoc]
end

/-- The leaves before a node below another one, its own, and those behind it. -/
theorem exists_tokens_of_mem_nodesFrom {outer node : Cursor}
    (member : node ∈ nodesFrom outer.start outer.tree) :
    ∃ front back, outer.tokens = front ++ node.tokens ++ back ∧
      Span.Tiled outer.span.start node.span.start (front.map span) ∧
      Span.Tiled node.span.start node.span.stop (node.tokens.map span) ∧
      Span.Tiled node.span.stop outer.span.stop (back.map span) := by
  obtain ⟨front, back, leaves, place⟩ := exists_of_mem_nodesFrom member
  have stop : node.span.stop = outer.start + Leaf.width (front ++ node.tree.leaves) := by
    rw [Leaf.width_append, width_leaves, ← Nat.add_assoc, ← place]
    rfl
  have whole : outer.span.stop = node.span.stop + Leaf.width back := by
    rw [stop, Nat.add_assoc, ← Leaf.width_append, ← leaves, width_leaves]
    rfl
  refine ⟨ofLeaves outer.start front, ofLeaves node.span.stop back, ?_, ?_, ?_, ?_⟩
  · rw [tokens_eq, tokens_eq, leaves, ofLeaves_append, ofLeaves_append, ← place, stop]
  · rw [span, Span.ofLength, span, Span.ofLength, place]
    exact tiled_ofLeaves outer.start front
  · rw [tokens_eq, span, Span.ofLength, ← width_leaves]
    exact tiled_ofLeaves node.start node.tree.leaves
  · rw [whole]
    exact tiled_ofLeaves node.span.stop back

/-- The walks over a node, wherever it stands, visit what the recursive definitions list. The leaves
fill the span of the node without a gap, and so do those of every node below it, which are among
them. Their texts are the text of the node, and as long as the node is wide. -/
theorem walks_eq (kind : NodeKind) (children : List Tree) (start : Nat) :
    let node : Cursor := ⟨.node kind children, start⟩
    node.tokens = leavesFrom start node.tree ∧
      node.descendants = nodesFrom start node.tree ∧
      Span.Tiled node.span.start node.span.stop (node.tokens.map span) ∧
      (∀ inner ∈ node.descendants, ∃ front back, node.tokens = front ++ inner.tokens ++ back ∧
        Span.Tiled node.span.start inner.span.start (front.map span) ∧
        Span.Tiled inner.span.start inner.span.stop (inner.tokens.map span) ∧
        Span.Tiled inner.span.stop node.span.stop (back.map span)) ∧
      node.text = String.join (node.tree.leaves.map (·.2)) ∧
      node.text.utf8ByteSize = node.tree.width := by
  intro node
  have descendants : node.descendants = nodesFrom start node.tree := descendants_eq_nodesFrom rfl
  have text : node.text = String.join (node.tree.leaves.map (·.2)) := by
    rw [Cursor.text, tokens_eq, ownText_ofLeaves]
  refine ⟨?_, descendants, ?_, fun inner member => ?_, text, ?_⟩
  · rw [tokens_eq, leavesFrom_eq]
  · rw [tokens_eq, span, Span.ofLength, ← width_leaves]
    exact tiled_ofLeaves node.start node.tree.leaves
  · rw [descendants] at member
    exact exists_tokens_of_mem_nodesFrom member
  · rw [text]
    exact utf8ByteSize_text node.tree

theorem walks_eq_beside_empty :
    let node : Cursor :=
      ⟨.node .letStmt [.leaf .letWord "let", .node .error [], .node .binding [.leaf .ident "x"]], 4⟩
    let inner : Cursor := ⟨.node .binding [.leaf .ident "x"], 7⟩
    inner ∈ node.descendants ∧ ∃ front back, node.tokens = front ++ inner.tokens ++ back ∧
      Span.Tiled node.span.start inner.span.start (front.map span) ∧
      Span.Tiled inner.span.start inner.span.stop (inner.tokens.map span) ∧
      Span.Tiled inner.span.stop node.span.stop (back.map span) := by
  intro node inner
  obtain ⟨-, descendants, -, among, -⟩ := walks_eq .letStmt node.tree.children 4
  have member : inner ∈ node.descendants := by
    change node.descendants = [node, ⟨.node .error [], 7⟩, inner] at descendants
    rw [descendants]
    exact .tail _ (.tail _ (.head _))
  exact ⟨member, among inner member⟩

end Cursor

end LosslessSyntax
