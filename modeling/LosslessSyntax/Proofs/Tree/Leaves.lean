import LosslessSyntax.Proofs.Tree.Filling
import LosslessSyntax.Tree.Walk

/-! # Leaves and their places

The leaves of a tree stand in the source one after the other (`Cursor.tokens_eq`). Looking for an
offset finds the leaf that covers it (`leafAt?_eq_some`, `tokenWithin?_eq_some`), with the leaves
before and after it. The tree with another leaf put at the path that was found is the one tree of
the same form with these leaves (`Replaces`).
-/

namespace LosslessSyntax

namespace Tree

@[simp] theorem width_node (kind : NodeKind) (children : List Tree) :
    (node kind children).width = widthAll children := by rw [width]

@[simp] theorem width_leaf (kind : TokenKind) (text : String) :
    (leaf kind text).width = text.utf8ByteSize := by rw [width]

@[simp] theorem widthAll_nil : widthAll [] = 0 := by rw [widthAll]

@[simp] theorem widthAll_cons (first : Tree) (rest : List Tree) :
    widthAll (first :: rest) = first.width + widthAll rest := by rw [widthAll]

@[simp] theorem widthAll_append (front back : List Tree) :
    widthAll (front ++ back) = widthAll front + widthAll back := by
  induction front with
  | nil => simp
  | cons first front ih => simp [ih, Nat.add_assoc]

end Tree

namespace Leaf

/-- Length of the text of some leaves, in bytes. -/
def width (leaves : List Leaf) : Nat := Tree.widthAll (leaves.map toTree)

@[simp] theorem width_nil : width [] = 0 := by simp [width]

@[simp] theorem width_cons (first : Leaf) (rest : List Leaf) :
    width (first :: rest) = first.2.utf8ByteSize + width rest := by
  simp [width, toTree]

@[simp] theorem width_append (front back : List Leaf) :
    width (front ++ back) = width front + width back := by
  simp [width]

theorem utf8ByteSize_join (leaves : List Leaf) :
    (String.join (leaves.map (·.2))).utf8ByteSize = width leaves := by
  induction leaves with
  | nil => rfl
  | cons first rest ih =>
    rw [List.map_cons, String.join_cons, String.utf8ByteSize_append, ih, width_cons]

end Leaf

namespace Tree

mutual
/-- A tree is as wide as its leaves. -/
theorem width_leaves (tree : Tree) : Leaf.width tree.leaves = tree.width := by
  match tree with
  | .node kind children => rw [leaves_node, width_node, width_leavesAll children]
  | .leaf kind text => simp [leaves]
theorem width_leavesAll (trees : List Tree) : Leaf.width (leavesAll trees) = widthAll trees := by
  match trees with
  | [] => simp
  | first :: rest =>
    rw [leavesAll_cons, Leaf.width_append, widthAll_cons, width_leaves first, width_leavesAll rest]
end

theorem utf8ByteSize_text (tree : Tree) : tree.text.utf8ByteSize = tree.width := by
  rw [text, Leaf.utf8ByteSize_join, width_leaves]

end Tree

namespace Cursor

open LosslessSyntax.Tree

theorem sequence_append (start : Nat) (front back : List Tree) :
    sequence start (front ++ back) =
      sequence start front ++ sequence (start + widthAll front) back := by
  induction front generalizing start with
  | nil => simp [sequence]
  | cons first front ih => simp [sequence, ih, Nat.add_assoc]

@[simp] theorem length_sequence (start : Nat) (trees : List Tree) :
    (sequence start trees).length = trees.length := by
  induction trees generalizing start with
  | nil => rfl
  | cons first rest ih => exact congrArg (· + 1) (ih _)

/-- Of trees that follow each other, each stands behind those before it. -/
theorem getElem?_sequence {start index : Nat} {trees : List Tree} {cursor : Cursor}
    (found : (sequence start trees)[index]? = some cursor) :
    trees[index]? = some cursor.tree ∧ cursor.start = start + widthAll (trees.take index) := by
  induction trees generalizing start index with
  | nil => exact nomatch found
  | cons first rest ih =>
    cases index with
    | zero =>
      obtain rfl := Option.some.inj found
      exact ⟨rfl, by simp⟩
    | succ index =>
      obtain ⟨tree, place⟩ := @ih _ index found
      refine ⟨tree, ?_⟩
      rw [place, List.take_succ_cons, widthAll_cons, Nat.add_assoc]

theorem exists_of_mem_sequence {start : Nat} {trees : List Tree} {cursor : Cursor}
    (member : cursor ∈ sequence start trees) :
    ∃ before after, trees = before ++ cursor.tree :: after ∧
      cursor.start = start + widthAll before := by
  obtain ⟨index, found⟩ := List.mem_iff_getElem?.mp member
  obtain ⟨tree, place⟩ := getElem?_sequence found
  obtain ⟨within, here⟩ := List.getElem?_eq_some_iff.mp tree
  refine ⟨trees.take index, trees.drop (index + 1), ?_, place⟩
  rw [← here, List.getElem_cons_drop, List.take_append_drop]

/-- The leaves of a text that begins at an offset. -/
def ofLeaves (start : Nat) (leaves : List Leaf) : List Cursor :=
  sequence start (leaves.map Leaf.toTree)

theorem ofLeaves_append (start : Nat) (front back : List Leaf) :
    ofLeaves start (front ++ back) =
      ofLeaves start front ++ ofLeaves (start + Leaf.width front) back := by
  rw [ofLeaves, List.map_append, sequence_append]
  rfl

theorem ownText_ofLeaves (start : Nat) (leaves : List Leaf) :
    (ofLeaves start leaves).map ownText = leaves.map (·.2) := by
  induction leaves generalizing start with
  | nil => rfl
  | cons first rest ih => exact congrArg (first.2 :: ·) (ih _)

mutual
theorem leavesOfStack_tree (tree : Tree) (start : Nat) (stack : List Cursor) :
    leavesOfStack (⟨tree, start⟩ :: stack) = ofLeaves start tree.leaves ++ leavesOfStack stack := by
  match tree with
  | .node kind children =>
    rw [leavesOfStack, leaves_node, ← leavesOfStack_sequence children start stack]
    rfl
  | .leaf kind text =>
    rw [leavesOfStack]
    simp [leaves, ofLeaves, sequence, Leaf.toTree]
theorem leavesOfStack_sequence (trees : List Tree) (start : Nat) (stack : List Cursor) :
    leavesOfStack (sequence start trees ++ stack) =
      ofLeaves start (leavesAll trees) ++ leavesOfStack stack := by
  match trees with
  | [] => simp [sequence, ofLeaves]
  | first :: rest =>
    rw [sequence, List.cons_append, leavesOfStack_tree first start,
      leavesOfStack_sequence rest (start + first.width) stack, leavesAll_cons, ofLeaves_append,
      width_leaves, List.append_assoc]
end

/-- The leaves of a tree stand one after the other. -/
theorem tokens_eq (cursor : Cursor) : cursor.tokens = ofLeaves cursor.start cursor.tree.leaves := by
  rw [tokens, leavesOfStack_tree, leavesOfStack, List.append_nil]

/-- The leaves of a tree, with what stands before and behind each of them. -/
theorem exists_of_mem_tokens {tree : Tree} {token : Cursor}
    (member : token ∈ (ofRoot tree).tokens) :
    ∃ front leaf back, tree.leaves = front ++ leaf :: back ∧ token.tree = leaf.toTree ∧
      token.start = Leaf.width front := by
  rw [tokens_eq] at member
  obtain ⟨before, after, split, place⟩ := exists_of_mem_sequence member
  obtain ⟨front, rest, leaves, rfl, others⟩ := List.map_eq_append_iff.mp split
  obtain ⟨leaf, back, rfl, here, -⟩ := List.map_eq_cons_iff.mp others
  exact ⟨front, leaf, back, leaves, here.symm, place.trans (Nat.zero_add _)⟩

theorem mem_tokens_of_split {tree : Tree} {front back : List Leaf} {leaf : Leaf}
    (split : tree.leaves = front ++ leaf :: back) :
    ⟨leaf.toTree, Leaf.width front⟩ ∈ (ofRoot tree).tokens := by
  rw [tokens_eq, ofRoot, split, ofLeaves_append, Nat.zero_add]
  exact List.mem_append_right _ List.mem_cons_self

end Cursor

/-- An offset lies in the leaf between two parts of a text. -/
structure Leaf.Holds (start offset : Nat) (leaves before : List Leaf) (leaf : Leaf)
    (after : List Leaf) : Prop where
  split : leaves = before ++ leaf :: after
  reached : start + width before ≤ offset
  within : offset < start + width before + leaf.2.utf8ByteSize

theorem Leaf.Holds.append_right {start offset : Nat} {leaves before after : List Leaf} {leaf : Leaf}
    (holds : Holds start offset leaves before leaf after) (more : List Leaf) :
    Holds start offset (leaves ++ more) before leaf (after ++ more) :=
  ⟨by rw [holds.split, List.append_assoc, List.cons_append], holds.reached, holds.within⟩

theorem Leaf.Holds.append_left {start offset : Nat} {leaves before after front : List Leaf}
    {leaf : Leaf} (holds : Holds (start + width front) offset leaves before leaf after) :
    Holds start offset (front ++ leaves) (front ++ before) leaf after := by
  obtain ⟨split, reached, within⟩ := holds
  exact ⟨by rw [split, List.append_assoc], by rw [width_append]; omega,
    by rw [width_append]; omega⟩

/-- Only one leaf holds an offset. -/
theorem Leaf.Holds.unique {start offset : Nat} {leaves before after before' after' : List Leaf}
    {leaf leaf' : Leaf} (holds : Holds start offset leaves before leaf after)
    (holds' : Holds start offset leaves before' leaf' after') : before = before' ∧ leaf = leaf' := by
  obtain ⟨rfl, reached, within⟩ := holds
  obtain ⟨split, reached', within'⟩ := holds'
  rcases List.append_eq_append_iff.mp split with ⟨more, rfl, right⟩ | ⟨more, rfl, right⟩
  · cases more with
    | nil => exact ⟨(List.append_nil before).symm, (List.cons.inj right).1⟩
    | cons first more =>
      rw [List.cons_append, List.cons.injEq] at right
      obtain ⟨rfl, -⟩ := right
      simp only [width_append, width_cons] at reached'
      omega
  · cases more with
    | nil => exact ⟨List.append_nil before', (List.cons.inj right).1.symm⟩
    | cons first more =>
      rw [List.cons_append, List.cons.injEq] at right
      obtain ⟨rfl, -⟩ := right
      simp only [width_append, width_cons] at reached
      omega

namespace Cursor

open LosslessSyntax.Tree

mutual
/-- The search for an offset within a tree finds the leaf that holds it. -/
theorem tokenWithin?_eq_some {offset start : Nat} {tree : Tree} (reached : start ≤ offset)
    (within : offset < start + tree.width) :
    ∃ before leaf after, Leaf.Holds start offset tree.leaves before leaf after ∧
      tokenWithin? offset start tree = some ⟨leaf.toTree, start + Leaf.width before⟩ := by
  match tree with
  | .leaf kind text =>
    refine ⟨[], (kind, text), [], ⟨by simp [leaves], by simpa using reached, ?_⟩, ?_⟩
    · simpa using within
    · rw [tokenWithin?]
      rfl
  | .node kind children =>
    rw [tokenWithin?, leaves_node]
    exact tokenAmong?_eq_some reached (by rwa [width_node] at within)
theorem tokenAmong?_eq_some {offset start : Nat} {trees : List Tree} (reached : start ≤ offset)
    (within : offset < start + widthAll trees) :
    ∃ before leaf after, Leaf.Holds start offset (leavesAll trees) before leaf after ∧
      tokenAmong? offset start trees = some ⟨leaf.toTree, start + Leaf.width before⟩ := by
  match trees with
  | [] => simp at within; omega
  | [last] =>
    rw [tokenAmong?, leavesAll_cons, leavesAll_nil, List.append_nil]
    exact tokenWithin?_eq_some reached (by simpa using within)
  | first :: second :: rest =>
    rw [tokenAmong?]
    split
    case isTrue here =>
      have inside : offset < start + first.width :=
        of_decide_eq_true (Bool.and_eq_true_iff.mp here).2
      obtain ⟨before, leaf, after, holds, found⟩ := tokenWithin?_eq_some reached inside
      exact ⟨before, leaf, _, holds.append_right (leavesAll (second :: rest)), found⟩
    case isFalse other =>
      have outside : ¬ offset < start + first.width := fun inside =>
        other (Bool.and_eq_true_iff.mpr ⟨decide_eq_true reached, decide_eq_true inside⟩)
      rw [widthAll_cons] at within
      have reached' : start + first.width ≤ offset := by omega
      have within' : offset < start + first.width + widthAll (second :: rest) := by omega
      obtain ⟨before, leaf, after, holds, found⟩ := tokenAmong?_eq_some reached' within'
      rw [← width_leaves] at holds found
      refine ⟨first.leaves ++ before, leaf, after, holds.append_left, ?_⟩
      rw [Leaf.width_append, ← Nat.add_assoc, ← width_leaves, found]
end

end Cursor

namespace Tree

/-- Putting another tree at a path changes a tree into a third one. -/
def Replaces (path : List Nat) (replacement tree tree' : Tree) : Prop :=
  (path = [] ∧ tree' = replacement) ∨ (path ≠ [] ∧ tree.replaceAt? path replacement = some tree')

theorem isNode_of_replaceAt? {path : List Nat} {replacement tree tree' : Tree} (some' : path ≠ [])
    (replaced : tree.replaceAt? path replacement = some tree') : tree.isNode = true := by
  cases tree with
  | node kind children => rfl
  | leaf kind text =>
    match path with
    | [] => exact absurd rfl some'
    | [index] => simp [replaceAt?, children] at replaced
    | index :: next :: path => simp [replaceAt?, children] at replaced

theorem replaceChild_append (kind : NodeKind) (before : List Tree) (child child' : Tree)
    (after : List Tree) :
    (node kind (before ++ child :: after)).replaceChild before.length child' =
      node kind (before ++ child' :: after) := by
  simp [replaceChild, spliceChildren]

/-- A tree in which one child is changed. -/
theorem Replaces.node {path : List Nat} {replacement child child' : Tree}
    (replaces : Replaces path replacement child child') (kind : NodeKind)
    (before after : List Tree) :
    (node kind (before ++ child :: after)).replaceAt? (before.length :: path) replacement =
      some (.node kind (before ++ child' :: after)) := by
  have here : (before ++ child :: after)[before.length]? = some child := by simp
  rcases replaces with ⟨rfl, rfl⟩ | ⟨some', replaced⟩
  · rw [replaceAt?]
    simp only [children, here, Option.bind_eq_bind, Option.bind_some, replaceChild_append]
  · obtain ⟨next, path, rfl⟩ := List.exists_cons_of_ne_nil some'
    have inner := isNode_of_replaceAt? some' replaced
    rw [replaceAt?]
    simp only [children, here, Option.bind_eq_bind, Option.bind_some, inner, replaced,
      replaceChild_append, Bool.not_true, Bool.false_eq_true, ↓reduceIte]

theorem Replaces.of_node {path : List Nat} {replacement child child' : Tree}
    (replaces : Replaces path replacement child child') (kind : NodeKind)
    (before after : List Tree) :
    Replaces (before.length :: path) replacement (.node kind (before ++ child :: after))
      (.node kind (before ++ child' :: after)) :=
  .inr ⟨List.cons_ne_nil _ _, replaces.node kind before after⟩

mutual
/-- The search for the leaf at an offset finds the leaf that holds it. Putting another leaf there
gives the tree of the same form in which just this leaf is changed. -/
theorem leafAt?_eq_some {offset start place : Nat} {path : List Nat} {kind : TokenKind}
    {text : String} {tree : Tree} (reached : start ≤ offset)
    (found : tree.leafAt? offset start = some (path, place, kind, text)) :
    ∃ before after, Leaf.Holds start offset tree.leaves before (kind, text) after ∧
      place = start + Leaf.width before ∧
      ∀ (leaf' : Leaf) (tree' : Tree), tree'.blank = tree.blank →
        tree'.leaves = before ++ leaf' :: after → Replaces path leaf'.toTree tree tree' := by
  match tree with
  | .leaf kind' text' =>
    rw [leafAt?] at found
    split at found
    case isFalse => exact nomatch found
    case isTrue inside =>
    obtain ⟨rfl, rfl, rfl, rfl⟩ : path = [] ∧ place = start ∧ kind' = kind ∧ text' = text := by
      simpa [eq_comm] using found
    refine ⟨[], [], ⟨by simp [leaves], by simpa using reached, by simpa using inside⟩, by simp, ?_⟩
    intro leaf' tree' form same
    refine .inl ⟨rfl, eq_of_blank (form.trans ?_) ?_⟩
    · simp [Leaf.toTree]
    · rw [leaves_toTree, same]
      rfl
  | .node kind' children =>
    rw [leafAt?] at found
    obtain ⟨before, child, after, rest, rfl, rfl, front, back, holds, rfl, replaces⟩ :=
      leafAmong?_eq_some reached found
    refine ⟨front, back, by rwa [leaves_node], rfl, fun leaf' tree' form same => ?_⟩
    obtain ⟨children', rfl⟩ : ∃ children', tree' = .node kind' children' := by
      cases tree' with
      | node kind'' children' =>
        rw [blank_node, blank_node, node.injEq] at form
        exact ⟨children', by rw [form.1]⟩
      | leaf kind'' text' => simp at form
    rw [blank_node, blank_node, node.injEq] at form
    rw [leaves_node] at same
    obtain ⟨child', rfl, replaces⟩ := replaces leaf' children' form.2 same
    rw [Nat.zero_add]
    exact replaces.of_node kind' before after
/-- The same among several trees of which the first has the given index. -/
theorem leafAmong?_eq_some {offset start index place : Nat} {path : List Nat} {kind : TokenKind}
    {text : String} {trees : List Tree} (reached : start ≤ offset)
    (found : leafAmong? offset start index trees = some (path, place, kind, text)) :
    ∃ before child after rest, trees = before ++ child :: after ∧
      path = (index + before.length) :: rest ∧
      ∃ front back, Leaf.Holds start offset (leavesAll trees) front (kind, text) back ∧
        place = start + Leaf.width front ∧
        ∀ (leaf' : Leaf) (trees' : List Tree), blankAll trees' = blankAll trees →
          leavesAll trees' = front ++ leaf' :: back →
            ∃ child', trees' = before ++ child' :: after ∧
              Replaces rest leaf'.toTree child child' := by
  match trees with
  | [] => simp [leafAmong?] at found
  | first :: others =>
    rw [leafAmong?] at found
    split at found
    case isTrue inside =>
      obtain ⟨⟨rest, place', kind', text'⟩, inner, same⟩ := Option.map_eq_some_iff.mp found
      obtain ⟨rfl, rfl, rfl, rfl⟩ : path = index :: rest ∧ place' = place ∧ kind' = kind ∧
          text' = text := by simpa [eq_comm] using same
      obtain ⟨front, back, holds, place, replaces⟩ := leafAt?_eq_some reached inner
      refine ⟨[], first, others, rest, rfl, rfl, front, back ++ leavesAll others,
        holds.append_right _, place, fun leaf' trees' form same => ?_⟩
      obtain ⟨first', others', rfl⟩ : ∃ first' others', trees' = first' :: others' := by
        cases trees' with
        | nil => simp at form
        | cons first' others' => exact ⟨first', others', rfl⟩
      rw [blankAll_cons, blankAll_cons, List.cons.injEq] at form
      rw [leavesAll_cons, ← List.cons_append, ← List.append_assoc] at same
      obtain ⟨here, others_eq⟩ := List.append_inj same (by
        rw [length_leaves_of_blank form.1, holds.split]
        simp)
      refine ⟨first', ?_, replaces leaf' first' form.1 here⟩
      rw [eq_of_blankAll form.2 others_eq, List.nil_append]
    case isFalse outside =>
      obtain ⟨before, child, after, rest, rfl, rfl, front, back, holds, rfl, replaces⟩ :=
        leafAmong?_eq_some (by omega) found
      rw [← width_leaves] at holds
      refine ⟨first :: before, child, after, rest, rfl, ?_, first.leaves ++ front, back,
        holds.append_left, ?_, fun leaf' trees' form same => ?_⟩
      · rw [List.length_cons, Nat.add_assoc, Nat.add_comm 1]
      · rw [Leaf.width_append, width_leaves, Nat.add_assoc]
      obtain ⟨first', others', rfl⟩ : ∃ first' others', trees' = first' :: others' := by
        cases trees' with
        | nil => simp at form
        | cons first' others' => exact ⟨first', others', rfl⟩
      rw [blankAll_cons, blankAll_cons, List.cons.injEq] at form
      rw [leavesAll_cons, List.append_assoc] at same
      obtain ⟨first_eq, here⟩ := List.append_inj same (length_leaves_of_blank form.1)
      obtain ⟨child', rfl, replaces⟩ := replaces leaf' others' form.2 here
      exact ⟨child', by rw [eq_of_blank form.1 first_eq, List.cons_append], replaces⟩
end

end Tree

end LosslessSyntax
