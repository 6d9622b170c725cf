import LosslessSyntax.Proofs.Tree.Filling

/-! # Planting outlines

What stands below a root are the outlines of its statements filled with the leaves of the text, and
the leaves after the last of them (`Outline.plant`). Where the leaves are cut in front of a
significant one, and the outlines where that one begins, the trees are cut too (`plant_append`); if
no node is empty, they are also cut in front of other leaves. Each of the trees that is not an
insignificant leaf begins in front of a significant one (`exists_cut`).
-/

namespace LosslessSyntax

namespace Leaf

/-- Leaves that do not begin with an insignificant one. -/
def Opens (leaves : List Leaf) : Prop := ∀ leaf, leaves.head? = some leaf → leaf.isSignificant = true

theorem opens_nil : Opens [] := fun _ none => nomatch none

theorem opens_cons {leaf : Leaf} {rest : List Leaf} (significant : leaf.isSignificant = true) :
    Opens (leaf :: rest) := fun _ head => Option.some.inj head ▸ significant

theorem Opens.of_append {front back : List Leaf} (opens : Opens (front ++ back)) : Opens front :=
  fun leaf head => opens leaf (by rw [List.head?_append, head, Option.some_or])

theorem opens_unskipped (leaves : List Leaf) : Opens (unskipped leaves) := fun _ => unskipped_head

/-- What is skipped in front does not depend on leaves from a significant one on, or after one. -/
theorem skipped_append {front back : List Leaf} (apart : Opens back ∨ 0 < total front) :
    skipped (front ++ back) = skipped front ∧ unskipped (front ++ back) = unskipped front ++ back := by
  have cut := @skipped_of_append (skipped front) (unskipped front ++ back)
    insignificant_of_mem_skipped fun leaf head => by
      cases left : unskipped front with
      | nil =>
        have opens : Opens back := apart.resolve_right fun some => by
          rw [← total_unskipped, left] at some
          exact Nat.lt_irrefl 0 some
        rw [left] at head
        exact opens leaf head
      | cons first others =>
        rw [left] at head
        exact opens_unskipped front leaf (by rw [left]; exact head)
  rwa [← List.append_assoc, skipped_append_unskipped] at cut

/-- Where a leaf is significant, something is left behind what is skipped. -/
theorem exists_unskipped {leaves : List Leaf} (some : 0 < total leaves) :
    ∃ first others, unskipped leaves = first :: others :=
  List.exists_cons_of_ne_nil fun none => by
    rw [← total_unskipped, none] at some
    exact Nat.lt_irrefl 0 some

theorem skipped_of_total {leaves : List Leaf} (none : total leaves = 0) :
    skipped leaves = leaves ∧ unskipped leaves = [] := by
  have cut := @skipped_of_append leaves []
    (fun leaf member => Bool.eq_false_iff.mpr (List.countP_eq_zero.mp none leaf member)) opens_nil
  rwa [List.append_nil] at cut

end Leaf

namespace Outline

open Leaf LosslessSyntax.Tree

mutual
/-- An outline takes no notice of leaves that it does not need: from a significant one on, or of any
if no node in it is empty. -/
theorem fill_append {front back : List Leaf} {outline : Outline}
    (apart : Opens back ∨ outline.Solid) (enough : outline.count ≤ total front) :
    fill (front ++ back) outline = ((fill front outline).1, (fill front outline).2 ++ back) := by
  obtain ⟨skip, left⟩ := @skipped_append front back
    (apart.imp_right fun solid => Nat.lt_of_lt_of_le solid.count_pos enough)
  match outline with
  | .token =>
    obtain ⟨first, others, some⟩ := exists_unskipped enough
    rw [fill_token, fill_token, skip, left, some]
    rfl
  | .node kind children =>
    rw [count_node, ← total_unskipped] at enough
    have within : Opens back ∨ ∀ child ∈ children, child.Solid := apart.imp_right fun solid => by
      cases solid with
      | node _ within => exact within
    rw [fill_node, fill_node, skip, left, fillAll_append_leaves within enough]
theorem fillAll_append_leaves {front back : List Leaf} {outlines : List Outline}
    (apart : Opens back ∨ ∀ outline ∈ outlines, outline.Solid)
    (enough : countAll outlines ≤ total front) :
    fillAll (front ++ back) outlines =
      ((fillAll front outlines).1, (fillAll front outlines).2 ++ back) := by
  match outlines with
  | [] => rw [fillAll_nil, fillAll_nil]
  | first :: rest =>
    rw [countAll_cons] at enough
    have here := apart.imp_right fun solid => solid first List.mem_cons_self
    have others := apart.imp_right fun solid outline member =>
      solid outline (List.mem_cons_of_mem first member)
    rw [fillAll_cons, fillAll_cons, fill_append here (by omega),
      fillAll_append_leaves others (by rw [total_fill]; omega)]
end

/-- Outlines filled with leaves, and the leaves that are left. -/
def plant (leaves : List Leaf) (outlines : List Outline) : List Tree :=
  (fillAll leaves outlines).1 ++ (fillAll leaves outlines).2.map toTree

theorem plant_nil (leaves : List Leaf) : plant leaves [] = leaves.map toTree := by
  rw [plant, fillAll_nil, List.nil_append]

theorem plant_cons (leaves : List Leaf) (first : Outline) (rest : List Outline) :
    plant leaves (first :: rest) = (fill leaves first).1 ++ plant (fill leaves first).2 rest := by
  rw [plant, fillAll_cons, List.append_assoc, plant]

@[simp] theorem leavesAll_plant (leaves : List Leaf) (outlines : List Outline) :
    leavesAll (plant leaves outlines) = leaves := by
  rw [plant, leavesAll_append, leavesAll_toTree, leavesAll_fillAll]

/-- Where the leaves are planted depends on nothing but which of them are significant. -/
theorem blankAll_plant {leaves leaves' : List Leaf}
    (alike : leaves.map isSignificant = leaves'.map isSignificant) (outlines : List Outline) :
    blankAll (plant leaves outlines) = blankAll (plant leaves' outlines) := by
  obtain ⟨trees, rest⟩ := blankAll_fillAll alike outlines
  have length := congrArg List.length rest
  rw [List.length_map, List.length_map] at length
  rw [plant, plant, blankAll_append, blankAll_append, trees, blankAll_toTree length]

/-- Insignificant leaves in front stay there. -/
theorem plant_skip {front : List Leaf} (skip : total front = 0) (back : List Leaf)
    (outlines : List Outline) : plant (front ++ back) outlines = front.map toTree ++ plant back outlines := by
  have inside : ∀ leaf ∈ front, (!leaf.isSignificant) = true := fun leaf member => by
    rw [Bool.not_eq_true']
    exact Bool.eq_false_iff.mpr (List.countP_eq_zero.mp skip leaf member)
  have skipped_eq : skipped (front ++ back) = front ++ skipped back :=
    List.takeWhile_append_of_pos inside
  have unskipped_eq : unskipped (front ++ back) = unskipped back :=
    List.dropWhile_append_of_pos inside
  cases outlines with
  | nil => rw [plant_nil, plant_nil, List.map_append]
  | cons first rest =>
    have here : fill (front ++ back) first = (front.map toTree ++ (fill back first).1, (fill back first).2) := by
      cases first with
      | token =>
        rw [fill_token, fill_token, skipped_eq, unskipped_eq, List.append_assoc, List.map_append]
      | node kind children =>
        rw [fill_node, fill_node, skipped_eq, unskipped_eq, List.map_append, List.append_assoc]
    rw [plant_cons, plant_cons, here, List.append_assoc]

/-- What is planted from two parts are the parts planted. -/
theorem plant_append {front back : List Leaf} {outlines : List Outline}
    (apart : Opens back ∨ ∀ outline ∈ outlines, outline.Solid)
    (count : countAll outlines = total front) (others : List Outline) :
    plant (front ++ back) (outlines ++ others) = plant front outlines ++ plant back others := by
  have skip : total (fillAll front outlines).2 = 0 := by
    rw [total_fillAll, count, Nat.sub_self]
  have rest := plant_skip skip back others
  rw [plant, fillAll_append, fillAll_append_leaves apart (Nat.le_of_eq count)]
  simp only [plant, List.append_assoc] at rest ⊢
  rw [rest]

/-- A tree that an outline begins after the leaves in front of it. -/
theorem exists_tree_of_fill (leaves : List Leaf) {outline : Outline} (some : 0 < outline.count)
    (enough : outline.count ≤ total leaves) :
    ∃ tree, (fill leaves outline).1 = (skipped leaves).map toTree ++ [tree] ∧
      tree.leaves.head? = (unskipped leaves).head? := by
  match outline with
  | .token =>
    obtain ⟨first, others, left⟩ := exists_unskipped enough
    refine ⟨first.toTree, ?_, ?_⟩
    · rw [fill_token, left, List.map_append]
      rfl
    · rw [left, leaves_toTree]
      rfl
  | .node kind children =>
    refine ⟨_, by rw [fill_node], ?_⟩
    rw [count_node] at some enough
    have whole := leavesAll_fillAll (unskipped leaves) children
    have left := total_fillAll (unskipped leaves) children
    rw [leaves_node]
    cases inner : leavesAll (fillAll (unskipped leaves) children).1 with
    | nil =>
      rw [inner, List.nil_append] at whole
      rw [whole, total_unskipped] at left
      omega
    | cons first others =>
      rw [inner] at whole
      rw [← whole]
      rfl

/-- An outline takes the same leaves when those from a significant one on are left out. -/
theorem fill_split {leaves front rest : List Leaf} {leaf : Leaf} {outline : Outline}
    (split : (fill leaves outline).2 = front ++ leaf :: rest) (significant : leaf.isSignificant = true)
    (enough : outline.count ≤ total leaves) :
    leaves = leavesAll (fill leaves outline).1 ++ front ++ leaf :: rest ∧
      total (leavesAll (fill leaves outline).1 ++ front) = outline.count + total front ∧
      fill (leavesAll (fill leaves outline).1 ++ front) outline =
        ((fill leaves outline).1, front) := by
  have whole := leavesAll_fill leaves outline
  have taken := congrArg total whole
  rw [total_append, total_fill] at taken
  have used : total (leavesAll (fill leaves outline).1 ++ front) = outline.count + total front := by
    rw [total_append]
    omega
  rw [split, ← List.append_assoc] at whole
  have short := fill_append (.inl (@opens_cons _ rest significant))
    (Nat.le_trans (Nat.le_add_right _ _) (Nat.le_of_eq used.symm))
  rw [whole] at short
  obtain ⟨trees, left⟩ := Prod.mk.inj short
  rw [split] at left
  exact ⟨whole.symm, used, Prod.ext trees.symm (List.append_cancel_right left).symm⟩

/-- A tree that is not an insignificant leaf begins one of the outlines. -/
theorem exists_cut {leaves : List Leaf} {outlines : List Outline}
    (count : countAll outlines = total leaves) (solid : ∀ outline ∈ outlines, 0 < outline.count)
    {index : Nat} {tree : Tree} (found : (plant leaves outlines)[index]? = some tree)
    (anchor : ∀ leaf : Leaf, tree = leaf.toTree → leaf.isSignificant = true) :
    ∃ (front : List Leaf) (leaf : Leaf) (rest : List Leaf) (before after : List Outline),
      leaves = front ++ leaf :: rest ∧ leaf.isSignificant = true ∧
      outlines = before ++ after ∧ countAll before = total front ∧
      index = (plant front before).length ∧ tree.leaves.head? = some leaf := by
  induction outlines generalizing leaves index with
  | nil =>
    rw [plant_nil] at found
    obtain ⟨leaf, member, rfl⟩ := List.mem_map.mp (List.mem_of_getElem? found)
    have other := List.countP_eq_zero.mp count.symm leaf member
    exact absurd (anchor leaf rfl) other
  | cons first others ih =>
    rw [countAll_cons] at count
    have some := solid first List.mem_cons_self
    obtain ⟨planted, here, head⟩ := exists_tree_of_fill leaves some (by omega)
    rw [plant_cons, here, List.append_assoc] at found
    rcases Nat.lt_or_ge index (skipped leaves).length with early | late
    · rw [List.getElem?_append_left (by rwa [List.length_map])] at found
      obtain ⟨leaf, member, rfl⟩ := List.mem_map.mp (List.mem_of_getElem? found)
      have other := insignificant_of_mem_skipped leaf member
      rw [anchor leaf rfl] at other
      exact nomatch other
    rw [List.getElem?_append_right (by rwa [List.length_map]), List.length_map] at found
    obtain ⟨offset, rfl⟩ := Nat.exists_eq_add_of_le late
    rw [Nat.add_sub_cancel_left] at found
    cases offset with
    | zero =>
      obtain rfl := Option.some.inj found
      obtain ⟨leaf, rest, left⟩ := @exists_unskipped leaves (by omega)
      refine ⟨skipped leaves, leaf, rest, [], first :: others, ?_, ?_, rfl, ?_, ?_, ?_⟩
      · rw [← left, skipped_append_unskipped]
      · exact unskipped_head (by rw [left]; rfl)
      · rw [total_skipped, countAll_nil]
      · rw [plant_nil, List.length_map, Nat.add_zero]
      · rw [head, left]
        rfl
    | succ offset =>
      have left := total_fill leaves first
      obtain ⟨front, leaf, rest, before, after, split, significant, rfl, count', index', head'⟩ :=
        @ih (fill leaves first).2 (by omega)
          (fun outline member => solid outline (List.mem_cons_of_mem first member)) _ found
      obtain ⟨whole, used, same⟩ := fill_split split significant (Nat.le_of_add_right_le (Nat.le_of_eq count))
      refine ⟨leavesAll (fill leaves first).1 ++ front, leaf, rest, first :: before, after,
        whole, significant, rfl, ?_, ?_, head'⟩
      · rw [countAll_cons, count', used]
      · rw [plant_cons, same, List.length_append, here, List.length_append, List.length_map, ← index']
        simp only [List.length_singleton]
        omega

end Outline

end LosslessSyntax
