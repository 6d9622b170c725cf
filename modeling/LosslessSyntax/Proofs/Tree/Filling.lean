import LosslessSyntax.Proofs.Tree.Outline
import LosslessSyntax.Tree.Basic

/-! # Filling outlines

An outline becomes a tree when the leaves of a text are put into it, one after the other
(`Outline.fillAll`). An insignificant leaf goes in front of the token or node that comes next. The
leaves of the trees are those that were put in (`leavesAll_fillAll`), where they stand depends on
nothing but which of them are significant (`blankAll_fillAll`), and an outline takes notice of the
leaves after its own only as far as the next one may be insignificant (`fillAll_local`).
-/

namespace LosslessSyntax

/-- A kind and a text, of which a leaf consists. -/
abbrev Leaf := TokenKind × String

namespace Leaf

/-- Whether the grammar consumes the leaf. -/
def isSignificant (leaf : Leaf) : Bool := leaf.1.isSignificant

/-- The leaf as a tree. -/
def toTree (leaf : Leaf) : Tree := .leaf leaf.1 leaf.2

/-- Number of significant leaves. -/
def total (leaves : List Leaf) : Nat := leaves.countP isSignificant

@[simp] theorem total_nil : total [] = 0 := rfl

@[simp] theorem total_append (front back : List Leaf) :
    total (front ++ back) = total front + total back := List.countP_append

/-- The insignificant leaves in front. -/
def skipped (leaves : List Leaf) : List Leaf := leaves.takeWhile (!·.isSignificant)

/-- The leaves from the first significant one on. -/
def unskipped (leaves : List Leaf) : List Leaf := leaves.dropWhile (!·.isSignificant)

theorem skipped_append_unskipped (leaves : List Leaf) : skipped leaves ++ unskipped leaves = leaves :=
  List.takeWhile_append_dropWhile

theorem insignificant_of_mem_skipped {leaves : List Leaf} :
    ∀ leaf ∈ skipped leaves, leaf.isSignificant = false := by
  intro leaf member
  have here := List.all_eq_true.mp List.all_takeWhile leaf member
  rwa [Bool.not_eq_true'] at here

theorem skipped_of_append {front back : List Leaf} (skip : ∀ leaf ∈ front, leaf.isSignificant = false)
    (stop : ∀ leaf, back.head? = some leaf → leaf.isSignificant = true) :
    skipped (front ++ back) = front ∧ unskipped (front ++ back) = back := by
  have inside : ∀ leaf ∈ front, (!leaf.isSignificant) = true :=
    fun leaf member => by rw [skip leaf member]; rfl
  rw [skipped, unskipped, List.takeWhile_append_of_pos inside, List.dropWhile_append_of_pos inside]
  cases back with
  | nil => exact ⟨by simp, rfl⟩
  | cons leaf back =>
    have here := stop leaf rfl
    simp [here]

theorem unskipped_head {leaves : List Leaf} {leaf : Leaf}
    (head : (unskipped leaves).head? = some leaf) : leaf.isSignificant = true := by
  have stop := List.head?_dropWhile_not (!·.isSignificant) leaves
  rw [unskipped] at head
  rw [head] at stop
  simpa using stop

@[simp] theorem total_skipped (leaves : List Leaf) : total (skipped leaves) = 0 := by
  rw [total, List.countP_eq_zero]
  exact fun leaf member => Bool.eq_false_iff.mp (insignificant_of_mem_skipped leaf member)

@[simp] theorem total_unskipped (leaves : List Leaf) : total (unskipped leaves) = total leaves := by
  have whole := congrArg total (skipped_append_unskipped leaves)
  rwa [total_append, total_skipped, Nat.zero_add] at whole

end Leaf

namespace Tree

@[simp] theorem leavesAll_append (front back : List Tree) :
    leavesAll (front ++ back) = leavesAll front ++ leavesAll back := by
  induction front with
  | nil => simp [leavesAll]
  | cons first front ih => simp [leavesAll, ih]

@[simp] theorem leavesAll_nil : leavesAll [] = [] := by rw [leavesAll]

@[simp] theorem leavesAll_cons (first : Tree) (rest : List Tree) :
    leavesAll (first :: rest) = first.leaves ++ leavesAll rest := by rw [leavesAll]

@[simp] theorem leaves_node (kind : NodeKind) (children : List Tree) :
    (node kind children).leaves = leavesAll children := by rw [leaves]

@[simp] theorem leaves_toTree (leaf : Leaf) : leaf.toTree.leaves = [leaf] := by
  rw [Leaf.toTree, leaves]

@[simp] theorem leavesAll_toTree (leaves : List Leaf) : leavesAll (leaves.map Leaf.toTree) = leaves := by
  induction leaves with
  | nil => simp
  | cons first rest ih => simp [ih]

end Tree

namespace Outline

open Leaf LosslessSyntax.Tree

mutual
/-- An outline filled with the first of some leaves, and the leaves that are left. -/
def fill (leaves : List Leaf) : Outline → List Tree × List Leaf
  | .token =>
    ((skipped leaves ++ (unskipped leaves).take 1).map toTree, (unskipped leaves).drop 1)
  | .node kind children =>
    ((skipped leaves).map toTree ++ [.node kind (fillAll (unskipped leaves) children).1],
      (fillAll (unskipped leaves) children).2)
/-- The same for several outlines. -/
def fillAll (leaves : List Leaf) : List Outline → List Tree × List Leaf
  | [] => ([], leaves)
  | first :: rest =>
    ((fill leaves first).1 ++ (fillAll (fill leaves first).2 rest).1,
      (fillAll (fill leaves first).2 rest).2)
end

theorem fill_token (leaves : List Leaf) :
    fill leaves .token =
      ((skipped leaves ++ (unskipped leaves).take 1).map toTree, (unskipped leaves).drop 1) := by
  rw [fill]

theorem fill_node (leaves : List Leaf) (kind : NodeKind) (children : List Outline) :
    fill leaves (.node kind children) =
      ((skipped leaves).map toTree ++ [.node kind (fillAll (unskipped leaves) children).1],
        (fillAll (unskipped leaves) children).2) := by
  rw [fill]

@[simp] theorem fillAll_nil (leaves : List Leaf) : fillAll leaves [] = ([], leaves) := by
  rw [fillAll]

theorem fillAll_cons (leaves : List Leaf) (first : Outline) (rest : List Outline) :
    fillAll leaves (first :: rest) =
      ((fill leaves first).1 ++ (fillAll (fill leaves first).2 rest).1,
        (fillAll (fill leaves first).2 rest).2) := by
  rw [fillAll]

theorem fillAll_append (leaves : List Leaf) (front back : List Outline) :
    fillAll leaves (front ++ back) =
      ((fillAll leaves front).1 ++ (fillAll (fillAll leaves front).2 back).1,
        (fillAll (fillAll leaves front).2 back).2) := by
  induction front generalizing leaves with
  | nil => simp
  | cons first front ih => simp only [List.cons_append, fillAll_cons, ih, List.append_assoc]

mutual
/-- The leaves of the trees are those that were put in. -/
theorem leavesAll_fill (leaves : List Leaf) (outline : Outline) :
    leavesAll (fill leaves outline).1 ++ (fill leaves outline).2 = leaves := by
  match outline with
  | .token =>
    rw [fill_token, leavesAll_toTree, List.append_assoc, List.take_append_drop,
      skipped_append_unskipped]
  | .node kind children =>
    rw [fill_node, leavesAll_append, leavesAll_toTree, leavesAll_cons, leavesAll_nil,
      List.append_nil, leaves_node, List.append_assoc, leavesAll_fillAll (unskipped leaves) children,
      skipped_append_unskipped]
theorem leavesAll_fillAll (leaves : List Leaf) (outlines : List Outline) :
    leavesAll (fillAll leaves outlines).1 ++ (fillAll leaves outlines).2 = leaves := by
  match outlines with
  | [] => simp
  | first :: rest =>
    rw [fillAll_cons, leavesAll_append, List.append_assoc,
      leavesAll_fillAll (fill leaves first).2 rest, leavesAll_fill leaves first]
end

mutual
/-- As many significant leaves are put in as the outline holds tokens, if there are as many. -/
theorem total_fill (leaves : List Leaf) (outline : Outline) :
    total (fill leaves outline).2 = total leaves - outline.count := by
  match outline with
  | .token =>
    rw [fill_token, count_token, ← total_unskipped leaves]
    cases left : unskipped leaves with
    | nil => rfl
    | cons first rest =>
      have here : first.isSignificant = true := unskipped_head (by rw [left]; rfl)
      simp [total, here]
  | .node kind children =>
    rw [fill_node, count_node, total_fillAll (unskipped leaves) children, total_unskipped]
theorem total_fillAll (leaves : List Leaf) (outlines : List Outline) :
    total (fillAll leaves outlines).2 = total leaves - countAll outlines := by
  match outlines with
  | [] => rw [fillAll_nil, countAll_nil, Nat.sub_zero]
  | first :: rest =>
    rw [fillAll_cons, countAll_cons, total_fillAll (fill leaves first).2 rest,
      total_fill leaves first, Nat.sub_sub]
end

end Outline

namespace Tree

mutual
/-- A tree without its leaves. -/
def blank : Tree → Tree
  | .node kind children => .node kind (blankAll children)
  | .leaf _ _ => .leaf .eof ""
/-- Several trees without their leaves. -/
def blankAll : List Tree → List Tree
  | [] => []
  | first :: rest => first.blank :: blankAll rest
end

@[simp] theorem blank_node (kind : NodeKind) (children : List Tree) :
    (node kind children).blank = node kind (blankAll children) := by rw [blank]

@[simp] theorem blank_leaf (kind : TokenKind) (text : String) :
    (leaf kind text).blank = leaf .eof "" := by rw [blank]

@[simp] theorem blankAll_nil : blankAll [] = [] := by rw [blankAll]

@[simp] theorem blankAll_cons (first : Tree) (rest : List Tree) :
    blankAll (first :: rest) = first.blank :: blankAll rest := by rw [blankAll]

@[simp] theorem blankAll_append (front back : List Tree) :
    blankAll (front ++ back) = blankAll front ++ blankAll back := by
  induction front with
  | nil => simp
  | cons first front ih => simp [ih]

theorem blankAll_toTree {leaves leaves' : List Leaf} (same : leaves.length = leaves'.length) :
    blankAll (leaves.map Leaf.toTree) = blankAll (leaves'.map Leaf.toTree) := by
  induction leaves generalizing leaves' with
  | nil =>
    rw [List.eq_nil_of_length_eq_zero same.symm]
  | cons first rest ih =>
    cases leaves' with
    | nil => exact nomatch same
    | cons first' rest' =>
      rw [List.map_cons, List.map_cons, blankAll_cons, blankAll_cons, ih (Nat.succ.inj same)]
      rfl

mutual
/-- Trees of the same form have equally many leaves. -/
theorem length_leaves_of_blank {tree tree' : Tree} (form : tree.blank = tree'.blank) :
    tree.leaves.length = tree'.leaves.length := by
  match tree, tree' with
  | .node kind children, .node kind' children' =>
    rw [blank_node, blank_node, node.injEq] at form
    rw [leaves_node, leaves_node, length_leavesAll_of_blankAll form.2]
  | .node _ _, .leaf _ _ => simp at form
  | .leaf _ _, .node _ _ => simp at form
  | .leaf _ _, .leaf _ _ => simp [leaves]
theorem length_leavesAll_of_blankAll {trees trees' : List Tree}
    (form : blankAll trees = blankAll trees') :
    (leavesAll trees).length = (leavesAll trees').length := by
  match trees, trees' with
  | [], [] => rfl
  | [], _ :: _ => simp at form
  | _ :: _, [] => simp at form
  | first :: rest, first' :: rest' =>
    rw [blankAll_cons, blankAll_cons, List.cons.injEq] at form
    rw [leavesAll_cons, leavesAll_cons, List.length_append, List.length_append,
      length_leaves_of_blank form.1, length_leavesAll_of_blankAll form.2]
end

mutual
/-- A tree is known from its form and its leaves. -/
theorem eq_of_blank {tree tree' : Tree} (form : tree.blank = tree'.blank)
    (same : tree.leaves = tree'.leaves) : tree = tree' := by
  match tree, tree' with
  | .node kind children, .node kind' children' =>
    rw [blank_node, blank_node, node.injEq] at form
    rw [leaves_node, leaves_node] at same
    rw [form.1, eq_of_blankAll form.2 same]
  | .node _ _, .leaf _ _ => simp at form
  | .leaf _ _, .node _ _ => simp at form
  | .leaf _ _, .leaf _ _ => simpa [leaves] using same
theorem eq_of_blankAll {trees trees' : List Tree} (form : blankAll trees = blankAll trees')
    (same : leavesAll trees = leavesAll trees') : trees = trees' := by
  match trees, trees' with
  | [], [] => rfl
  | [], _ :: _ => simp at form
  | _ :: _, [] => simp at form
  | first :: rest, first' :: rest' =>
    rw [blankAll_cons, blankAll_cons, List.cons.injEq] at form
    rw [leavesAll_cons, leavesAll_cons] at same
    obtain ⟨same, others⟩ := List.append_inj same (length_leaves_of_blank form.1)
    rw [eq_of_blank form.1 same, eq_of_blankAll form.2 others]
end

end Tree

namespace Outline

open Leaf LosslessSyntax.Tree

theorem skipped_alike {leaves leaves' : List Leaf}
    (alike : leaves.map isSignificant = leaves'.map isSignificant) :
    (skipped leaves).length = (skipped leaves').length ∧
      (unskipped leaves).map isSignificant = (unskipped leaves').map isSignificant := by
  induction leaves generalizing leaves' with
  | nil =>
    rw [List.map_eq_nil_iff.mp alike.symm]
    exact ⟨rfl, rfl⟩
  | cons first rest ih =>
    cases leaves' with
    | nil => exact nomatch alike
    | cons first' rest' =>
      obtain ⟨same, others⟩ := List.cons.inj alike
      simp only [skipped, unskipped, List.takeWhile_cons, List.dropWhile_cons, ← same]
      cases first.isSignificant with
      | true => exact ⟨rfl, alike⟩
      | false => exact ⟨congrArg Nat.succ (ih others).1, (ih others).2⟩

mutual
/-- Where the leaves stand depends on nothing but which of them are significant. -/
theorem blankAll_fill {leaves leaves' : List Leaf}
    (alike : leaves.map isSignificant = leaves'.map isSignificant) (outline : Outline) :
    blankAll (fill leaves outline).1 = blankAll (fill leaves' outline).1 ∧
      (fill leaves outline).2.map isSignificant = (fill leaves' outline).2.map isSignificant := by
  obtain ⟨skip, left⟩ := skipped_alike alike
  match outline with
  | .token =>
    have length := congrArg List.length left
    rw [List.length_map, List.length_map] at length
    rw [fill_token, fill_token]
    refine ⟨blankAll_toTree ?_, ?_⟩
    · rw [List.length_append, List.length_append, List.length_take, List.length_take, skip, length]
    · rw [List.map_drop, List.map_drop, left]
  | .node kind children =>
    obtain ⟨trees, rest⟩ := blankAll_fillAll left children
    rw [fill_node, fill_node]
    refine ⟨?_, rest⟩
    rw [blankAll_append, blankAll_append, blankAll_toTree skip, blankAll_cons, blankAll_cons,
      blank_node, blank_node, trees]
theorem blankAll_fillAll {leaves leaves' : List Leaf}
    (alike : leaves.map isSignificant = leaves'.map isSignificant) (outlines : List Outline) :
    blankAll (fillAll leaves outlines).1 = blankAll (fillAll leaves' outlines).1 ∧
      (fillAll leaves outlines).2.map isSignificant =
        (fillAll leaves' outlines).2.map isSignificant := by
  match outlines with
  | [] => exact ⟨rfl, alike⟩
  | first :: rest =>
    obtain ⟨tree, alike⟩ := blankAll_fill alike first
    obtain ⟨trees, alike⟩ := blankAll_fillAll alike rest
    rw [fillAll_cons, fillAll_cons]
    exact ⟨by rw [blankAll_append, blankAll_append, tree, trees], alike⟩
end

theorem length_fillAll_le (leaves : List Leaf) (outlines : List Outline) :
    (fillAll leaves outlines).2.length ≤ leaves.length := by
  have whole := congrArg List.length (leavesAll_fillAll leaves outlines)
  rw [List.length_append] at whole
  omega

variable {front rest rest' : List Leaf}

/-- What is skipped in front of some leaves does not depend on leaves further on. -/
theorem skipped_local (within : rest.length ≤ (unskipped (front ++ rest)).length)
    (head : rest'.head?.map isSignificant = rest.head?.map isSignificant) :
    ∃ front', unskipped (front ++ rest) = front' ++ rest ∧
      unskipped (front ++ rest') = front' ++ rest' ∧
      skipped (front ++ rest') = skipped (front ++ rest) := by
  have whole := skipped_append_unskipped front
  cases left : unskipped front with
  | nil =>
    have skip : ∀ leaf ∈ front, leaf.isSignificant = false := by
      rw [left, List.append_nil] at whole
      rw [← whole]
      exact insignificant_of_mem_skipped
    have starts : ∀ leaf, rest.head? = some leaf → leaf.isSignificant = true := by
      intro leaf here
      cases other : leaf.isSignificant with
      | true => rfl
      | false =>
        obtain ⟨others, rfl⟩ := List.head?_eq_some_iff.mp here
        have inside : ∀ leaf ∈ front, (!leaf.isSignificant) = true :=
          fun leaf member => by rw [skip leaf member]; rfl
        rw [unskipped, List.dropWhile_append_of_pos inside,
          List.dropWhile_cons_of_pos (by rw [other]; rfl)] at within
        have := (List.dropWhile_sublist (!·.isSignificant) (l := others)).length_le
        rw [List.length_cons] at within
        omega
    have starts' : ∀ leaf, rest'.head? = some leaf → leaf.isSignificant = true := by
      intro leaf here
      rw [here] at head
      obtain ⟨other, there, same⟩ := Option.map_eq_some_iff.mp head.symm
      exact same.symm.trans (starts other there)
    obtain ⟨skipped_eq, unskipped_eq⟩ := skipped_of_append skip starts
    obtain ⟨skipped_eq', unskipped_eq'⟩ := skipped_of_append skip starts'
    exact ⟨[], unskipped_eq, unskipped_eq', skipped_eq'.trans skipped_eq.symm⟩
  | cons leaf others =>
    rw [left] at whole
    have significant : leaf.isSignificant = true := unskipped_head (by rw [left]; rfl)
    have stops (rest : List Leaf) : skipped (front ++ rest) = skipped front ∧
        unskipped (front ++ rest) = (leaf :: others) ++ rest := by
      have skip : ∀ leaf ∈ skipped front, leaf.isSignificant = false := insignificant_of_mem_skipped
      have cut := @skipped_of_append _ ((leaf :: others) ++ rest) skip
        fun other here => Option.some.inj here ▸ significant
      rwa [← List.append_assoc, whole] at cut
    exact ⟨leaf :: others, (stops rest).2, (stops rest').2, (stops rest').1.trans (stops rest).1.symm⟩

theorem exists_middle {before left : List Leaf} (whole : before ++ left = front ++ rest)
    (within : rest.length ≤ left.length) :
    ∃ before middle, left = middle ++ rest ∧ front = before ++ middle := by
  rcases List.append_eq_append_iff.mp whole with ⟨more, first, second⟩ | ⟨more, first, second⟩
  · exact ⟨before, more, second, first⟩
  · have length := congrArg List.length second
    rw [List.length_append] at length
    obtain rfl := List.eq_nil_of_length_eq_zero (show more.length = 0 by omega)
    exact ⟨front, [], second.symm, (List.append_nil front).symm⟩

mutual
/-- An outline takes notice of the leaves after its own only as far as the next one may be
insignificant. -/
theorem fill_local {front rest rest' : List Leaf} {outline : Outline}
    (ends : (fill (front ++ rest) outline).2 = rest)
    (head : rest'.head?.map isSignificant = rest.head?.map isSignificant) :
    fill (front ++ rest') outline = ((fill (front ++ rest) outline).1, rest') := by
  match outline with
  | .token =>
    rw [fill_token] at ends
    have within : rest.length ≤ (unskipped (front ++ rest)).length := by
      have length := congrArg List.length ends
      rw [List.length_drop] at length
      omega
    obtain ⟨front', left, left', same⟩ := skipped_local within head
    rw [left] at ends
    rw [fill_token, fill_token, left, left', same]
    cases front' with
    | nil =>
      have none : rest = [] := by
        cases rest with
        | nil => rfl
        | cons first others =>
          have length := congrArg List.length ends
          simp at length
      subst none
      have none : rest' = [] := by
        rwa [List.head?_nil, Option.map_none, Option.map_eq_none_iff, List.head?_eq_none_iff] at head
      rw [none]
      rfl
    | cons first others =>
      have none : others = [] := List.append_left_eq_self.mp ends
      rw [none]
      rfl
  | .node kind children =>
    rw [fill_node] at ends
    have within := length_fillAll_le (unskipped (front ++ rest)) children
    rw [ends] at within
    obtain ⟨front', left, left', same⟩ := skipped_local within head
    rw [left] at ends
    rw [fill_node, fill_node, left, left', same, fillAll_local ends head]
theorem fillAll_local {front rest rest' : List Leaf} {outlines : List Outline}
    (ends : (fillAll (front ++ rest) outlines).2 = rest)
    (head : rest'.head?.map isSignificant = rest.head?.map isSignificant) :
    fillAll (front ++ rest') outlines = ((fillAll (front ++ rest) outlines).1, rest') := by
  match outlines with
  | [] =>
    have none : front = [] := List.append_left_eq_self.mp ends
    rw [none]
    simp
  | first :: others =>
    rw [fillAll_cons] at ends
    have whole := leavesAll_fill (front ++ rest) first
    have within := length_fillAll_le (fill (front ++ rest) first).2 others
    rw [ends] at within
    obtain ⟨before, middle, left, rfl⟩ := exists_middle whole within
    rw [left] at ends
    rw [List.append_assoc] at left
    have here := @fill_local _ _ (middle ++ rest') _ left (by
      cases middle with
      | nil => exact head
      | cons => rfl)
    rw [List.append_assoc, List.append_assoc, fillAll_cons, fillAll_cons, here, left,
      fillAll_local ends head]
end

end Outline

end LosslessSyntax
