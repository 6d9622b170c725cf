import LosslessSyntax.Proofs.Derivation.Brackets
import LosslessSyntax.Proofs.Tree.Leaves
import LosslessSyntax.Tree.Walk

/-! # Tokens between brackets

A token is enclosed if it lies between a bracket and the closing one that ends the same node
(`Cursor.Enclosed`). The leaves of a node are some of those of the tree, in their places, and what is
not heeded in it is not heeded in the tree (`Tree.Part`). So in a derived tree a line break before the
token that comes after an enclosed one is not heeded (`Cursor.Enclosed.unheeded`).
-/

namespace LosslessSyntax

open LosslessSyntax.Tree

namespace Leaf

/-- Of two cuts of a text into tokens, the one that is further in front. -/
theorem exists_between_of_le {front front' back back' : List Leaf}
    (text : front ++ back = front' ++ back') (solid : ∀ leaf ∈ front, 0 < leaf.2.utf8ByteSize)
    (earlier : width front ≤ width front') :
    ∃ between, front' = front ++ between ∧ back = between ++ back' := by
  rcases List.append_eq_append_iff.mp text with ⟨between, first, second⟩ | ⟨between, first, second⟩
  · exact ⟨between, first, second⟩
  · cases between with
    | nil => exact ⟨[], by simpa using first.symm, by simpa using second.symm⟩
    | cons leaf others =>
      have := solid leaf (first ▸ List.mem_append_right _ List.mem_cons_self)
      rw [first, width_append, width_cons] at earlier
      omega

end Leaf

namespace Cursor

/-- What holds of a node and passes on to the nodes among the children holds of all nodes below. -/
theorem forall_nodesOfStack {motive : Cursor → Prop}
    (step : ∀ node, motive node → ∀ child ∈ node.childNodes, motive child) {stack : List Cursor}
    (all : ∀ node ∈ stack, motive node) : ∀ node ∈ nodesOfStack stack, motive node := by
  fun_induction nodesOfStack stack with
  | case1 => exact all
  | case2 top stack ih =>
    obtain ⟨here, others⟩ := List.forall_mem_cons.mp all
    refine List.forall_mem_cons.mpr ⟨here, ih fun node member => ?_⟩
    rcases List.mem_append.mp member with member | member
    · exact step top here node member
    · exact others node member

end Cursor

namespace Tree

variable {table : OperatorTable} {whole : Tree} {node child : Cursor} {front : List Leaf}

theorem Derived.within {kind : NodeKind} {children : List Tree}
    (derived : (Tree.node kind children).Derived table) :
    ∀ child ∈ children, child.Derived table := by
  cases derived with
  | node _ _ within => exact within

/-- A node of a tree, behind some of the leaves. -/
structure Part (table : OperatorTable) (whole : Tree) (node : Cursor) (front : List Leaf) :
    Prop where
  derived : node.tree.Derived table
  inner : node.tree.isNode = true
  leaves : ∃ back, whole.leaves = front ++ node.tree.leaves ++ back
  start : node.start = Leaf.width front
  unheeded {inside : List Leaf} : node.tree.Unheeded inside → whole.Unheeded (front ++ inside)

theorem isTrivia_of_isNode {tree : Tree} (inner : tree.isNode = true) : tree.isTrivia = false := by
  cases tree with
  | node => rfl
  | leaf => exact nomatch inner

theorem Part.of_child (part : Part table whole node front) (member : child ∈ node.childNodes) :
    ∃ front', Part table whole child front' := by
  obtain ⟨member, inner⟩ := List.mem_filter.mp member
  obtain ⟨before, after, split, place⟩ := Cursor.exists_of_mem_sequence member
  obtain ⟨derived, -, ⟨back, leaves⟩, start, unheeded⟩ := part
  generalize node.tree = tree at *
  cases tree with
  | leaf => exact absurd split (by simp [Tree.children])
  | node kind children =>
    obtain rfl : children = _ := split
    refine ⟨front ++ leavesAll before, derived.within _ (by simp), inner,
      ⟨leavesAll after ++ back, ?_⟩, ?_, fun {inside} below => ?_⟩
    · rw [leaves, leaves_node, leavesAll_append, leavesAll_cons]
      simp only [List.append_assoc]
    · rw [place, start, Leaf.width_append, Tree.width_leavesAll]
    · rw [List.append_assoc]
      refine unheeded (below.node (isTrivia_of_isNode inner) fun leaf member => ?_)
      refine derived.no_errors.2 leaf ?_
      rw [leaves_node, leavesAll_append]
      exact List.mem_append_left _ member

theorem exists_part (derived : whole.Derived table) (inner : whole.isNode = true)
    (below : node ∈ (Cursor.ofRoot whole).descendants) : ∃ front, Part table whole node front := by
  refine Cursor.forall_nodesOfStack (motive := fun node => ∃ front, Part table whole node front)
    (fun node part child member => part.elim fun front part => part.of_child member) ?_ node below
  intro top member
  rw [List.mem_singleton.mp member]
  exact ⟨[], derived, inner, ⟨[], (List.append_nil _).symm⟩, Leaf.width_nil.symm, id⟩

end Tree

namespace Cursor

/-- A token lies between a bracket and the closing bracket that ends the same node. -/
def Enclosed (root token : Cursor) : Prop :=
  ∃ node ∈ root.descendants, ∃ opener ∈ node.children, ∃ closer ∈ node.children.getLast?,
    opener.tree.tokenKind? ∈ [some .leftParen, some .leftBracket] ∧
    closer.tree.tokenKind? ∈ [some .rightParen, some .rightBracket] ∧
    opener.span.stop ≤ token.span.start ∧ token.span.stop ≤ closer.span.start

instance (root token : Cursor) : Decidable (root.Enclosed token) :=
  inferInstanceAs (Decidable (∃ node ∈ root.descendants, ∃ opener ∈ node.children,
    ∃ closer ∈ node.children.getLast?, _ ∧ _ ∧ _ ∧ _))

theorem exists_leaf_of_kind {cursor : Cursor} {kinds : List TokenKind}
    (kind : cursor.tree.tokenKind? ∈ kinds.map some) :
    ∃ kind ∈ kinds, ∃ text, cursor.tree = .leaf kind text := by
  obtain ⟨kind, listed, same⟩ := List.mem_map.mp kind
  cases shape : cursor.tree with
  | node => rw [shape] at same; exact nomatch same
  | leaf here text =>
    rw [shape] at same
    obtain rfl := Option.some.inj same
    exact ⟨kind, listed, text, rfl⟩

theorem exists_of_getLast?_sequence {start : Nat} {trees : List Tree} {cursor : Cursor}
    (last : (sequence start trees).getLast? = some cursor) :
    ∃ before, trees = before ++ [cursor.tree] ∧ cursor.start = start + widthAll before := by
  obtain rfl | ⟨before, tree, rfl⟩ := List.eq_nil_or_concat' trees
  · exact nomatch last
  · rw [sequence_append, List.getLast?_append] at last
    obtain rfl := Option.some.inj last
    exact ⟨before, rfl, rfl⟩

/-- The children between two brackets of a node. -/
theorem exists_between {node opener closer : Cursor} (opening : opener ∈ node.children)
    (closing : node.children.getLast? = some closer)
    (opens : opener.tree.tokenKind? ∈ [some .leftParen, some .leftBracket])
    (closes : closer.tree.tokenKind? ∈ [some .rightParen, some .rightBracket]) :
    ∃ opens ∈ Production.brackets, ∃ closes ∈ Production.brackets, ∃ text text' before between,
      node.tree.children = before ++ .leaf opens text :: (between ++ [.leaf closes text']) ∧
        opener.span.stop = node.start + widthAll before + text.utf8ByteSize ∧
        closer.span.start =
          node.start + widthAll before + text.utf8ByteSize + widthAll between := by
  obtain ⟨opens, bracket, text, shape⟩ :=
    @exists_leaf_of_kind opener [.leftParen, .leftBracket] opens
  obtain ⟨closes, bracket', text', shape'⟩ :=
    @exists_leaf_of_kind closer [.rightParen, .rightBracket] closes
  obtain ⟨before, rest, children, start⟩ := exists_of_mem_sequence opening
  obtain ⟨front, children', start'⟩ := exists_of_getLast?_sequence closing
  rw [shape] at children
  rw [shape', children] at children'
  have stop : opener.span.stop = node.start + widthAll before + text.utf8ByteSize := by
    rw [span, Span.ofLength, shape, width_leaf, start]
  have other : ∀ kind ∈ [TokenKind.leftParen, .leftBracket],
      kind ∉ [TokenKind.rightParen, .rightBracket] ∧ kind ∈ Production.brackets := by decide
  have other' : ∀ kind ∈ [TokenKind.rightParen, .rightBracket], kind ∈ Production.brackets := by
    decide
  obtain rfl | ⟨between, last, rfl⟩ := List.eq_nil_or_concat' rest
  · obtain ⟨-, same⟩ := List.append_inj' children' rfl
    obtain ⟨rfl, -⟩ := Tree.leaf.inj (List.singleton_inj.mp same)
    exact absurd bracket' (other opens bracket).1
  · rw [← List.cons_append, ← List.append_assoc] at children'
    obtain ⟨rfl, same⟩ := List.append_inj' children' rfl
    obtain rfl := List.singleton_inj.mp same
    refine ⟨opens, (other opens bracket).2, closes, other' closes bracket', text, text', before,
      between, children, stop, ?_⟩
    change closer.start = _
    rw [start', widthAll_append, widthAll_cons, width_leaf]
    omega

/-- In a derived tree a line break before what comes after an enclosed token is not heeded. -/
theorem Enclosed.unheeded {table : OperatorTable} {tree : Tree} {token : Cursor}
    {front back : List Leaf} {leaf : Leaf} (enclosed : (ofRoot tree).Enclosed token)
    (derived : tree.Derived table) (inner : tree.isNode = true)
    (solid : ∀ leaf ∈ tree.leaves, 0 < leaf.2.utf8ByteSize)
    (split : tree.leaves = front ++ leaf :: back) (here : token.tree = leaf.toTree)
    (place : token.start = Leaf.width front) : tree.Unheeded front := by
  obtain ⟨node, below, opener, opening, closer, closing, opens, closes, behind, before⟩ := enclosed
  obtain ⟨outer, part⟩ := exists_part derived inner below
  obtain ⟨opens, bracket, closes, bracket', text, text', first, between, children, stop, start⟩ :=
    exists_between opening closing opens closes
  obtain ⟨derived', inner', ⟨rest, leaves⟩, begins, unheeded⟩ := part
  generalize node.tree = tree' at *
  cases tree' with
  | leaf => exact nomatch inner'
  | node kind children' =>
  obtain rfl : children' = _ := children
  have whole : (outer ++ (leavesAll first ++ [(opens, text)])) ++
      (leavesAll between ++ (closes, text') :: rest) = front ++ leaf :: back := by
    rw [← split, leaves]
    simp [Tree.leaves]
  have starts : token.span.start = Leaf.width front := place
  have stops : token.span.stop = Leaf.width front + leaf.2.utf8ByteSize := by
    rw [span, Span.ofLength, here, place, Leaf.toTree, width_leaf]
  have inside : ∀ leaf' ∈ front ++ leaf :: back, 0 < leaf'.2.utf8ByteSize := split ▸ solid
  obtain ⟨middle, rfl, others⟩ := Leaf.exists_between_of_le whole
    (fun leaf member => inside leaf (whole ▸ List.mem_append_left _ member)) (by
      rw [starts, stop, begins] at behind
      simpa [Nat.add_assoc, Tree.width_leavesAll] using behind)
  rw [List.append_cons middle] at others
  obtain ⟨left, between', -⟩ := Leaf.exists_between_of_le others.symm
    (fun leaf member => inside leaf (by simp at member ⊢; tauto)) (by
      rw [stops, start, begins] at before
      simp [Tree.width_leavesAll] at before ⊢
      omega)
  rw [List.append_assoc] at between'
  have here := unheeded (unheeded_between bracket bracket' derived' between')
  rwa [List.append_assoc, List.append_assoc]

end Cursor

end LosslessSyntax
