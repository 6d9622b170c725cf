import LosslessSyntax.Proofs.Derivation.Production
import LosslessSyntax.Proofs.Derivation.Operation
import Mathlib.Data.List.Chain

/-! # Trees without whitespace and comments

Productions and operators do not see what lies between the tokens. `Tree.stripped` is a tree without
it, and `Tree.spaced` lists the other children of a node, each with a note whether a line break lies
before it. A tree is derived if at each of its nodes these children are a word of the production of
the node and those that have to be kept apart are (`Tree.Derived`).
-/

namespace LosslessSyntax

open Production

namespace Tree

mutual
/-- A tree without whitespace and comments below it. -/
def stripped : Tree → Tree
  | .node kind children => .node kind (strippedAll children)
  | .leaf kind text => .leaf kind text
/-- Trees without whitespace and comments among and below them. -/
def strippedAll : List Tree → List Tree
  | [] => []
  | first :: rest => if first.isTrivia then strippedAll rest else first.stripped :: strippedAll rest
end

mutual
/-- A tree and all trees below it. -/
def subtrees : Tree → List Tree
  | .node kind children => .node kind children :: subtreesAll children
  | .leaf kind text => [.leaf kind text]
/-- Trees and all trees below them. -/
def subtreesAll : List Tree → List Tree
  | [] => []
  | first :: rest => first.subtrees ++ subtreesAll rest
end

/-- What a production sees of a tree. -/
def symbol : Tree → Symbol
  | .node kind _ => .node kind
  | .leaf kind text => .token kind text

/-- Whether a tree is whitespace or a comment that holds a line break. -/
def isBreak : Tree → Bool
  | .node _ _ => false
  | .leaf kind text => kind.isTrivia && text.toList.contains '\n'

/-- The trees that are neither whitespace nor comments, each with a note whether a line break lies
between the one before it and this one; `broken` tells whether one lies before all of them. -/
def spaced (broken : Bool) : List Tree → List (Tree × Bool)
  | [] => []
  | first :: rest =>
    if first.isTrivia then spaced (broken || first.isBreak) rest
    else (first, broken) :: spaced false rest

/-- Of two trees that follow each other, a line break lies between them if they are nodes of some
kinds. -/
def Beside (kinds : List NodeKind) (first second : Tree × Bool) : Prop :=
  first.1.symbol ∈ kinds.map Symbol.node → second.1.symbol ∈ kinds.map Symbol.node → second.2 = true

/-- Children that a node keeps apart, where its kind asks for it: if no token stands between them,
a line break does. -/
def Apart (kind : NodeKind) (children : List Tree) : Prop :=
  ∀ kinds mark, separation? kind = some (kinds, mark) →
    (spaced false children).IsChain (Beside kinds)

/-- A tree that the grammar derives: no part of it is an error, and the children of each node,
whitespace and comments aside, are what the production of its kind allows, and kept apart. -/
inductive Derived (table : OperatorTable) : Tree → Prop where
  | leaf {kind : TokenKind} {text : String} (known : kind ≠ .error) : Derived table (.leaf kind text)
  | node {kind : NodeKind} {children : List Tree}
      (derives : (children.filter (!·.isTrivia)).map symbol ∈ production table kind)
      (apart : Apart kind children) (within : ∀ child ∈ children, Derived table child) :
      Derived table (.node kind children)

theorem map_fst_spaced (broken : Bool) (trees : List Tree) :
    (spaced broken trees).map Prod.fst = trees.filter (!·.isTrivia) := by
  induction trees generalizing broken with
  | nil => rfl
  | cons first rest ih =>
    rw [spaced, List.filter_cons]
    cases trivia : first.isTrivia <;> simp [ih]

theorem isChain_spaced {kinds : List NodeKind} {broken : Bool} {trees : List Tree}
    (chain : (spaced broken trees).IsChain (Beside kinds)) (broken' : Bool) :
    (spaced broken' trees).IsChain (Beside kinds) := by
  induction trees generalizing broken broken' with
  | nil => exact .nil
  | cons first rest ih =>
    rw [spaced] at chain ⊢
    by_cases trivia : first.isTrivia = true
    · rw [if_pos trivia] at chain ⊢
      exact ih chain _
    · rw [if_neg trivia, List.isChain_cons] at chain ⊢
      exact ⟨fun second isHead held => chain.1 second isHead held, chain.2⟩

variable {table : OperatorTable}

theorem mem_nodeKindsAll {kind : NodeKind} {trees : List Tree} :
    kind ∈ nodeKindsAll trees ↔ ∃ tree ∈ trees, kind ∈ tree.nodeKinds := by
  induction trees with
  | nil => simp [nodeKindsAll]
  | cons first rest ih => simp [nodeKindsAll, ih]

theorem mem_leavesAll {leaf : TokenKind × String} {trees : List Tree} :
    leaf ∈ leavesAll trees ↔ ∃ tree ∈ trees, leaf ∈ tree.leaves := by
  induction trees with
  | nil => simp [leavesAll]
  | cons first rest ih => simp [leavesAll, ih]

/-- A derived tree has no error node and no unrecognised token. -/
theorem Derived.no_errors {tree : Tree} (derived : tree.Derived table) :
    .error ∉ tree.nodeKinds ∧ ∀ leaf ∈ tree.leaves, leaf.1 ≠ .error := by
  induction derived with
  | leaf known => exact ⟨List.not_mem_nil, fun _ member => List.mem_singleton.mp member ▸ known⟩
  | @node kind children derives apart within ih =>
    refine ⟨fun member => ?_, fun leaf member => ?_⟩
    · rw [nodeKinds] at member
      rcases List.mem_cons.mp member with rfl | member
      · exact Language.notMem_zero _ derives
      · obtain ⟨child, below, error⟩ := mem_nodeKindsAll.mp member
        exact (ih child below).1 error
    · rw [leaves] at member
      obtain ⟨child, below, here⟩ := mem_leavesAll.mp member
      exact (ih child below).2 leaf here

end Tree

end LosslessSyntax
