import LosslessSyntax.Proofs.Derivation.Filled
import LosslessSyntax.Proofs.Tree.Grouping
import LosslessSyntax.Proofs.Tree.Heeded

/-! # Brackets in derived trees

Brackets are tokens of few productions only (`Production.production_le`), which are those of the nodes
inside of which line breaks are not heeded. So in a derived tree a line break between two brackets
with the same parent is not heeded (`Tree.unheeded_between`), and it is not heeded in any tree around
that one (`Tree.Unheeded.node`).
-/

namespace LosslessSyntax

open Outline

namespace Production

open scoped Computability

/-- Parentheses and square brackets. -/
def brackets : List TokenKind := [.leftParen, .rightParen, .leftBracket, .rightBracket]

/-- Words without brackets. -/
def bracketless : Language Symbol :=
  {word | ∀ kind text, .token kind text ∈ word → kind ∉ brackets}

variable {words words' : Language Symbol}

theorem node_le (kinds : List NodeKind) : node kinds ≤ bracketless := by
  rintro - ⟨inner, -, rfl⟩ kind text member
  exact nomatch List.mem_singleton.mp member

theorem token_le {kind : TokenKind} (other : kind ∉ brackets) : token kind ≤ bracketless := by
  rintro - ⟨text, rfl⟩ inner text' member
  obtain ⟨rfl, -⟩ := Symbol.token.inj (List.mem_singleton.mp member)
  exact other

theorem tokenOf_le {kinds : KindSet} (other : ∀ kind ∈ brackets, ¬ kinds.contains kind = true) :
    tokenOf kinds ≤ bracketless := by
  rintro - ⟨kind, text, within, rfl⟩ inner text' member
  obtain ⟨rfl, -⟩ := Symbol.token.inj (List.mem_singleton.mp member)
  exact fun bracket => other inner bracket within

theorem operator_le (known : String → Bool) : operator known ≤ bracketless := by
  rintro - ⟨text, -, rfl⟩ inner text' member
  obtain ⟨rfl, -⟩ := Symbol.token.inj (List.mem_singleton.mp member)
  decide

theorem one_le : 1 ≤ bracketless := by
  rintro - rfl kind text member
  exact absurd member List.not_mem_nil

theorem mul_le (first : words ≤ bracketless) (second : words' ≤ bracketless) :
    words * words' ≤ bracketless := by
  rintro - ⟨front, here, back, there, rfl⟩ kind text member
  exact (List.mem_append.mp member).elim (first here kind text) (second there kind text)

theorem star_le (each : words ≤ bracketless) : words∗ ≤ bracketless := by
  rintro - ⟨parts, rfl, inside⟩ kind text member
  obtain ⟨part, within, member⟩ := List.mem_flatten.mp member
  exact each (inside part within) kind text member

theorem optional_le (each : words ≤ bracketless) : optional words ≤ bracketless :=
  sup_le one_le each

theorem annotated_le {keyword : TokenKind} (other : keyword ∉ brackets)
    (each : words ≤ bracketless) : annotated keyword words ≤ bracketless :=
  mul_le (star_le (node_le _)) (mul_le (token_le other) each)

theorem typeAnnotation_le : typeAnnotation ≤ bracketless :=
  mul_le (token_le (by decide)) (node_le _)

theorem braced_le (each : words ≤ bracketless) : braced words ≤ bracketless :=
  mul_le (mul_le (token_le (by decide)) each) (token_le (by decide))

theorem statements_le : statements ≤ bracketless :=
  star_le (sup_le (token_le (by decide)) (node_le _))

theorem members_le (kind : NodeKind) : members kind ≤ bracketless :=
  star_le (mul_le (node_le _) (optional_le (token_le (by decide))))

variable {table : OperatorTable} {kind : NodeKind}

/-- Only nodes inside of which line breaks are not heeded have brackets. -/
theorem production_le (bracket : kind ∉ bracketKinds) (suffix : kind ∉ suffixKinds) :
    production table kind ≤ bracketless := by
  have binding : token .ident * optional typeAnnotation ≤ bracketless :=
    mul_le (token_le (by decide)) (optional_le typeAnnotation_le)
  cases kind with
  | root => exact statements_le
  | error => exact bot_le
  | annotationUse => exact mul_le (token_le (by decide)) (optional_le (node_le _))
  | usingStmt => exact annotated_le (by decide) (node_le _)
  | usingPath =>
    exact mul_le (token_le (by decide))
      (star_le (mul_le (token_le (by decide)) (token_le (by decide))))
  | letStmt =>
    exact annotated_le (by decide) (mul_le (node_le _) (mul_le (operator_le _) (node_le _)))
  | binding => exact binding
  | ifStmt =>
    exact annotated_le (by decide)
      (mul_le (node_le _) (mul_le (node_le _) (optional_le (node_le _))))
  | elseBranch => exact mul_le (token_le (by decide)) (sup_le (node_le _) (node_le _))
  | whileStmt => exact annotated_le (by decide) (mul_le (node_le _) (node_le _))
  | loopStmt => exact annotated_le (by decide) (node_le _)
  | forStmt =>
    exact annotated_le (by decide)
      (mul_le (node_le _) (mul_le (token_le (by decide)) (mul_le (node_le _) (node_le _))))
  | breakStmt | continueStmt | returnStmt => exact annotated_le (by decide) one_le
  | functionDecl =>
    exact annotated_le (by decide) (mul_le (token_le (by decide))
      (mul_le (node_le _) (mul_le (optional_le (node_le _)) (node_le _))))
  | param => exact binding
  | returnList => exact mul_le (token_le (by decide)) (node_le _)
  | packDecl | unionDecl =>
    exact annotated_le (by decide) (mul_le (token_le (by decide)) (node_le _))
  | packBody | unionBody => exact braced_le (members_le _)
  | packMember => exact mul_le (token_le (by decide)) typeAnnotation_le
  | unionMember => exact mul_le (token_le (by decide)) (optional_le (node_le _))
  | exprStmt => exact mul_le (star_le (node_le _)) (node_le _)
  | block => exact braced_le statements_le
  | literal => exact tokenOf_le (by decide)
  | nameRef => exact token_le (by decide)
  | prefixExpr => exact mul_le (operator_le _) (node_le _)
  | binaryExpr => exact mul_le (node_le _) (mul_le (operator_le _) (node_le _))
  | callExpr => exact mul_le (node_le _) (node_le _)
  | memberExpr => exact mul_le (node_le _) (mul_le (token_le (by decide)) (token_le (by decide)))
  | castExpr => exact mul_le (node_le _) (mul_le (token_le (by decide)) (node_le _))
  | namedType =>
    exact sup_le (token_le (by decide)) (mul_le (token_le (by decide)) (optional_le (node_le _)))
  | modifiedType => exact mul_le (tokenOf_le (by decide)) (node_le _)
  | funcType =>
    exact mul_le (token_le (by decide)) (mul_le (node_le _) (optional_le
      (mul_le (token_le (by decide)) (sup_le (node_le _) (node_le _)))))
  | annotationArgs | paramList | arrayExpr | tupleExpr | parenExpr | argList | typeList =>
    exact absurd (by decide) bracket
  | indexExpr | arrayType => exact absurd (by decide) suffix

/-- Something comes before the brackets of a suffix. -/
theorem exists_node_of_suffix (suffix : kind ∈ suffixKinds) {word : List Symbol}
    (derives : word ∈ production table kind) : ∃ inner rest, word = .node inner :: rest := by
  have first {kinds : List NodeKind} {words : Language Symbol}
      (derives : word ∈ node kinds * words) : ∃ inner rest, word = .node inner :: rest := by
    obtain ⟨-, ⟨inner, -, rfl⟩, back, -, rfl⟩ := derives
    exact ⟨inner, back, rfl⟩
  rcases List.mem_pair.mp suffix with rfl | rfl <;> exact first derives

end Production

namespace Tree

theorem strippedAll_eq (trees : List Tree) :
    strippedAll trees = (trees.filter (!·.isTrivia)).map stripped := by
  induction trees with
  | nil => rw [strippedAll]; rfl
  | cons first rest ih =>
    rw [strippedAll, List.filter_cons, ih]
    cases first.isTrivia <;> rfl

end Tree

namespace Phrase

mutual
theorem outline_tree (phrase : Phrase) : phrase.tree.outline = phrase.outline := by
  match phrase with
  | .token next => rw [tree_token, Tree.outline, outline_token]
  | .node kind children => rw [tree_node, Tree.outline, outline_node, outlineAll_treeAll children]
theorem outlineAll_treeAll (phrases : List Phrase) :
    Tree.outlineAll (treeAll phrases) = outlineAll phrases := by
  match phrases with
  | [] => rw [treeAll_nil, Tree.outlineAll_nil, outlineAll_nil]
  | first :: rest =>
    rw [treeAll_cons, Tree.outlineAll_cons, outlineAll_cons, outline_tree first,
      outlineAll_treeAll rest]
end

mutual
theorem leaves_tree (phrase : Phrase) : phrase.tree.leaves = phrase.tokens.map (·.token.leaf) := by
  match phrase with
  | .token next =>
    rw [tree_token, Tree.leaves, tokens_token]
    rfl
  | .node kind children => rw [tree_node, Tree.leaves_node, tokens_node, leavesAll_treeAll children]
theorem leavesAll_treeAll (phrases : List Phrase) :
    Tree.leavesAll (treeAll phrases) = (tokensAll phrases).map (·.token.leaf) := by
  match phrases with
  | [] => rw [treeAll_nil, Tree.leavesAll_nil, tokensAll_nil, List.map_nil]
  | first :: rest =>
    rw [treeAll_cons, Tree.leavesAll_cons, tokensAll_cons, List.map_append, leaves_tree first,
      leavesAll_treeAll rest]
end

/-- Phrases of the same form over the same tokens have the same trees. -/
theorem treeAll_of_outlineAll {phrases phrases' : List Phrase}
    (form : outlineAll phrases = outlineAll phrases')
    (same : (tokensAll phrases).map (·.token.leaf) = (tokensAll phrases').map (·.token.leaf)) :
    treeAll phrases = treeAll phrases' := by
  rw [← outlineAll_treeAll, ← outlineAll_treeAll] at form
  rw [← leavesAll_treeAll, ← leavesAll_treeAll] at same
  exact Tree.eq_of_outlineAll form same

end Phrase

namespace Tree

/-- The outlines of trees, whitespace and comments aside. -/
def grouping (trees : List Tree) : List Outline := outlineAll (strippedAll trees)

theorem grouping_append (front back : List Tree) :
    grouping (front ++ back) = grouping front ++ grouping back := by
  rw [grouping, strippedAll_eq, List.filter_append, List.map_append, outlineAll_append,
    ← strippedAll_eq, ← strippedAll_eq]
  rfl

theorem grouping_cons {first : Tree} (solid : first.isTrivia = false) (rest : List Tree) :
    grouping (first :: rest) = first.stripped.outline :: grouping rest := by
  rw [grouping, strippedAll, solid, if_neg Bool.false_ne_true, outlineAll_cons]
  rfl

theorem grouping_trivia {first : Tree} (trivia : first.isTrivia = true) (rest : List Tree) :
    grouping (first :: rest) = grouping rest := by
  rw [grouping, strippedAll, if_pos trivia]
  rfl

@[simp] theorem grouping_nil : grouping [] = [] := by rw [grouping, strippedAll, outlineAll_nil]

theorem outline_stripped_node (kind : NodeKind) (children : List Tree) :
    (node kind children).stripped.outline = .node kind (grouping children) := by
  rw [stripped, outline]
  rfl

theorem total_leaves_of_trivia {tree : Tree} (trivia : tree.isTrivia = true) :
    Leaf.total tree.leaves = 0 := by
  cases tree with
  | node => exact nomatch trivia
  | leaf kind text =>
    have other : ¬ Leaf.isSignificant (kind, text) = true := by
      rw [Leaf.isSignificant, TokenKind.isSignificant, show kind.isTrivia = true from trivia]
      exact Bool.false_ne_true
    rw [leaves, Leaf.total, List.countP_singleton, if_neg other]

mutual
/-- The tokens of the outline of a tree are its significant leaves. -/
theorem count_stripped {tree : Tree} (solid : tree.isTrivia = false)
    (known : ∀ leaf ∈ tree.leaves, leaf.1 ≠ .error) :
    tree.stripped.outline.count = Leaf.total tree.leaves := by
  match tree with
  | .node kind children =>
    rw [outline_stripped_node, count_node, leaves_node]
    rw [leaves_node] at known
    exact count_grouping known
  | .leaf kind text =>
    rw [leaves] at known ⊢
    have significant : Leaf.isSignificant (kind, text) = true := by
      refine Bool.eq_true_of_not_eq_false fun other => ?_
      have trivia := trivia_of_insignificant other (known _ (List.mem_singleton_self _))
      exact absurd (solid.symm.trans trivia) Bool.false_ne_true
    rw [stripped, outline, count_token, Leaf.total, List.countP_singleton, if_pos significant]
theorem count_grouping {trees : List Tree} (known : ∀ leaf ∈ leavesAll trees, leaf.1 ≠ .error) :
    countAll (grouping trees) = Leaf.total (leavesAll trees) := by
  match trees with
  | [] => rw [grouping_nil, leavesAll_nil]; rfl
  | first :: rest =>
    rw [leavesAll_cons] at known ⊢
    have others := count_grouping fun leaf member => known leaf (List.mem_append_right _ member)
    rw [Leaf.total_append]
    cases trivia : first.isTrivia with
    | false =>
      rw [grouping_cons trivia, countAll_cons, others,
        count_stripped trivia fun leaf member => known leaf (List.mem_append_left _ member)]
    | true =>
      rw [grouping_trivia trivia, others, total_leaves_of_trivia trivia, Nat.zero_add]
end

/-- A line break behind some of the leaves of a tree is not heeded. -/
def Unheeded (tree : Tree) (front : List Leaf) : Prop :=
  tree.stripped.outline.heeded[Leaf.total front]? = some false

variable {table : OperatorTable} {kind : NodeKind} {tree opener closer : Tree}
  {before between after : List Tree} {front back : List Leaf}

/-- What is not heeded in a child is not heeded in the node. -/
theorem Unheeded.node (unheeded : Unheeded tree front) (solid : tree.isTrivia = false)
    (known : ∀ leaf ∈ leavesAll before, leaf.1 ≠ .error) :
    Unheeded (.node kind (before ++ tree :: after)) (leavesAll before ++ front) := by
  rw [Unheeded, outline_stripped_node, grouping_append, grouping_cons solid, Leaf.total_append,
    ← count_grouping known]
  exact heeded_of_child unheeded

theorem total_cons_of_bracket {opening : TokenKind} (opens : opening ∈ Production.brackets)
    (text : String) (rest : List Leaf) :
    Leaf.total ((opening, text) :: rest) = Leaf.total rest + 1 := by
  have significant : ∀ kind ∈ Production.brackets, kind.isSignificant = true := by decide
  exact List.countP_cons_of_pos (significant opening opens)

/-- The nodes with brackets, and where these are. -/
theorem enclosed_of_bracket {opening : TokenKind} {text : String}
    (opens : opening ∈ Production.brackets)
    (derived : (Tree.node kind (before ++ .leaf opening text :: after)).Derived table) :
    kind ∈ bracketKinds ∨ kind ∈ suffixKinds ∧ grouping before ≠ [] := by
  have other : ∀ kind ∈ Production.brackets, kind.isTrivia = false := by decide
  have solid : (leaf opening text).isTrivia = false := other opening opens
  cases derived with
  | node derives _ _ =>
  rw [List.filter_append, List.filter_cons_of_pos (by rw [solid]; rfl), List.map_append,
    List.map_cons] at derives
  by_cases bracket : kind ∈ bracketKinds
  · exact .inl bracket
  by_cases suffix : kind ∈ suffixKinds
  · refine .inr ⟨suffix, fun none => ?_⟩
    obtain ⟨inner, rest, split⟩ := Production.exists_node_of_suffix suffix derives
    rw [grouping, strippedAll_eq] at none
    cases shown : before.filter (!·.isTrivia) with
    | nil =>
      rw [shown] at split
      exact nomatch (List.cons.inj split).1
    | cons first others =>
      rw [shown, List.map_cons, outlineAll_cons] at none
      exact nomatch none
  · exact absurd opens (Production.production_le bracket suffix derives opening text
      (List.mem_append_right _ List.mem_cons_self))

/-- In a derived node, a line break between two brackets is not heeded. -/
theorem unheeded_between {opening closing : TokenKind} {text text' : String}
    (opens : opening ∈ Production.brackets) (closes : closing ∈ Production.brackets)
    (derived : (Tree.node kind (before ++ .leaf opening text ::
      (between ++ [.leaf closing text']))).Derived table)
    (inside : leavesAll between = front ++ back) :
    Unheeded (.node kind (before ++ .leaf opening text :: (between ++ [.leaf closing text'])))
      (leavesAll before ++ (opening, text) :: front) := by
  have known := derived.no_errors.2
  rw [leaves_node, leavesAll_append] at known
  have first := count_grouping fun leaf member => known leaf (List.mem_append_left _ member)
  have second := count_grouping fun leaf member => known leaf (List.mem_append_right _ member)
  have rest : leavesAll (.leaf opening text :: (between ++ [.leaf closing text'])) =
      (opening, text) :: (front ++ (back ++ [(closing, text')])) := by
    simp [leaves, inside]
  rw [rest, total_cons_of_bracket opens, Leaf.total_append, Leaf.total_append,
    total_cons_of_bracket closes] at second
  rw [Unheeded, outline_stripped_node, grouping_append, Leaf.total_append,
    total_cons_of_bracket opens]
  refine heeded_behind (enclosed_of_bracket opens derived) ?_ ?_
  · omega
  · rw [countAll_append]
    omega

end Tree

end LosslessSyntax
