import LosslessSyntax.Proofs.Parse.Lossless
import LosslessSyntax.Proofs.Tree.Each
import LosslessSyntax.Proofs.Tree.Walks

/-! # Where the nodes of a tree stand

The nodes below a root are those of the outlines that were filled, each of which begins at a
significant token (`NodeAt`, `meets_fillAll`). So a property of all nodes of an outline, which may
speak of the tokens from a node on, is one of all nodes of the tree. The tokens among the children of
a node are those that the outline has there (`directTokens_fillAll`).
-/

namespace LosslessSyntax

open Outline Lexeme Leaf LosslessSyntax.Tree

namespace Cursor

/-- The significant tokens among the children. -/
def directTokens (cursor : Cursor) : List Cursor :=
  cursor.childTokens.filter (·.tree.tokenKind?.any TokenKind.isSignificant)

end Cursor

namespace Lexeme

variable {origin : Position} {lexemes front back before after : List Lexeme}

/-- The significant tokens of lexemes from a place on. -/
def significant (origin : Position) (lexemes : List Lexeme) : List Token :=
  (tokensAt origin lexemes).filter (·.kind.isSignificant)

theorem significant_append (origin : Position) (front back : List Lexeme) :
    significant origin (front ++ back) =
      significant origin front ++ significant (origin.after (charsOf front)) back := by
  rw [significant, tokensAt_append, List.filter_append]
  rfl

theorem length_significant (origin : Position) (lexemes : List Lexeme) :
    (significant origin lexemes).length = total (leavesOf lexemes) := by
  rw [← map_leaf_tokensAt origin, total, List.countP_map, significant, List.countP_eq_length_filter]
  rfl

theorem map_token_ofTokens (broken : Bool) (tokens : List Token) :
    (Lookahead.ofTokens broken tokens).map (·.token) = tokens.filter (·.kind.isSignificant) := by
  induction tokens generalizing broken with
  | nil => rfl
  | cons first rest ih =>
    rw [Lookahead.ofTokens, List.filter_cons]
    split
    · rw [List.map_cons, ih]
    · exact ih _

/-- The lexemes that some trees take from the front of others, and what that means for the tokens. -/
structure Taken (lexemes front back : List Lexeme) (trees : List Tree) (count : Nat) : Prop where
  split : lexemes = front ++ back
  leaves : leavesAll trees = leavesOf front
  count : total (leavesOf front) = count

namespace Taken

variable {trees : List Tree} {count : Nat}

theorem width (taken : Taken lexemes front back trees count) (origin : Position) :
    (origin.after (charsOf front)).offset = origin.offset + widthAll trees := by
  rw [Position.offset_after, ← width_leavesAll, taken.leaves, width_leavesOf]

theorem drop (taken : Taken lexemes front back trees count) (origin : Position) :
    significant (origin.after (charsOf front)) back = (significant origin lexemes).drop count := by
  rw [taken.split, significant_append, ← taken.count, ← length_significant origin, List.drop_left]

theorem take (taken : Taken lexemes front back trees count) (origin : Position) :
    significant origin front = (significant origin lexemes).take count := by
  rw [taken.split, significant_append, ← taken.count, ← length_significant origin, List.take_left]

theorem total_back (taken : Taken lexemes front back trees count) :
    total (leavesOf lexemes) = count + total (leavesOf back) := by
  rw [taken.split, leavesOf_append, total_append, taken.count]

end Taken

/-- The leaves that are left by some trees are those of lexemes. -/
theorem exists_taken {trees : List Tree} {rest : List Leaf} {count : Nat}
    (whole : leavesAll trees ++ rest = leavesOf lexemes)
    (left : total rest = total (leavesOf lexemes) - count)
    (enough : count ≤ total (leavesOf lexemes)) :
    ∃ front back, Taken lexemes front back trees count ∧ rest = leavesOf back := by
  obtain ⟨front, back, split, leaves, behind⟩ := List.map_eq_append_iff.mp whole.symm
  refine ⟨front, back, ⟨split, leaves.symm, ?_⟩, behind.symm⟩
  have total_whole := congrArg total whole
  rw [total_append, ← leaves] at total_whole
  change total (leavesOf front) + _ = _ at total_whole
  omega

theorem exists_taken_fill {outline : Outline} (enough : outline.count ≤ total (leavesOf lexemes)) :
    ∃ front back, Taken lexemes front back (fill (leavesOf lexemes) outline).1 outline.count ∧
      (fill (leavesOf lexemes) outline).2 = leavesOf back :=
  exists_taken (leavesAll_fill _ _) (total_fill _ _) enough

theorem exists_skipped (lexemes : List Lexeme) :
    ∃ front back, Taken lexemes front back ((skipped (leavesOf lexemes)).map toTree) 0 ∧
      unskipped (leavesOf lexemes) = leavesOf back := by
  refine exists_taken ?_ ?_ (Nat.zero_le _)
  · rw [leavesAll_toTree, skipped_append_unskipped]
  · rw [total_unskipped, Nat.sub_zero]

/-- A node of a kind over some outlines stands among lexemes. -/
structure NodeAt (origin : Position) (lexemes before after : List Lexeme) (kind : NodeKind)
    (children : List Outline) (cursor : Cursor) : Prop where
  split : lexemes = before ++ after
  tree : cursor.tree = .node kind (fillAll (leavesOf after) children).1
  start : cursor.start = (origin.after (charsOf before)).offset
  enough : countAll children ≤ total (leavesOf after)
  opens : Opens (leavesOf after)

theorem NodeAt.behind {kind : NodeKind} {children : List Outline} {cursor : Cursor}
    (node : NodeAt (origin.after (charsOf front)) back before after kind children cursor) :
    NodeAt origin (front ++ back) (front ++ before) after kind children cursor where
  split := by rw [node.split, List.append_assoc]
  tree := node.tree
  start := by rw [node.start, charsOf_append, Position.after_append]
  enough := node.enough
  opens := node.opens

/-- A node that stands among some lexemes has a property there. -/
def Meets (origin : Position) (lexemes : List Lexeme) (holds : Property) (cursor : Cursor) :
    Prop :=
  ∃ before after kind children, NodeAt origin lexemes before after kind children cursor ∧
    holds kind (significant (origin.after (charsOf before)) after) children

theorem Meets.behind {holds : Property} {cursor : Cursor}
    (meets : Meets (origin.after (charsOf front)) back holds cursor) :
    Meets origin (front ++ back) holds cursor := by
  obtain ⟨before, after, kind, children, node, here⟩ := meets
  refine ⟨front ++ before, after, kind, children, node.behind, ?_⟩
  rwa [charsOf_append, Position.after_append]

mutual
/-- What holds of all nodes of an outline holds of all nodes of the trees that it is filled to. -/
theorem meets_fill {holds : Property} {origin : Position} {lexemes : List Lexeme}
    {outline : Outline} (enough : outline.count ≤ total (leavesOf lexemes))
    (each : Each holds (significant origin lexemes) outline) :
    ∀ cursor ∈ Cursor.nodesOfStack
        (Cursor.nodesAmong origin.offset (fill (leavesOf lexemes) outline).1),
      Meets origin lexemes holds cursor := by
  match outline with
  | .token =>
    rw [fill_token, Cursor.nodesAmong_leaves, Cursor.nodesOfStack]
    exact fun _ none => absurd none List.not_mem_nil
  | .node kind children =>
    obtain ⟨front, back, taken, left⟩ := exists_skipped lexemes
    obtain ⟨here, below⟩ := each_node.mp each
    have opens : Opens (leavesOf back) := left ▸ opens_unskipped (leavesOf lexemes)
    rw [← List.drop_zero (l := significant origin lexemes), ← taken.drop origin] at here below
    rw [count_node, taken.total_back, Nat.zero_add] at enough
    rw [fill_node, Cursor.nodesAmong_append, Cursor.nodesAmong_leaves, List.nil_append,
      Cursor.nodesAmong_node, left, ← taken.width origin]
    intro cursor member
    rw [taken.split]
    apply Meets.behind
    rcases List.mem_cons.mp (Cursor.nodesOfStack_cons _ [] ▸ member) with rfl | member
    · refine ⟨[], back, kind, children, ⟨rfl, rfl, rfl, enough, opens⟩, here⟩
    · rw [List.append_nil] at member
      exact meets_fillAll enough below cursor member
theorem meets_fillAll {holds : Property} {origin : Position} {lexemes : List Lexeme}
    {outlines : List Outline} (enough : countAll outlines ≤ total (leavesOf lexemes))
    (each : EachAll holds (significant origin lexemes) outlines) :
    ∀ cursor ∈ Cursor.nodesOfStack
        (Cursor.nodesAmong origin.offset (fillAll (leavesOf lexemes) outlines).1),
      Meets origin lexemes holds cursor := by
  match outlines with
  | [] =>
    rw [fillAll_nil]
    exact fun _ none => absurd none (by simp [Cursor.nodesAmong, Cursor.sequence, Cursor.nodesOfStack])
  | first :: rest =>
    rw [countAll_cons] at enough
    obtain ⟨here, others⟩ := eachAll_cons.mp each
    obtain ⟨front, back, taken, left⟩ := exists_taken_fill (Nat.le_trans (Nat.le_add_right _ _) enough)
    have total_back := taken.total_back
    rw [← taken.drop origin] at others
    rw [fillAll_cons, Cursor.nodesAmong_append, Cursor.nodesOfStack_append, left,
      ← taken.width origin]
    intro cursor member
    rcases List.mem_append.mp member with member | member
    · exact meets_fill (by omega) here cursor member
    · rw [taken.split]
      exact (meets_fillAll (by omega) others cursor member).behind
end

/-- The significant tokens among some trees that stand from an offset on. -/
def tokensAmong (start : Nat) (trees : List Tree) : List Cursor :=
  (Cursor.sequence start trees).filter (·.tree.tokenKind?.any TokenKind.isSignificant)

theorem directTokens_eq_tokensAmong (cursor : Cursor) :
    cursor.directTokens = tokensAmong cursor.start cursor.tree.children := by
  rw [Cursor.directTokens, Cursor.childTokens, List.filter_filter, Cursor.children, tokensAmong]
  refine List.filter_congr fun child _ => ?_
  cases child.tree <;> simp [Tree.tokenKind?, Tree.isNode]

theorem tokensAmong_append (start : Nat) (front back : List Tree) :
    tokensAmong start (front ++ back) =
      tokensAmong start front ++ tokensAmong (start + widthAll front) back := by
  rw [tokensAmong, Cursor.sequence_append, List.filter_append]
  rfl

/-- Among leaves these are the significant tokens. -/
theorem tokensAmong_leaves (origin : Position) (lexemes : List Lexeme) :
    (tokensAmong origin.offset ((leavesOf lexemes).map toTree)).map
        (fun cursor => (cursor.tree, cursor.span)) =
      (significant origin lexemes).map fun token => (.leaf token.kind token.text, token.span) := by
  have whole := congrArg
    (List.filter fun place : Tree × Span => place.1.tokenKind?.any TokenKind.isSignificant)
    (ofLeaves_leavesOf origin lexemes)
  rwa [List.filter_map, List.filter_map] at whole

/-- The tokens among the children of a node are the direct ones of its outlines. -/
theorem directTokens_fillAll {origin : Position} {lexemes : List Lexeme} {outlines : List Outline}
    (enough : countAll outlines ≤ total (leavesOf lexemes)) :
    (tokensAmong origin.offset (fillAll (leavesOf lexemes) outlines).1).map
        (fun cursor => (cursor.tree, cursor.span)) =
      (direct (significant origin lexemes) outlines).map
        fun token => (.leaf token.kind token.text, token.span) := by
  induction outlines generalizing origin lexemes with
  | nil =>
    rw [fillAll_nil, direct]
    rfl
  | cons first rest ih =>
    rw [countAll_cons] at enough
    obtain ⟨front, back, taken, left⟩ := exists_taken_fill (Nat.le_trans (Nat.le_add_right _ _) enough)
    have total_back := taken.total_back
    have others := @ih (origin.after (charsOf front)) back (by omega)
    rw [taken.drop origin, taken.width origin] at others
    rw [fillAll_cons, tokensAmong_append, List.map_append, left, others]
    cases first with
    | token =>
      have leaves : (fill (leavesOf lexemes) .token).1 = (leavesOf front).map toTree := by
        rw [← taken.leaves, fill_token, leavesAll_toTree]
      rw [leaves, tokensAmong_leaves, taken.take origin, direct, List.map_append]
      rfl
    | node kind children =>
      obtain ⟨skip, _, passed, -⟩ := exists_skipped lexemes
      have skip_leaves : skipped (leavesOf lexemes) = leavesOf skip := by
        rw [← passed.leaves, leavesAll_toTree]
      have none : (tokensAmong origin.offset (fill (leavesOf lexemes) (.node kind children)).1).map
          (fun cursor => (cursor.tree, cursor.span)) = [] := by
        rw [fill_node, tokensAmong_append, List.map_append, skip_leaves, tokensAmong_leaves,
          passed.take origin]
        rfl
      rw [none, direct]
      rfl

namespace NodeAt

variable {kind : NodeKind} {children : List Outline} {cursor : Cursor}

/-- The node takes some of the lexemes that begin with it, and ends where these do. -/
theorem exists_taken (node : NodeAt origin lexemes before after kind children cursor) :
    ∃ inner behind, Taken after inner behind cursor.tree.children (countAll children) ∧
      cursor.span.stop = (origin.after (charsOf (before ++ inner))).offset := by
  obtain ⟨inner, behind, taken, -⟩ := Lexeme.exists_taken
    (leavesAll_fillAll (leavesOf after) children) (total_fillAll _ _) node.enough
  refine ⟨inner, behind, ?_, ?_⟩
  · rwa [node.tree]
  · rw [Cursor.span, Span.ofLength, node.tree, Tree.width_node, node.start, charsOf_append,
      Position.after_append, taken.width]

theorem directTokens_eq (node : NodeAt origin lexemes before after kind children cursor) :
    cursor.directTokens.map (fun cursor => (cursor.tree, cursor.span)) =
      (direct (significant (origin.after (charsOf before)) after) children).map
        fun token => (.leaf token.kind token.text, token.span) := by
  rw [← directTokens_fillAll node.enough, directTokens_eq_tokensAmong, node.tree, node.start]
  rfl

/-- A node without children is one of an outline without children. -/
theorem children_eq_nil (node : NodeAt origin lexemes before after kind children cursor)
    (none : cursor.tree.children = []) : children = [] := by
  rw [node.tree] at none
  cases children with
  | nil => rfl
  | cons first rest =>
    have none : (fillAll (leavesOf after) (first :: rest)).1 = [] := none
    rw [fillAll_cons, List.append_eq_nil_iff] at none
    cases first with
    | node kind inner =>
      rw [fill_node] at none
      exact absurd none.1 (by simp)
    | token =>
      have enough := node.enough
      have whole := leavesAll_fill (leavesOf after) .token
      have left := total_fill (leavesOf after) .token
      rw [none.1, leavesAll_nil, List.nil_append] at whole
      rw [whole, count_token] at left
      rw [countAll_cons, count_token] at enough
      omega

variable (solid : ∀ lexeme ∈ lexemes, lexeme.chars ≠ [])
include solid

/-- The first significant token from the start of a node on is the first of those that the outline
has there, or the end. -/
theorem find_next (node : NodeAt origin lexemes before after kind children cursor) {ending : Token}
    (ends : ending.kind = .eof) (place : ending.start = (origin.after (charsOf lexemes)).offset) :
    (tokensAt origin lexemes ++ [ending]).find? (fun token =>
        token.kind.isSignificant && decide (cursor.start ≤ token.start)) =
      some ((significant (origin.after (charsOf before)) after).head?.getD ending) := by
  have split := node.split
  have start := node.start
  subst split
  have early : ∀ token ∈ tokensAt origin before, ¬ cursor.start ≤ token.start := by
    intro token member
    have := mem_tokensAt (fun lexeme member => solid lexeme (List.mem_append_left _ member)) member
    rw [start, Position.offset_after]
    omega
  have late : ∀ token ∈ tokensAt (origin.after (charsOf before)) after,
      cursor.start ≤ token.start := by
    intro token member
    rw [start]
    exact (mem_tokensAt (fun lexeme member => solid lexeme (List.mem_append_right _ member)) member).1
  have last : cursor.start ≤ ending.start := by
    rw [start, place, charsOf_append, Position.after_append, Position.offset_after _ (charsOf after)]
    exact Nat.le_add_right _ _
  rw [tokensAt_append, List.append_assoc, List.find?_append, List.find?_eq_none.mpr, Option.none_or,
    ← List.head?_filter, List.filter_append, significant]
  · rw [List.filter_congr fun token member => by rw [decide_eq_true (late token member), Bool.and_true],
      List.head?_append]
    have kept : [ending].filter (fun token =>
        token.kind.isSignificant && decide (cursor.start ≤ token.start)) = [ending] := by
      refine List.filter_cons_of_pos ?_
      rw [ends, decide_eq_true last]
      rfl
    rw [kept]
    cases (List.filter (·.kind.isSignificant) (tokensAt (origin.after (charsOf before)) after)).head? <;>
      rfl
  · intro token member here
    exact early token member (of_decide_eq_true (Bool.and_eq_true_iff.mp here).2)

/-- If a node takes all tokens that are left, no significant one stands behind it. -/
theorem insignificant_behind (node : NodeAt origin lexemes before after kind children cursor)
    (all : (significant (origin.after (charsOf before)) after).drop (countAll children) = []) :
    ∀ token ∈ tokensAt origin lexemes, cursor.span.stop ≤ token.start →
      token.kind.isSignificant = false := by
  obtain ⟨inner, behind, taken, stop⟩ := node.exists_taken
  have nothing := (taken.drop (origin.after (charsOf before))).trans all
  have split : lexemes = (before ++ inner) ++ behind := by
    rw [node.split, taken.split, List.append_assoc]
  subst split
  rw [← Position.after_append, ← charsOf_append, significant, List.filter_eq_nil_iff] at nothing
  intro token member reached
  rw [tokensAt_append] at member
  rcases List.mem_append.mp member with inside | member
  · have := mem_tokensAt (fun lexeme member => solid lexeme (List.mem_append_left _ member)) inside
    rw [stop, Position.offset_after] at reached
    omega
  · exact Bool.eq_false_iff.mpr (nothing token member)

end NodeAt

end Lexeme

end LosslessSyntax
