import LosslessSyntax.Proofs.Derivation.Clean
import LosslessSyntax.Proofs.Printing.Reading
import LosslessSyntax.Proofs.Printing.Scanning

/-! # Reading back what was written

A text that holds nothing but a written expression is read as one statement, without a report
(`takes_statement`). Since its tokens are those of the expression, and grouped as they are, the tree
of the text is the expression again, whitespace aside (`Parse.ofText_printed`).
-/

namespace LosslessSyntax

open Lexeme Grammar Phrase LosslessSyntax.Tree

namespace Phrase

variable {table : OperatorTable}

/-- Tokens and how they are grouped determine a tree. -/
def Determines (phrase : Phrase) : Prop :=
  ∀ (tree : Tree) (rest rest' : List Leaf), phrase.outline = tree.outline →
    phrase.tokens.map (·.token.leaf) ++ rest = tree.leaves ++ rest' →
    phrase.tree = tree ∧ rest = rest'

theorem treeAll_eq {phrases : List Phrase} (determines : ∀ phrase ∈ phrases, phrase.Determines)
    {trees : List Tree} {rest rest' : List Leaf}
    (outline : Phrase.outlineAll phrases = Tree.outlineAll trees)
    (leaves : (tokensAll phrases).map (·.token.leaf) ++ rest = leavesAll trees ++ rest') :
    treeAll phrases = trees ∧ rest = rest' := by
  induction phrases generalizing trees with
  | nil =>
    cases trees with
    | nil => exact ⟨treeAll_nil, by simpa using leaves⟩
    | cons first others => exact absurd outline (by simp)
  | cons phrase phrases ih =>
    cases trees with
    | nil => exact absurd outline (by simp)
    | cons first others =>
      rw [Phrase.outlineAll_cons, Tree.outlineAll_cons] at outline
      obtain ⟨here, there⟩ := List.cons.inj outline
      rw [tokensAll_cons, List.map_append, List.append_assoc, leavesAll_cons, List.append_assoc]
        at leaves
      obtain ⟨tree, leaves⟩ := determines phrase List.mem_cons_self first _ _ here leaves
      obtain ⟨trees, same⟩ := ih (fun phrase member => determines phrase (List.mem_cons_of_mem _ member))
        there leaves
      exact ⟨by rw [treeAll_cons, tree, trees], same⟩

theorem Derived.determines {phrase : Phrase} (derived : phrase.Derived table) :
    phrase.Determines := by
  induction derived with
  | token next =>
    intro tree rest rest' outline leaves
    cases tree with
    | node kind children => exact absurd outline (by simp)
    | leaf kind text =>
      rw [tokens_token, List.map_singleton, List.singleton_append, Tree.leaves,
        List.singleton_append] at leaves
      obtain ⟨same, rest⟩ := List.cons.inj leaves
      refine ⟨?_, rest⟩
      rw [tree_token]
      exact congrArg₂ Tree.leaf (congrArg Prod.fst same) (congrArg Prod.snd same)
  | @node kind children inner derives apart operation within ih =>
    intro tree rest rest' outline leaves
    cases tree with
    | leaf kind text => exact absurd outline (by simp)
    | node kind' trees =>
      rw [Phrase.outline_node, Tree.outline_node] at outline
      obtain ⟨rfl, inside⟩ := Outline.node.inj outline
      rw [tokens_node, leaves_node] at leaves
      obtain ⟨same, rest⟩ := treeAll_eq ih inside leaves
      exact ⟨by rw [tree_node, same], rest⟩

end Phrase

namespace Grammar

open State

variable {config : Config} {tree : Tree} {room : Nat} {s : State}

theorem statementBody_expr (begins : atExprStart config s = true) (inner : ConstructRule)
    (block : State → State) :
    statementBody config inner block s = (.exprStmt, inner (.expr 0 .empty) s) := by
  have member := mem_of_atExprStart begins
  rw [statementBody]
  split
  case h_13 => rw [if_pos begins]
  all_goals
    rename_i same
    rw [same] at member
    exact absurd member (by decide)

/-- A written expression, up to the end, is taken as a statement. -/
theorem takes_statement (expression : Expression config.operators tree)
    (enough : tree.nodeKinds.length ≤ room) (faces : s.Faces tree.leaves) (block : State → State) :
    Takes s (statementItem config (construct config room) block s) [.node .exprStmt [tree]] := by
  have readable := readable_of_expression expression
  have faces : s.Faces (tree.leaves ++ []) := by rwa [List.append_nil]
  have begins := readable.atExprStart faces
  have member := mem_of_atExprStart begins
  have other (kind : TokenKind) (absent : kind ∉ literalKinds.members ++
      [.ident, .leftParen, .leftBracket, .symbol]) : ¬ s.isAt kind = true := fun here => by
    rw [beq_iff_eq.mp here] at member
    exact absent member
  rw [statementItem, if_neg (other .semicolon (by decide)), statement, during]
  generalize inner_eq : ({ s with phases := .statement :: s.phases } : State) = t
  have inside : t.Faces (tree.leaves ++ []) := inner_eq ▸ faces.of_context s.depth _
  have begins' : atExprStart config t = true := inner_eq ▸ begins
  have starts : atStatementStart config t = true := by rw [atStatementStart, begins', Bool.or_true]
  have notes : annotations t.openNode = t.openNode := by
    rw [annotations]
    refine repeatStep_of_halt (if_neg ?_)
    rw [← inner_eq]
    exact other .annotationMark (by decide)
  have taken := @Readable.element _ _ _ .empty _ _ readable enough inside.openNode
    (fun leaf head => absurd head.symm (Option.some_ne_none leaf))
  have after : State.Faces _ [] := taken.faces_one inside.openNode
  have ended : statementEnd (construct config room (.expr 0 .empty) t.openNode) =
      construct config room (.expr 0 .empty) t.openNode := by
    rw [statementEnd, if_pos]
    rw [atStatementEnd, isAtAny, after.kind_eq_eof]
    rfl
  have whole : Takes t (t.nodeOf (completeStatement config (construct config room) block))
      [.node .exprStmt [tree]] := by
    have body := @statementBody_expr config t.openNode begins' (construct config room) block
    rw [nodeOf, completeStatement, notes, body]
    dsimp only
    rw [ended]
    exact taken.closeNode .exprStmt
  rw [if_pos starts]
  subst inner_eq
  exact whole.of_context

end Grammar

namespace Parse

variable {config : Config} {tree : Tree}

/-- The lexemes of a written expression: its tokens, in turns with spaces. -/
theorem lexemes_printed (writable : Writable config.operators config.operatorLimit)
    (expression : Expression config.operators tree) {first : Leaf} {rest : List Leaf}
    (leaves : tree.leaves = first :: rest) :
    lexemes config tree.printed = ofLeaf first :: spacedLexemes rest := by
  have spelled := expression.spelled writable
  rw [leaves] at spelled
  rw [lexemes, toList_printed leaves]
  exact lexemes_spelled (spelled first List.mem_cons_self)
    fun leaf member => spelled leaf (List.mem_cons_of_mem first member)

/-- Nothing is wrong with the tokens of a written expression, and the grammar sees them on one
line. -/
theorem faces_beginning (writable : Writable config.operators config.operatorLimit)
    (expression : Expression config.operators tree) :
    faultsAt .start (lexemes config tree.printed) = [] ∧
      (beginning config tree.printed).Faces tree.leaves := by
  obtain ⟨first, rest, leaves, -⟩ := (readable_of_expression expression).begins
  have spelled := expression.spelled writable
  rw [leaves] at spelled
  have scanned := lexemes_printed writable expression leaves
  obtain ⟨others, flat⟩ := map_leaf_ofTokens
    (fun leaf member => spelled leaf (List.mem_cons_of_mem first member))
    (Position.start.after (ofLeaf first).chars)
  have significant : (tokenAt .start (ofLeaf first)).kind.isSignificant = true :=
    (spelled first List.mem_cons_self).significant
  have same : (tokenAt .start (ofLeaf first)).leaf = first := by
    rw [Token.leaf, tokenAt, ofLeaf, String.ofList_toList]
  obtain ⟨ahead, finish, -⟩ := programStart_eq tree.printed.utf8ByteSize
    (Scanner.between_ofText tree.printed config.operatorLimit) rfl
  have ahead : (beginning config tree.printed).ahead =
      ⟨tokenAt .start (ofLeaf first), false⟩ :: Lookahead.ofTokens false
        (tokensAt (Position.start.after (ofLeaf first).chars) (spacedLexemes rest)) := by
    rw [beginning, ahead, lookaheads]
    change Lookahead.ofTokens false (tokensAt .start (lexemes config tree.printed)) = _
    rw [scanned, tokensAt, Lookahead.ofTokens, if_pos significant]
  refine ⟨?_, ?_, fun next member => ?_, ?_⟩
  · rw [scanned]
    refine faultsAt_eq_nil.mpr fun lexeme member => ?_
    rcases List.mem_cons.mp member with rfl | member
    · rfl
    · exact fault_spacedLexemes lexeme member
  · rw [ahead, List.map_cons, others, same, leaves]
  · rw [ahead] at member
    rcases List.mem_cons.mp member with rfl | member
    · rfl
    · exact flat next member
  · rw [beginning, finish]
    rfl

/-- A written expression is read as one statement. -/
theorem takes_printed (writable : Writable config.operators config.operatorLimit)
    (expression : Expression config.operators tree)
    (enough : tree.nodeKinds.length ≤ config.maxDepth) :
    Takes (beginning config tree.printed) (run config tree.printed) [.node .exprStmt [tree]] := by
  obtain ⟨-, faces⟩ := faces_beginning writable expression
  generalize start_eq : beginning config tree.printed = s at faces ⊢
  have proper : s.Proper := start_eq ▸ proper_beginning config tree.printed
  have taken : Takes s (item config config.maxDepth s) [.node .exprStmt [tree]] :=
    takes_statement expression enough faces (block config config.maxDepth)
  have after : (item config config.maxDepth s).Faces [] :=
    taken.faces_one (by rwa [leaves_node, leavesAll_singleton, List.append_nil])
  have some : s.ahead ≠ [] := fun none => by
    obtain ⟨first, rest, leaves, -⟩ := (readable_of_expression expression).begins
    have same := faces.ahead
    rw [none, leaves] at same
    exact absurd same.symm (List.cons_ne_nil first rest)
  have goes : endsProgram (fun _ => false) s = false := by
    rw [endsProgram, proper.atEnd_eq_false some]
    rfl
  have stops : endsProgram (fun _ => false) (item config config.maxDepth s) = true :=
    endsProgram_of_atEnd _ _ (by rw [State.atEnd, State.isAt, after.kind_eq_eof]; rfl)
  have same : run config tree.printed = item config config.maxDepth s := by
    rw [← @items_of_stop config config.maxDepth _ _ stops, ← items_of_go proper some goes, ← start_eq]
    rfl
  rw [same]
  exact taken

/-- Reading a written expression gives the expression back: nothing is reported, and the only
statement of the text is the expression. -/
theorem ofText_printed (valid : config.operators.fault? = none)
    (short : ∀ operator ∈ config.operators.binary.operators ++ config.operators.unary.operators,
      operator.length ≤ config.operatorLimit)
    (expression : Expression config.operators tree)
    (enough : tree.nodeKinds.length ≤ config.maxDepth) :
    (ofText config tree.printed).diagnostics.items = [] ∧
      (ofText config tree.printed).tree.stripped = .node .root [.node .exprStmt [tree]] := by
  have writable : Writable config.operators config.operatorLimit := ⟨valid, short⟩
  have takes := takes_printed writable expression enough
  obtain ⟨fine, faces⟩ := faces_beginning writable expression
  have clean : (ofText config tree.printed).diagnostics.items = [] := by
    rw [diagnostics_ofText, takes.reports, reports_beginning, fine]
    rfl
  refine ⟨clean, ?_⟩
  obtain ⟨trees, phrases, root, shows, derived, -, -, outline, tokens⟩ := exists_phrases clean
  have outlines : Phrase.outlineAll phrases = Tree.outlineAll [.node .exprStmt [tree]] := by
    rw [← outline, takes.outline]
    exact congrArg (· ++ _) (State.outline_openNode _)
  have leaves : (tokensAll phrases).map (·.token.leaf) ++ [] =
      leavesAll [.node .exprStmt [tree]] ++ [] := by
    obtain ⟨ahead, -⟩ := programStart_eq tree.printed.utf8ByteSize
      (Scanner.between_ofText tree.printed config.operatorLimit) rfl
    rw [← tokens, leavesAll_singleton, leaves_node, leavesAll_singleton, ← faces.ahead]
    exact congrArg (fun ahead => List.map _ ahead ++ []) ahead.symm
  rw [root, Tree.stripped, shows.stripped,
    (treeAll_eq (fun phrase member => (derived phrase member).determines) outlines leaves).1]

/-- A negation in a product. -/
theorem ofText_printed_product :
    (ofText ⟨3, .standard, 8⟩ "- a * 1").diagnostics.items = [] ∧
      (ofText ⟨3, .standard, 8⟩ "- a * 1").tree.stripped =
        .node .root [.node .exprStmt [.node .binaryExpr
          [.node .prefixExpr [.leaf .symbol "-", .node .nameRef [.leaf .ident "a"]],
            .leaf .symbol "*", .node .literal [.leaf .number "1"]]]] := by
  have name : Expression .standard (.node .nameRef [.leaf .ident "a"]) :=
    .name ⟨by decide, List.all_eq_true.mp (by decide), by decide⟩
  have number : Expression .standard (.node .literal [.leaf .number "1"]) :=
    .literal (@Literal.whole ['1'] ⟨by decide, List.all_eq_true.mp (by decide)⟩)
  have minus : OperatorTable.standard.unaryPower? "-" = some 122 := by decide +kernel
  have times : OperatorTable.standard.binaryPower? "*" = some ⟨102, 103⟩ := by decide +kernel
  have negation : Expression .standard
      (.node .prefixExpr [.leaf .symbol "-", .node .nameRef [.leaf .ident "a"]]) :=
    .prefixed minus (by simp [Tree.leftPowers]) name
  have product := Expression.binary times (by simp [Tree.rightPowers, minus])
    (by simp [Tree.leftPowers]) negation number
  have read := @ofText_printed ⟨3, .standard, 8⟩ _ (by decide +kernel) (by decide +kernel) product
    (by decide)
  have text : (Tree.node .binaryExpr
      [.node .prefixExpr [.leaf .symbol "-", .node .nameRef [.leaf .ident "a"]],
        .leaf .symbol "*", .node .literal [.leaf .number (String.ofList ['1'])]]).printed =
      "- a * 1" := by decide +kernel
  rw [text] at read
  exact read

end Parse

end LosslessSyntax
