import LosslessSyntax.Proofs.Derivation.Filled
import LosslessSyntax.Proofs.Derivation.Statements
import LosslessSyntax.Proofs.Parse.Reported

/-! # Texts with nothing wrong

If a parse reports nothing, the statements have read derived phrases up to the end of the text
(`Parse.exists_phrases`). So the tree is derived (`Parse.derived_of_clean`), and its expressions
are operator trees (`Parse.operation_of_clean`), which their operands and operators in a row
determine.
-/

namespace LosslessSyntax

open Lexeme Grammar Phrase LosslessSyntax.Tree Outline

namespace Lexeme

/-- Something is wrong with every lexeme that is no token. -/
theorem fault_of_error {limit : Nat} {text : List Char} :
    ∀ lexeme ∈ lexemes limit text, lexeme.kind = .error → lexeme.fault? ≠ none := by
  fun_induction lexemes limit text with
  | case1 => exact fun _ member => absurd member List.not_mem_nil
  | case2 c rest ih =>
    intro lexeme member
    rcases List.mem_cons.mp member with rfl | member
    · exact fault_readNormal
    · exact ih lexeme member

end Lexeme

namespace Parse

variable {config : Config} {text : String}

theorem runs_run : Runs (beginning config text) (run config text) :=
  runs_programRun config (fun _ => false) text.utf8ByteSize
    (Scanner.between_ofText text config.operatorLimit) rfl

/-- Nothing is wrong with the lexemes. -/
theorem sound_lexemes (clean : (ofText config text).diagnostics.items = []) :
    ∀ lexeme ∈ lexemes config text, lexeme.fault? = none := by
  rw [diagnostics_ofText] at clean
  exact faultsAt_eq_nil.mp (Diagnostics.eq_nil_of_extend clean)

/-- Nothing has been reported by the grammar, and all lexemes are tokens. -/
theorem clean_run (clean : (ofText config text).diagnostics.items = []) :
    (run config text).Clean ∧ ∀ token ∈ tokensAt .start (lexemes config text), token.kind ≠ .error := by
  have sound := sound_lexemes clean
  have faults : faultsAt .start (lexemes config text) = [] := faultsAt_eq_nil.mpr sound
  rw [diagnostics_ofText, faults, Diagnostics.extend_nil] at clean
  refine ⟨⟨clean, ?_⟩, fun token member error => ?_⟩
  · rcases (@runs_run config text).ended with same | ⟨⟨d, member, -⟩, -⟩
    · rw [same, endReported_beginning, faults]
      rfl
    · exact absurd (clean ▸ member) List.not_mem_nil
  · obtain ⟨lexeme, within, kind⟩ := kind_mem_tokensAt member
    exact fault_of_error lexeme within (kind.symm.trans error) (sound lexeme within)

/-- If nothing is reported, the tree shows derived phrases. -/
theorem exists_phrases (clean : (ofText config text).diagnostics.items = []) :
    ∃ trees phrases,
      (ofText config text).tree = .node .root trees ∧
      ShowsAll config.operators false trees phrases ∧
      (∀ phrase ∈ phrases, phrase.Derived config.operators) ∧
      phrases.map Phrase.symbol ∈ Production.production config.operators .root ∧
      phrases.IsChain (Phrase.Beside Production.statementKinds) ∧
      (run config text).outline = Phrase.outlineAll phrases ∧
      Lookahead.ofTokens false (tokensAt .start (lexemes config text)) = tokensAll phrases := by
  obtain ⟨clean, known⟩ := clean_run clean
  obtain ⟨ahead, finish, -⟩ := programStart_eq text.utf8ByteSize
    (Scanner.between_ofText text config.operatorLimit) rfl
  obtain ⟨-, accepts⟩ := @accepts_items config.operators config config.maxDepth
    (endsProgram fun _ => false) (inner_construct config config.maxDepth)
    (accepts_block config config.maxDepth) (beginning config text) clean
  obtain ⟨phrases, read, derived, sequence⟩ := accepts (by rw [beginning, finish]; rfl)
  have left : (run config text).ahead = [] :=
    ((proper_beginning config text).of_runs runs_run).atEnd_iff.mp (atEnd_run config text)
  have tokens : Lookahead.ofTokens false (tokensAt .start (lexemes config text)) =
      tokensAll phrases ++ [] := by
    rw [← left]
    exact ahead.symm.trans read.ahead
  obtain ⟨trees, back, filled, after, known', shows⟩ := shows_fillAll
    (fun phrase member => fills_of_derived (derived phrase member)) tokens known
  have outline : (run config text).outline = Phrase.outlineAll phrases := read.outline
  rw [map_leaf_tokensAt] at filled
  have skip : ∀ token ∈ back, token.kind.isTrivia = true := by
    have count := Lookahead.length_ofTokens (false && phrases.isEmpty) back
    rw [after, List.length_nil, eq_comm, Leaf.total, List.countP_eq_zero] at count
    exact fun token member => trivia_of_insignificant
      (Bool.eq_false_iff.mpr (count _ (List.mem_map_of_mem member))) (known' token member)
  refine ⟨trees ++ (back.map Token.leaf).map Leaf.toTree, phrases, ?_, ?_, derived,
    sequence.spells, sequence.apart, outline, tokens.trans (List.append_nil _)⟩
  · rw [tree_ofText, plant, outline, filled]
  · exact shows.concat skip

/-- If nothing is reported, the tree is derived, and no part of it is an error. -/
theorem derived_of_clean (clean : (ofText config text).diagnostics.items = []) :
    (ofText config text).tree.Derived config.operators ∧
      .error ∉ (ofText config text).tree.nodeKinds ∧
      ∀ leaf ∈ (ofText config text).tree.leaves, leaf.1 ≠ .error := by
  obtain ⟨trees, phrases, tree, shows, -, words, apart, -⟩ := exists_phrases clean
  have derived : (ofText config text).tree.Derived config.operators := by
    rw [tree]
    refine .node ?_ (fun kinds mark held => ?_) shows.derived
    · rw [shows.symbols]
      exact words
    · obtain ⟨rfl, -⟩ := Prod.mk.inj (Option.some.inj held)
      exact shows.apart apart
  exact ⟨derived, derived.no_errors⟩

/-- A binding and a condition on two lines. -/
theorem derived_of_clean_lines :
    (ofText ⟨3, .empty, 8⟩ "let a = f(1)\nif a \x7b b; \x7d").diagnostics.items = [] ∧
      (ofText ⟨3, .empty, 8⟩ "let a = f(1)\nif a \x7b b; \x7d").tree.Derived .empty := by
  have clean : (ofText ⟨3, .empty, 8⟩ "let a = f(1)\nif a \x7b b; \x7d").diagnostics.items = [] := by
    decide +kernel
  exact ⟨clean, (derived_of_clean clean).1⟩

end Parse

namespace Phrase

variable {table : OperatorTable}

theorem mem_subtreesAll_treeAll {tree : Tree} {phrases : List Phrase} :
    tree ∈ subtreesAll (treeAll phrases) ↔ ∃ phrase ∈ phrases, tree ∈ phrase.tree.subtrees := by
  induction phrases with
  | nil => simp [subtreesAll]
  | cons first rest ih => simp [subtreesAll, ih]

/-- The expressions of a derived phrase are operator trees. -/
theorem Derived.operation_of_subtrees {phrase : Phrase} (derived : phrase.Derived table)
    {kind : NodeKind} {children : List Tree} (below : .node kind children ∈ phrase.tree.subtrees)
    (expression : kind ∈ Production.expressionKinds) : Operation table (.node kind children) := by
  induction derived with
  | token next =>
    rw [tree_token, subtrees] at below
    exact Tree.noConfusion (List.mem_singleton.mp below)
  | @node inside parts inner derives apart operation within ih =>
    rw [tree_node, subtrees] at below
    rcases List.mem_cons.mp below with same | below
    · obtain ⟨rfl, rfl⟩ := Tree.node.inj same
      rw [← tree_node]
      exact operation expression
    · obtain ⟨phrase, member, below⟩ := mem_subtreesAll_treeAll.mp below
      exact ih phrase member below

end Phrase

namespace Operation

variable {table : OperatorTable}

/-- How a binary operator holds its operands. -/
theorem of_binary {children : List Tree} (operation : Operation table (.node .binaryExpr children)) :
    ∃ left operator right power, children = [left, .leaf .symbol operator, right] ∧
      table.binaryPower? operator = some power ∧
      (∀ inner ∈ left.rightPowers table, power.left < inner) ∧
      ∀ inner ∈ right.leftPowers table, power.right ≤ inner := by
  generalize whole : Tree.node .binaryExpr children = tree at operation
  cases operation with
  | operand notPrefix notBinary => exact absurd (Tree.node.inj whole).1.symm notBinary
  | prefixed => exact absurd (Tree.node.inj whole).1 (by decide)
  | @binary left right operator power known loose tight =>
    exact ⟨left, operator, right, power, (Tree.node.inj whole).2, known, loose, tight⟩

/-- How a prefix operator holds its operand. -/
theorem of_prefixed {children : List Tree} (operation : Operation table (.node .prefixExpr children)) :
    ∃ operator operand power, children = [.leaf .symbol operator, operand] ∧
      table.unaryPower? operator = some power ∧
      ∀ inner ∈ operand.leftPowers table, power ≤ inner := by
  generalize whole : Tree.node .prefixExpr children = tree at operation
  cases operation with
  | operand notPrefix notBinary => exact absurd (Tree.node.inj whole).1.symm notPrefix
  | @prefixed operator operand power known tight =>
    exact ⟨operator, operand, power, (Tree.node.inj whole).2, known, tight⟩
  | binary => exact absurd (Tree.node.inj whole).1 (by decide)

end Operation

namespace Parse

variable {config : Config} {text : String}

/-- If nothing is reported, the expressions of the tree are operator trees. -/
theorem operation_of_clean (clean : (ofText config text).diagnostics.items = []) {kind : NodeKind}
    {children : List Tree} (below : .node kind children ∈ (ofText config text).tree.stripped.subtrees)
    (expression : kind ∈ Production.expressionKinds) :
    Operation config.operators (.node kind children) := by
  obtain ⟨trees, phrases, tree, shows, derived, -⟩ := exists_phrases clean
  rw [tree, stripped, shows.stripped, subtrees] at below
  rcases List.mem_cons.mp below with same | below
  · obtain ⟨rfl, -⟩ := Tree.node.inj same
    exact absurd expression (by decide)
  · obtain ⟨phrase, member, below⟩ := mem_subtreesAll_treeAll.mp below
    exact (derived phrase member).operation_of_subtrees below expression

/-- If nothing is reported, every operator holds its operands as the powers of the table demand,
and an expression is the only operator tree with its operands and operators in this order. -/
theorem precedence_respected (clean : (ofText config text).diagnostics.items = []) :
    (∀ children, .node .binaryExpr children ∈ (ofText config text).tree.stripped.subtrees →
      ∃ left operator right power, children = [left, .leaf .symbol operator, right] ∧
        config.operators.binaryPower? operator = some power ∧
        (∀ inner ∈ left.rightPowers config.operators, power.left < inner) ∧
        ∀ inner ∈ right.leftPowers config.operators, power.right ≤ inner) ∧
    (∀ children, .node .prefixExpr children ∈ (ofText config text).tree.stripped.subtrees →
      ∃ operator operand power, children = [.leaf .symbol operator, operand] ∧
        config.operators.unaryPower? operator = some power ∧
        ∀ inner ∈ operand.leftPowers config.operators, power ≤ inner) ∧
    ∀ kind children, .node kind children ∈ (ofText config text).tree.stripped.subtrees →
      kind ∈ Production.expressionKinds →
      Operation config.operators (.node kind children) ∧
        ∀ other, Operation config.operators other →
          other.items = (Tree.node kind children).items → other = .node kind children := by
  refine ⟨fun children below => ?_, fun children below => ?_, fun kind children below expression => ?_⟩
  · exact (operation_of_clean clean below (by decide)).of_binary
  · exact (operation_of_clean clean below (by decide)).of_prefixed
  · have operation := operation_of_clean clean below expression
    exact ⟨operation, fun other operation' same => operation'.eq_of_items operation same⟩

/-- A sum of a negation and a product. -/
theorem precedence_respected_sum :
    (ofText ⟨3, .standard, 8⟩ "-a + b * c").diagnostics.items = [] ∧
      ∀ children, .node .binaryExpr children ∈
          (ofText ⟨3, .standard, 8⟩ "-a + b * c").tree.stripped.subtrees →
        ∃ left operator right power, children = [left, .leaf .symbol operator, right] ∧
          OperatorTable.standard.binaryPower? operator = some power ∧
          (∀ inner ∈ left.rightPowers .standard, power.left < inner) ∧
          ∀ inner ∈ right.leftPowers .standard, power.right ≤ inner := by
  have clean : (ofText ⟨3, .standard, 8⟩ "-a + b * c").diagnostics.items = [] := by
    decide +kernel
  exact ⟨clean, (precedence_respected clean).1⟩

end Parse

end LosslessSyntax
