import LosslessSyntax.Proofs.Grammar.Programs
import LosslessSyntax.Proofs.Tree.Leaves

/-! # Parsing is lossless

The tree of a text is the outline of its statements filled with its lexemes (`tree_ofText`). So the
leaves of the tree are the tokens of the text, one by one and in their places
(`ofText_lossless`), whatever the text and the configuration.
-/

namespace LosslessSyntax

open Outline Lexeme

namespace Lexeme

@[simp] theorem width_leavesOf (lexemes : List Lexeme) :
    Leaf.width (leavesOf lexemes) = Text.byteLength (charsOf lexemes) := by
  induction lexemes with
  | nil => rfl
  | cons first rest ih =>
    change Leaf.width (first.leaf :: leavesOf rest) = _
    rw [Leaf.width_cons, ih, charsOf_cons, Text.byteLength_append]
    exact congrArg (· + _) (Text.utf8ByteSize_ofList first.chars)

/-- The leaves of lexemes stand where the tokens of the lexemes do. -/
theorem ofLeaves_leavesOf (position : Position) (lexemes : List Lexeme) :
    (Cursor.ofLeaves position.offset (leavesOf lexemes)).map (fun leaf => (leaf.tree, leaf.span)) =
      (tokensAt position lexemes).map fun token => (.leaf token.kind token.text, token.span) := by
  induction lexemes generalizing position with
  | nil => rfl
  | cons first rest ih =>
    have inner := ih (position.after first.chars)
    have next : (position.after first.chars).offset =
        position.offset + first.leaf.toTree.width := by
      rw [Position.offset_after, Leaf.toTree, Tree.width_leaf, leaf, Text.utf8ByteSize_ofList]
    rw [next] at inner
    have here : (Cursor.span ⟨first.leaf.toTree, position.offset⟩) =
        (tokenAt position first).span := by
      rw [Token.span, stop_tokenAt, Cursor.span, Leaf.toTree, Tree.width_leaf, leaf,
        Text.utf8ByteSize_ofList]
      rfl
    change (first.leaf.toTree, Cursor.span ⟨first.leaf.toTree, position.offset⟩) :: _ = _
    rw [here, tokensAt, List.map_cons]
    exact congrArg _ inner

theorem join_leavesOf (lexemes : List Lexeme) :
    String.join ((leavesOf lexemes).map (·.2)) = String.ofList (charsOf lexemes) := by
  induction lexemes with
  | nil => rfl
  | cons first rest ih =>
    rw [charsOf_cons, String.ofList_append, ← ih]
    change String.join (String.ofList first.chars :: _) = _
    rw [String.join_cons]
    rfl

end Lexeme

namespace Parse

variable (config : Config) (text : String)

/-- The lexemes of a text. -/
def lexemes : List Lexeme := Lexeme.lexemes config.operatorLimit text.toList

/-- The run over the statements of a text. -/
def run : Grammar.State :=
  Grammar.programRun config (fun _ => false) text.utf8ByteSize (.ofText text config.operatorLimit)

theorem atEnd_run : (run config text).atEnd = true := by
  have ended := Grammar.stop_items config config.maxDepth
    (Grammar.endsProgram_of_atEnd fun _ => false)
    (Grammar.proper_programStart text.utf8ByteSize
      (Scanner.between_ofText text config.operatorLimit) rfl)
  rwa [Grammar.endsProgram, Bool.or_false] at ended

/-- The tree of a text is the outline of its statements filled with its lexemes. -/
theorem tree_ofText :
    (ofText config text).tree =
      .node .root (plant (leavesOf (lexemes config text)) (run config text).outline) :=
  (Grammar.runProgram_of_ended (Scanner.between_ofText text config.operatorLimit) rfl
    (atEnd_run config text)).2.1

/-- The diagnostics of a text are those of the grammar and then those of the scanner. -/
theorem diagnostics_ofText :
    (ofText config text).diagnostics =
      (run config text).reports.extend (faultsAt .start (lexemes config text)) :=
  (Grammar.runProgram_of_ended (Scanner.between_ofText text config.operatorLimit) rfl
    (atEnd_run config text)).2.2

theorem leaves_ofText : (ofText config text).tree.leaves = leavesOf (lexemes config text) := by
  rw [tree_ofText, Tree.leaves_node, leavesAll_plant]

theorem charsOf_lexemes : charsOf (lexemes config text) = text.toList :=
  Lexeme.charsOf_lexemes config.operatorLimit text.toList

theorem width_ofText : (ofText config text).tree.width = text.utf8ByteSize := by
  rw [← Tree.width_leaves, leaves_ofText, width_leavesOf, charsOf_lexemes, Text.byteLength_toList]

theorem solid_leaves : ∀ leaf ∈ (ofText config text).tree.leaves, 0 < leaf.2.utf8ByteSize := by
  intro leaf within
  rw [leaves_ofText] at within
  obtain ⟨lexeme, member, rfl⟩ := List.mem_map.mp within
  rw [Lexeme.leaf, Text.utf8ByteSize_ofList]
  exact Text.byteLength_pos (chars_ne_nil lexeme member)

theorem scan_eq :
    (scan text config.operatorLimit).1 = tokensAt .start (lexemes config text) ++
      [⟨.eof, "", Position.start.after (charsOf (lexemes config text))⟩] :=
  (Scanner.between_ofText text config.operatorLimit).drain.1

/-- Parsing is lossless: the root covers the text, and its leaves are the tokens of the text without
the end, each once, in order, with its kind, its text and its span. -/
theorem ofText_lossless :
    let root := (ofText config text).root
    root.tree.nodeKind? = some .root ∧ root.span = ⟨0, text.utf8ByteSize⟩ ∧ root.text = text ∧
      ∃ tokens ending, (scan text config.operatorLimit).1 = tokens ++ [ending] ∧
        ending.kind = .eof ∧ (∀ token ∈ tokens, token.kind ≠ .eof) ∧
        root.tokens.map (fun leaf => (leaf.tree, leaf.span)) =
          tokens.map fun token => (.leaf token.kind token.text, token.span) := by
  have leaves := leaves_ofText config text
  have chars := charsOf_lexemes config text
  have tokens : (ofText config text).root.tokens =
      Cursor.ofLeaves 0 (leavesOf (lexemes config text)) := by
    rw [Cursor.tokens_eq, Parse.root, Cursor.ofRoot, leaves]
  refine ⟨?_, ?_, ?_, _, _, scan_eq config text, rfl, fun token member => ?_, ?_⟩
  · change (ofText config text).tree.nodeKind? = _
    rw [tree_ofText]
    rfl
  · change Span.ofLength 0 (ofText config text).tree.width = _
    rw [width_ofText, Span.ofLength, Nat.zero_add]
  · rw [Cursor.text, tokens, Cursor.ownText_ofLeaves, join_leavesOf, chars, String.ofList_toList]
  · obtain ⟨lexeme, member, kind⟩ := kind_mem_tokensAt member
    exact fun ends => kind_ne_eof lexeme member (kind.symm.trans ends)
  · rw [tokens]
    exact ofLeaves_leavesOf .start (lexemes config text)

end Parse

end LosslessSyntax
