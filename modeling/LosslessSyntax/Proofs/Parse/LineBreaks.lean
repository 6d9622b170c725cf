import LosslessSyntax.Proofs.Derivation.Enclosed
import LosslessSyntax.Proofs.Parse.Nodes
import LosslessSyntax.Proofs.Parse.Respaced
import LosslessSyntax.Proofs.Scanner.Respaced
import LosslessSyntax.Proofs.Tree.Sexpr

/-! # Line breaks between brackets

Between brackets a line break is whitespace like any other. If nothing is reported for a text, its
whitespace between a bracket and the closing one may be replaced by any other whitespace, except
right behind a comment that ends with its line (`Parse.line_breaks_insignificant`): nothing is
reported for the new text either, and its tree is the same, whitespace and comments aside.
-/

namespace LosslessSyntax

open Lexeme Grammar Outline LosslessSyntax.Tree

namespace Tree

/-- A comment that ends with its line. -/
def isLineComment : Tree → Bool
  | .node _ _ => false
  | .leaf kind text => Lexeme.isLineComment kind text.toList

end Tree

namespace Lexeme

variable {front back : List Lexeme} {blank : Lexeme}

/-- The significant leaves around whitespace. -/
theorem filter_leavesOf_blank (white : blank.kind = .whitespace) :
    (leavesOf (front ++ blank :: back)).filter Leaf.isSignificant =
      (leavesOf front).filter Leaf.isSignificant ++ (leavesOf back).filter Leaf.isSignificant := by
  have other : ¬ blank.leaf.isSignificant = true := by
    rw [Leaf.isSignificant, show blank.leaf.1 = .whitespace from white]
    decide
  rw [leavesOf_append, List.filter_append]
  exact congrArg _ (List.filter_cons_of_neg other)

theorem total_leavesOf_blank (white : blank.kind = .whitespace) :
    Leaf.total (leavesOf (front ++ blank :: back)) =
      Leaf.total (leavesOf front) + Leaf.total (leavesOf back) := by
  simp only [Leaf.total, List.countP_eq_length_filter, filter_leavesOf_blank white,
    List.length_append]

theorem leaves_ofTokens (broken : Bool) (tokens : List Token) :
    (Lookahead.ofTokens broken tokens).map (·.token.leaf) =
      (tokens.map Token.leaf).filter Leaf.isSignificant := by
  have same := congrArg (List.map Token.leaf) (map_token_ofTokens broken tokens)
  rw [List.map_map] at same
  rw [List.filter_map]
  exact same

end Lexeme

namespace Parse

variable {config : Config} {text text' : String} {front back : List Lexeme} {blank blank' : Lexeme}

/-- If nothing is reported, the tree is derived, and grouped like the tokens. -/
theorem derived_grouped (clean : (ofText config text).diagnostics.items = []) :
    (ofText config text).tree.Derived config.operators ∧
      (ofText config text).tree.isNode = true ∧
      (ofText config text).tree.stripped.outline = .node .root (run config text).outline := by
  obtain ⟨trees, phrases, tree, shows, -, words, apart, outline, -⟩ := exists_phrases clean
  rw [tree]
  refine ⟨.node (shows.symbols ▸ words) (fun kinds mark held => ?_) shows.derived, rfl, ?_⟩
  · obtain ⟨rfl, -⟩ := Prod.mk.inj (Option.some.inj held)
    exact shows.apart apart
  · rw [outline_stripped_node, outline, grouping, shows.stripped, Phrase.outlineAll_treeAll]

/-- A text with other whitespace in one place, where line breaks are not heeded. -/
theorem stripped_respaced (clean : (ofText config text).diagnostics.items = [])
    (split : lexemes config text = front ++ blank :: back)
    (split' : lexemes config text' = front ++ blank' :: back)
    (white : blank.kind = .whitespace) (white' : blank'.kind = .whitespace)
    (sound' : blank'.fault? = none)
    (unheeded : (ofText config text).tree.Unheeded (leavesOf front)) :
    (ofText config text').diagnostics.items = [] ∧
      (ofText config text').tree.stripped = (ofText config text).tree.stripped := by
  obtain ⟨derived, inner, grouped⟩ := derived_grouped clean
  have count := count_stripped (isTrivia_of_isNode inner) derived.no_errors.2
  rw [grouped, count_node, leaves_ofText, split, total_leavesOf_blank white] at count
  rw [Unheeded, grouped, heeded_plain (by decide) (by decide)] at unheeded
  obtain ⟨inside, -⟩ := List.getElem?_eq_some_iff.mp unheeded
  have behind : 0 < Leaf.total (leavesOf back) := by
    rw [length_heededAll, count] at inside
    omega
  obtain ⟨runs, -⟩ := clean_run clean
  obtain ⟨respaced, faults⟩ := respaced_beginning split split' white white'
    (split ▸ sound_lexemes clean) sound' (List.getElem?_append_left inside ▸ unheeded) behind
  have same := respaced_run runs respaced
  have clean' : (ofText config text').diagnostics.items = [] := by
    rw [diagnostics_ofText, faults, Diagnostics.extend_nil, ← same.reports, runs.reports]
  obtain ⟨trees, phrases, tree, shows, -, -, -, outline, tokens⟩ := exists_phrases clean
  obtain ⟨trees', phrases', tree', shows', -, -, -, outline', tokens'⟩ := exists_phrases clean'
  refine ⟨clean', ?_⟩
  rw [tree, tree', stripped, stripped, shows.stripped, shows'.stripped]
  refine congrArg (Tree.node .root) (Phrase.treeAll_of_outlineAll ?_ ?_)
  · rw [← outline, ← outline', State.outline, State.outline, same.pieces]
  · rw [← tokens, ← tokens', leaves_ofTokens, leaves_ofTokens, map_leaf_tokensAt,
      map_leaf_tokensAt, split, split', filter_leavesOf_blank white, filter_leavesOf_blank white']

/-- A leaf of the tree is a lexeme of the text. -/
theorem exists_lexeme_of_mem_tokens {token : Cursor}
    (member : token ∈ (ofText config text).root.tokens) :
    ∃ front lexeme back, lexemes config text = front ++ lexeme :: back ∧
      token.tree = lexeme.leaf.toTree ∧ token.start = Leaf.width (leavesOf front) := by
  obtain ⟨before, leaf, after, split, here, place⟩ := Cursor.exists_of_mem_tokens member
  obtain ⟨front, rest, lexed, rfl, others⟩ := List.map_eq_append_iff.mp
    ((leaves_ofText config text).symm.trans split)
  obtain ⟨lexeme, back, rfl, rfl, -⟩ := List.map_eq_cons_iff.mp others
  exact ⟨front, lexeme, back, lexed, here, place⟩

/-- The leaves around that of a lexeme. -/
theorem leaves_of_split {lexeme : Lexeme} (split : lexemes config text = front ++ lexeme :: back) :
    (ofText config text).tree.leaves = leavesOf front ++ lexeme.leaf :: leavesOf back := by
  rw [leaves_ofText, split, leavesOf_append]
  rfl

/-- The leaf right before a lexeme. -/
theorem mem_tokens_before {last : Lexeme} (split : lexemes config text = front ++ last :: back) :
    ∃ before ∈ (ofText config text).root.tokens, before.tree = last.leaf.toTree ∧
      before.span.stop = Leaf.width (leavesOf (front ++ [last])) := by
  refine ⟨_, Cursor.mem_tokens_of_split (leaves_of_split split), rfl, ?_⟩
  rw [Cursor.span, Span.ofLength, Leaf.toTree, width_leaf, leavesOf_append, Leaf.width_append]
  change _ = _ + Leaf.width [last.leaf]
  rw [Leaf.width_cons, Leaf.width_nil, Nat.add_zero]

/-- No comment that ends with its line stands right before a lexeme if there is no such leaf. -/
theorem not_isLineComment_before {lexeme : Lexeme}
    (split : lexemes config text = front ++ lexeme :: back)
    (apart : ∀ before ∈ (ofText config text).root.tokens,
      before.span.stop = Leaf.width (leavesOf front) → before.tree.isLineComment = false) :
    ∀ last ∈ front.getLast?, isLineComment last.kind last.chars = false := by
  intro last ends
  obtain ⟨others, rfl⟩ := List.getLast?_eq_some_iff.mp ends
  rw [List.append_assoc, List.singleton_append] at split
  obtain ⟨before, member, shape, stop⟩ := mem_tokens_before split
  have line := apart before member stop
  rw [shape] at line
  change isLineComment last.kind (String.ofList last.chars).toList = false at line
  rwa [String.toList_ofList] at line

/-- Line breaks between brackets are insignificant: if nothing is reported for a text, a whitespace
token between a bracket and the closing one of the same node, not right behind a comment that ends
with its line, may be replaced by any other whitespace, and neither is anything reported then nor
does the s-expression change. -/
theorem line_breaks_insignificant (clean : (ofText config text).diagnostics.items = [])
    {blank : Cursor} (token : blank ∈ (ofText config text).root.tokens)
    (white : blank.tree.tokenKind? = some .whitespace)
    (enclosed : (ofText config text).root.Enclosed blank)
    (apart : ∀ before ∈ (ofText config text).root.tokens,
      before.span.stop = blank.span.start → before.tree.isLineComment = false)
    {blanks : String} (some : blanks ≠ "")
    (all : ∀ c ∈ blanks.toList, c ∈ [' ', '\t', '\r', '\n']) :
    ∃ newText,
      (⟨blank.span.start, blank.tree.width, blanks⟩ : TextEdit).apply text = .ok newText ∧
        (ofText config newText).diagnostics.items = [] ∧
        (ofText config newText).root.sexpr = (ofText config text).root.sexpr := by
  obtain ⟨derived, inner, -⟩ := derived_grouped clean
  obtain ⟨front, lexeme, back, split, here, place⟩ := exists_lexeme_of_mem_tokens token
  have unheeded := enclosed.unheeded derived inner (solid_leaves config text)
    (leaves_of_split split) here place
  have white : lexeme.kind = .whitespace := by
    rw [here] at white
    exact Option.some.inj white
  have lines := not_isLineComment_before split fun before member stop =>
    apart before member (stop.trans place.symm)
  have known : ∀ lexeme ∈ front, lexeme.kind ≠ .error := by
    intro lexeme member error
    have inside : lexeme ∈ lexemes config text := by
      rw [split]
      exact List.mem_append_left _ member
    exact fault_of_error lexeme inside error (sound_lexemes clean lexeme inside)
  have solid : blanks.toList ≠ [] := fun none => some (String.toList_eq_nil_iff.mp none)
  have spaces : ∀ c ∈ blanks.toList, CharClass.isBlank c = true := fun c member => by
    simpa [CharClass.isBlank, or_assoc] using all c member
  have split' := lexemes_respaced split white known lines solid spaces
  have whole : text.toList = charsOf front ++ (lexeme.chars ++ charsOf back) := by
    rw [← charsOf_lexemes config text, split, charsOf_append, charsOf_cons]
  have applied := TextEdit.apply_of_split whole blanks
  have lexed : lexemes config (String.ofList (charsOf front ++ blanks.toList ++ charsOf back)) =
      front ++ ⟨.whitespace, blanks.toList, [], .normal, none⟩ :: back := by
    rw [← split', List.append_assoc, lexemes, String.toList_ofList]
  obtain ⟨clean', same⟩ := stripped_respaced clean split lexed white rfl rfl unheeded
  refine ⟨_, ?_, clean', Cursor.sexpr_of_stripped same⟩
  rw [← applied, here, Cursor.span, Span.ofLength, place, width_leavesOf, Leaf.toTree, width_leaf,
    Lexeme.leaf, Text.utf8ByteSize_ofList]

/-- An argument on a line of its own. -/
theorem line_breaks_insignificant_call :
    ∃ blank ∈ (ofText ⟨3, .standard, 8⟩ "f(a, b)").root.tokens,
      (ofText ⟨3, .standard, 8⟩ "f(a, b)").root.Enclosed blank ∧ ∃ newText,
        (⟨blank.span.start, blank.tree.width, "\n\t"⟩ : TextEdit).apply "f(a, b)" = .ok newText ∧
          (ofText ⟨3, .standard, 8⟩ newText).diagnostics.items = [] ∧
          (ofText ⟨3, .standard, 8⟩ newText).root.sexpr =
            (ofText ⟨3, .standard, 8⟩ "f(a, b)").root.sexpr := by
  have clean : (ofText ⟨3, .standard, 8⟩ "f(a, b)").diagnostics.items = [] := by decide +kernel
  have found : (ofText ⟨3, .standard, 8⟩ "f(a, b)").root.tokens.any (fun blank =>
      blank.tree.tokenKind? == some .whitespace &&
        decide ((ofText ⟨3, .standard, 8⟩ "f(a, b)").root.Enclosed blank)) = true := by
    decide +kernel
  have plain : ∀ before ∈ (ofText ⟨3, .standard, 8⟩ "f(a, b)").root.tokens,
      before.tree.isLineComment = false := by
    decide +kernel
  obtain ⟨blank, member, test⟩ := List.any_eq_true.mp found
  obtain ⟨white, enclosed⟩ := Bool.and_eq_true_iff.mp test
  have enclosed := of_decide_eq_true enclosed
  exact ⟨blank, member, enclosed, line_breaks_insignificant clean member (beq_iff_eq.mp white)
    enclosed (fun before inside _ => plain before inside) (by decide) (by simp)⟩

end Parse

end LosslessSyntax
