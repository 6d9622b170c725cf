import LosslessSyntax.Proofs.Derivation.Sequences
import LosslessSyntax.Proofs.Derivation.Stripped
import LosslessSyntax.Proofs.Parse.Lossless

/-! # Trees of phrases

The outline of a phrase, filled with the tokens of a text, is a tree that shows the phrase: without
whitespace and comments it is the tree of the phrase (`fills_of_derived`). So it is derived if the phrase
is, and a line break that the phrase takes notice of is found among its children.
-/

namespace LosslessSyntax

open Phrase LosslessSyntax.Tree Lookahead Outline

variable {table : OperatorTable}

namespace Tree

theorem spaced_append {front : List Token} (skip : ∀ token ∈ front, token.kind.isTrivia = true)
    (broken : Bool) (trees : List Tree) :
    spaced broken ((front.map Token.leaf).map Leaf.toTree ++ trees) =
      spaced (broken || front.any Lookahead.isBreak) trees := by
  induction front generalizing broken with
  | nil => rw [List.any_nil, Bool.or_false]; rfl
  | cons first rest ih =>
    have trivia : (Leaf.toTree (Token.leaf first)).isTrivia = true :=
      skip first List.mem_cons_self
    rw [List.map_cons, List.map_cons, List.cons_append, spaced, if_pos trivia,
      ih (fun token member => skip token (List.mem_cons_of_mem _ member)), List.any_cons, Bool.or_assoc]
    rfl

theorem strippedAll_append {front : List Token} (skip : ∀ token ∈ front, token.kind.isTrivia = true)
    (trees : List Tree) :
    strippedAll ((front.map Token.leaf).map Leaf.toTree ++ trees) = strippedAll trees := by
  induction front with
  | nil => rfl
  | cons first rest ih =>
    have trivia : (Leaf.toTree (Token.leaf first)).isTrivia = true :=
      skip first List.mem_cons_self
    rw [List.map_cons, List.map_cons, List.cons_append, strippedAll, if_pos trivia,
      ih (fun token member => skip token (List.mem_cons_of_mem _ member))]

theorem strippedAll_concat (trees : List Tree) {back : List Token}
    (skip : ∀ token ∈ back, token.kind.isTrivia = true) :
    strippedAll (trees ++ (back.map Token.leaf).map Leaf.toTree) = strippedAll trees := by
  induction trees with
  | nil => simpa [strippedAll] using strippedAll_append skip []
  | cons first rest ih => rw [List.cons_append, strippedAll, strippedAll, ih]

theorem spaced_concat (broken : Bool) (trees : List Tree) {back : List Token}
    (skip : ∀ token ∈ back, token.kind.isTrivia = true) :
    spaced broken (trees ++ (back.map Token.leaf).map Leaf.toTree) = spaced broken trees := by
  induction trees generalizing broken with
  | nil => simpa [spaced] using spaced_append skip broken []
  | cons first rest ih =>
    rw [List.cons_append, spaced, spaced, ih, ih]

end Tree

/-- Whitespace and comments are derived. -/
theorem derived_of_trivia {trivia : List Token}
    (skip : ∀ token ∈ trivia, token.kind.isTrivia = true) :
    ∀ tree ∈ (trivia.map Token.leaf).map Leaf.toTree, tree.Derived table := by
  simp only [List.mem_map]
  rintro - ⟨-, ⟨token, within, rfl⟩, rfl⟩
  refine .leaf fun error => ?_
  have trivia := skip token within
  rw [show token.kind = .error from error] at trivia
  exact absurd trivia (by decide)

/-- A tree shows a phrase. -/
structure Shows (table : OperatorTable) (tree : Tree) (phrase : Phrase) : Prop where
  derived : tree.Derived table
  stripped : tree.stripped = phrase.tree
  symbol : tree.symbol = phrase.symbol
  solid : tree.isTrivia = false

/-- Trees, with whitespace and comments among them, show phrases. -/
structure ShowsAll (table : OperatorTable) (broken : Bool) (trees : List Tree)
    (phrases : List Phrase) : Prop where
  derived : ∀ tree ∈ trees, tree.Derived table
  stripped : strippedAll trees = treeAll phrases
  spaced : List.Forall₂ (fun (tree : Tree × Bool) phrase =>
    tree.1.symbol = phrase.symbol ∧ tree.2 = phrase.afterBreak) (spaced broken trees) phrases

namespace ShowsAll

variable {broken : Bool} {trees : List Tree} {phrases : List Phrase}

theorem nil (table : OperatorTable) (broken : Bool) : ShowsAll table broken [] [] where
  derived := fun _ member => absurd member List.not_mem_nil
  stripped := by simp [strippedAll]
  spaced := .nil

theorem cons {front : List Token} (skip : ∀ token ∈ front, token.kind.isTrivia = true)
    {tree : Tree} {phrase : Phrase} (first : Shows table tree phrase)
    (here : phrase.afterBreak = (broken || front.any Lookahead.isBreak))
    (rest : ShowsAll table false trees phrases) :
    ShowsAll table broken ((front.map Token.leaf).map Leaf.toTree ++ tree :: trees)
      (phrase :: phrases) where
  derived := fun part member => by
    rcases List.mem_append.mp member with member | member
    · exact derived_of_trivia skip part member
    · rcases List.mem_cons.mp member with rfl | member
      · exact first.derived
      · exact rest.derived part member
  stripped := by
    rw [strippedAll_append skip, strippedAll, first.solid, if_neg Bool.false_ne_true, treeAll_cons,
      first.stripped, rest.stripped]
  spaced := by
    rw [spaced_append skip, Tree.spaced, first.solid, if_neg Bool.false_ne_true]
    exact .cons ⟨first.symbol, here.symm⟩ rest.spaced

theorem concat (shows : ShowsAll table broken trees phrases) {back : List Token}
    (skip : ∀ token ∈ back, token.kind.isTrivia = true) :
    ShowsAll table broken (trees ++ (back.map Token.leaf).map Leaf.toTree) phrases where
  derived := fun part member =>
    (List.mem_append.mp member).elim (shows.derived part) (derived_of_trivia skip part)
  stripped := by rw [strippedAll_concat trees skip, shows.stripped]
  spaced := by
    rw [spaced_concat broken trees skip]
    exact shows.spaced

theorem symbols (shows : ShowsAll table broken trees phrases) :
    (trees.filter (!·.isTrivia)).map Tree.symbol = phrases.map Phrase.symbol := by
  have same := shows.spaced
  clear shows
  rw [← map_fst_spaced broken, List.map_map]
  revert same
  generalize Tree.spaced broken trees = marked
  intro same
  induction same with
  | nil => rfl
  | cons same _ ih => exact congrArg₂ _ same.1 ih

theorem apart (shows : ShowsAll table broken trees phrases) {kinds : List NodeKind}
    (apart : phrases.IsChain (Phrase.Beside kinds)) :
    (Tree.spaced false trees).IsChain (Tree.Beside kinds) := by
  refine @isChain_spaced _ broken _ ?_ false
  have same := shows.spaced
  clear shows
  revert same apart
  generalize Tree.spaced broken trees = marked
  intro apart same
  induction same with
  | nil => exact .nil
  | @cons first phrase rest others here same ih =>
    rw [List.isChain_cons] at apart ⊢
    refine ⟨fun second isHead held held' => ?_, ih apart.2⟩
    cases same with
    | nil => exact absurd isHead.symm (Option.some_ne_none _)
    | cons next =>
      obtain rfl := Option.some.inj isHead
      rw [next.2]
      exact apart.1 _ rfl (here.1 ▸ held) (next.1 ▸ held')

end ShowsAll

theorem breakAfter_of_skip {front : List Token} (skip : ∀ token ∈ front, token.kind.isTrivia = true)
    (broken : Bool) : breakAfter broken front = (broken || front.any Lookahead.isBreak) := by
  induction front generalizing broken with
  | nil => rw [breakAfter, List.any_nil, Bool.or_false]
  | cons first rest ih =>
    have other : first.kind.isSignificant = false := by
      rw [TokenKind.isSignificant, skip first List.mem_cons_self]
      rfl
    rw [breakAfter, other, if_neg Bool.false_ne_true, List.any_cons, ← Bool.or_assoc,
      ih (fun token member => skip token (List.mem_cons_of_mem _ member))]

theorem trivia_of_insignificant {kind : TokenKind} (other : kind.isSignificant = false)
    (known : kind ≠ .error) : kind.isTrivia = true := by
  revert other known
  cases kind <;> decide

/-- Whitespace and comments before the first significant token. -/
theorem exists_skip {broken : Bool} {tokens : List Token} {first : Lookahead}
    {rest : List Lookahead} (ahead : ofTokens broken tokens = first :: rest)
    (known : ∀ token ∈ tokens, token.kind ≠ .error) :
    ∃ front back, tokens = front ++ first.token :: back ∧
      (∀ token ∈ front, token.kind.isTrivia = true) ∧
      Leaf.skipped (tokens.map Token.leaf) = front.map Token.leaf ∧
      Leaf.unskipped (tokens.map Token.leaf) = (first.token :: back).map Token.leaf ∧
      first.afterBreak = (broken || front.any Lookahead.isBreak) ∧
      first.kind.isSignificant = true ∧ rest = ofTokens false back := by
  have significant : first.token.leaf.isSignificant = true :=
    (mem_ofTokens (ahead ▸ List.mem_cons_self)).2
  obtain ⟨front, back, rfl, none, same, rfl⟩ :=
    @ofTokens_cut broken tokens [] rest first ahead
  have skip : ∀ token ∈ front, token.leaf.isSignificant = false := by
    have count := length_ofTokens broken front
    rw [← none, List.length_nil, eq_comm, Leaf.total, List.countP_eq_zero] at count
    exact fun token member => Bool.eq_false_iff.mpr (count _ (List.mem_map_of_mem member))
  have trivia : ∀ token ∈ front, token.kind.isTrivia = true := fun token member =>
    trivia_of_insignificant (skip token member) (known token (List.mem_append_left _ member))
  have before : ∀ leaf ∈ front.map Token.leaf, (!leaf.isSignificant) = true := fun leaf member => by
    obtain ⟨token, within, rfl⟩ := List.mem_map.mp member
    rw [skip token within]
    rfl
  refine ⟨front, back, rfl, trivia, ?_, ?_, ?_, significant, rfl⟩
  · rw [List.map_append, Leaf.skipped, List.takeWhile_append_of_pos before, List.map_cons,
      List.takeWhile_cons, significant, Bool.not_true, if_neg Bool.false_ne_true, List.append_nil]
  · rw [List.map_append, Leaf.unskipped, List.dropWhile_append_of_pos before, List.map_cons,
      List.dropWhile_cons, significant, Bool.not_true, if_neg Bool.false_ne_true]
  · rw [← breakAfter_of_skip trivia]
    exact congrArg Lookahead.afterBreak same

/-- The outline of a phrase, filled with the tokens of the phrase, is a tree that shows it, after
whitespace and comments. -/
def Fills (table : OperatorTable) (phrase : Phrase) : Prop :=
  ∀ (broken : Bool) (tokens : List Token) (rest : List Lookahead),
    ofTokens broken tokens = phrase.tokens ++ rest → (∀ token ∈ tokens, token.kind ≠ .error) →
    ∃ (front : List Token) (tree : Tree) (back : List Token),
      fill (tokens.map Token.leaf) phrase.outline =
        ((front.map Token.leaf).map Leaf.toTree ++ [tree], back.map Token.leaf) ∧
      (∀ token ∈ front, token.kind.isTrivia = true) ∧ ofTokens false back = rest ∧
      (∀ token ∈ back, token.kind ≠ .error) ∧ Shows table tree phrase ∧
      phrase.afterBreak = (broken || front.any Lookahead.isBreak)

/-- The same for phrases that follow each other. -/
theorem shows_fillAll {phrases : List Phrase} (fills : ∀ phrase ∈ phrases, Fills table phrase)
    {broken : Bool} {tokens : List Token} {rest : List Lookahead}
    (ahead : ofTokens broken tokens = tokensAll phrases ++ rest)
    (known : ∀ token ∈ tokens, token.kind ≠ .error) :
    ∃ trees back, fillAll (tokens.map Token.leaf) (Phrase.outlineAll phrases) =
        (trees, back.map Token.leaf) ∧
      ofTokens (broken && phrases.isEmpty) back = rest ∧ (∀ token ∈ back, token.kind ≠ .error) ∧
      ShowsAll table broken trees phrases := by
  induction phrases generalizing broken tokens with
  | nil =>
    refine ⟨[], tokens, by simp, ?_, known, .nil table broken⟩
    simpa using ahead
  | cons first others ih =>
    rw [tokensAll_cons, List.append_assoc] at ahead
    obtain ⟨front, tree, middle, here, skip, after, known', shows, broke⟩ :=
      fills first List.mem_cons_self broken tokens _ ahead known
    obtain ⟨trees, back, there, rest', known'', showsAll⟩ :=
      ih (fun phrase member => fills phrase (List.mem_cons_of_mem _ member)) after known'
    refine ⟨_, back, ?_, ?_, known'', .cons skip shows broke showsAll⟩
    · rw [Phrase.outlineAll_cons, fillAll_cons, here, there, List.append_assoc, List.singleton_append]
    · rwa [List.isEmpty_cons, Bool.and_false]

theorem fills_of_derived {phrase : Phrase} (derived : phrase.Derived table) :
    Fills table phrase := by
  induction derived with
  | token next =>
    intro broken tokens rest ahead known
    rw [tokens_token, List.singleton_append] at ahead
    obtain ⟨front, back, rfl, skip, skipped, unskipped, broke, significant, rfl⟩ :=
      exists_skip ahead known
    have here : next.kind ≠ .error := known next.token (by simp)
    refine ⟨front, .leaf next.kind next.token.text, back, ?_, skip, rfl,
      fun token member => known token (by simp [member]), ⟨.leaf here, ?_, rfl, ?_⟩, ?_⟩
    · rw [Phrase.outline_token, fill_token, skipped, unskipped, List.map_append]
      rfl
    · rw [stripped, tree_token]
    · refine Bool.eq_false_iff.mpr fun trivia => ?_
      rw [TokenKind.isSignificant, show next.kind.isTrivia = true from trivia] at significant
      exact absurd significant Bool.false_ne_true
    · rw [← broke, Phrase.afterBreak, tokens_token]
      rfl
  | @node kind children inner derives apart operation within ih =>
    intro broken tokens rest ahead known
    have whole : (Phrase.node kind children).Derived table :=
      .node inner derives apart operation within
    obtain ⟨first, more, begins⟩ := List.exists_cons_of_ne_nil whole.tokens_ne_nil
    have ahead' := ahead
    rw [begins, List.cons_append] at ahead'
    obtain ⟨front, back, rfl, skip, skipped, unskipped, broke, significant, left⟩ :=
      exists_skip ahead' known
    have inside : ofTokens first.afterBreak (first.token :: back) =
        tokensAll children ++ rest := by
      rw [← tokens_node kind, begins, List.cons_append, ofTokens,
        if_pos (by exact significant), left]
    obtain ⟨trees, behind, filled, after, known', shows⟩ :=
      shows_fillAll ih inside fun token member => known token (List.mem_append_right _ member)
    have some : children.isEmpty = false := by
      refine List.isEmpty_eq_false_iff.mpr fun none => ?_
      rw [none, tokens_node, tokensAll_nil] at begins
      exact absurd begins.symm (List.cons_ne_nil _ _)
    rw [some, Bool.and_false] at after
    refine ⟨front, .node kind trees, behind, ?_, skip, after, known', ⟨.node ?_ ?_ shows.derived, ?_,
      rfl, rfl⟩, ?_⟩
    · rw [Phrase.outline_node, fill_node, skipped, unskipped, filled]
    · rw [shows.symbols]
      exact derives
    · exact fun kinds mark held => shows.apart (apart kinds mark held)
    · rw [stripped, tree_node, shows.stripped]
    · rw [← broke, Phrase.afterBreak, begins]
      rfl

end LosslessSyntax
