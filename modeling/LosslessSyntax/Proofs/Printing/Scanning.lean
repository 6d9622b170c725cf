import LosslessSyntax.Proofs.Grammar.Programs
import LosslessSyntax.Proofs.Printing.Expression

/-! # Scanning written expressions

A token that is written down before a space, or at the end, is read again as it is
(`Spelled`). So the lexemes of tokens with single spaces between them are these tokens and spaces in
turns (`lexemes_spelled`), nothing is wrong with them, and the tokens that the grammar sees are those
that were written (`map_leaf_ofTokens`). All tokens of a written expression are of this kind
(`Expression.spelled`).
-/

namespace LosslessSyntax

open CharClass Lexeme

namespace Lexeme

/-- The end of the text, or a space. -/
def Spaced (rest : List Char) : Prop := rest = [] ∨ ∃ more, rest = ' ' :: more

/-- A token that is read as it is written. -/
structure Spelled (limit : Nat) (leaf : Leaf) : Prop where
  significant : leaf.1.isSignificant = true
  spelled : ∃ c more, leaf.2.toList = c :: more ∧ isBlank c = false ∧ ∀ rest, Spaced rest →
    readNormal limit c (more ++ rest) = ⟨leaf.1, c :: more, rest, .normal, none⟩

/-- The characters of tokens after others, each after a space. -/
def spacedChars (leaves : List Leaf) : List Char := leaves.flatMap fun leaf => ' ' :: leaf.2.toList

/-- The lexeme of a token. -/
def ofLeaf (leaf : Leaf) : Lexeme := ⟨leaf.1, leaf.2.toList, [], .normal, none⟩

/-- A space. -/
def gap : Lexeme := ⟨.whitespace, [' '], [], .normal, none⟩

/-- The lexemes of tokens after others, each after a space. -/
def spacedLexemes (leaves : List Leaf) : List Lexeme := leaves.flatMap fun leaf => [gap, ofLeaf leaf]

theorem spaced_spacedChars (leaves : List Leaf) : Spaced (spacedChars leaves) := by
  cases leaves with
  | nil => exact .inl rfl
  | cons first rest => exact .inr ⟨_, rfl⟩

/-- A space before a character that is none. -/
theorem readNormal_gap (limit : Nat) {c : Char} (other : isBlank c = false) (rest : List Char) :
    readNormal limit ' ' (c :: rest) = ⟨.whitespace, [' '], c :: rest, .normal, none⟩ := by
  have blank : ∀ d ∈ [' '], isBlank d = true := by simp [isBlank]
  refine @readNormal_blanks limit ' ' [] (c :: rest) blank fun d head => ?_
  rw [← Option.some.inj head]
  exact other

variable {limit : Nat}

theorem lexemes_spelled {first : Leaf} {others : List Leaf} (here : Spelled limit first)
    (spelled : ∀ leaf ∈ others, Spelled limit leaf) :
    lexemes limit (first.2.toList ++ spacedChars others) = ofLeaf first :: spacedLexemes others := by
  induction others generalizing first with
  | nil =>
    obtain ⟨c, more, chars, -, reads⟩ := here.spelled
    have read := reads [] (.inl rfl)
    rw [spacedChars, List.flatMap_nil, chars, List.cons_append, lexemes_cons, read, lexemes_nil,
      ofLeaf, chars]
    rfl
  | cons next others ih =>
    obtain ⟨c, more, chars, -, reads⟩ := here.spelled
    have next_spelled := spelled next List.mem_cons_self
    obtain ⟨d, rest, chars', other, -⟩ := next_spelled.spelled
    have read := reads (spacedChars (next :: others)) (spaced_spacedChars _)
    have after : spacedChars (next :: others) = ' ' :: d :: (rest ++ spacedChars others) := by
      rw [spacedChars, List.flatMap_cons, chars']
      rfl
    have behind : lexemes limit (d :: (rest ++ spacedChars others)) =
        ofLeaf next :: spacedLexemes others := by
      rw [← ih next_spelled fun leaf member => spelled leaf (List.mem_cons_of_mem _ member), chars']
      rfl
    rw [chars, List.cons_append, lexemes_cons, read]
    change bare _ :: lexemes limit (spacedChars (next :: others)) = _
    rw [after, lexemes_cons, readNormal_gap limit other]
    change bare _ :: bare _ :: lexemes limit (d :: (rest ++ spacedChars others)) = _
    rw [behind, show ofLeaf first = ⟨first.1, c :: more, [], .normal, none⟩ by rw [ofLeaf, chars]]
    rfl

theorem fault_spacedLexemes {leaves : List Leaf} :
    ∀ lexeme ∈ spacedLexemes leaves, lexeme.fault? = none := by
  intro lexeme member
  obtain ⟨leaf, -, member⟩ := List.mem_flatMap.mp member
  rcases List.mem_cons.mp member with rfl | member
  · rfl
  · rw [List.mem_singleton.mp member]
    rfl

open Lookahead in
/-- The grammar sees the tokens that were written, on one line. -/
theorem map_leaf_ofTokens {leaves : List Leaf} (spelled : ∀ leaf ∈ leaves, Spelled limit leaf)
    (position : Position) :
    (ofTokens false (tokensAt position (spacedLexemes leaves))).map (·.token.leaf) = leaves ∧
      ∀ next ∈ ofTokens false (tokensAt position (spacedLexemes leaves)), next.afterBreak = false := by
  induction leaves generalizing position with
  | nil => exact ⟨rfl, fun next member => absurd member List.not_mem_nil⟩
  | cons first rest ih =>
    obtain ⟨leaves, flat⟩ := ih (fun leaf member => spelled leaf (List.mem_cons_of_mem _ member))
      ((position.after gap.chars).after (ofLeaf first).chars)
    have significant : (ofLeaf first).kind.isSignificant = true :=
      (spelled first List.mem_cons_self).significant
    have tokens : ofTokens false (tokensAt position (spacedLexemes (first :: rest))) =
        ⟨tokenAt (position.after gap.chars) (ofLeaf first), false⟩ ::
          ofTokens false (tokensAt ((position.after gap.chars).after (ofLeaf first).chars)
            (spacedLexemes rest)) := by
      have space : ¬ (tokenAt position gap).kind.isSignificant = true := Bool.false_ne_true
      have line : isBreak (tokenAt position gap) = false := by
        rw [isBreak, tokenAt, gap, String.toList_ofList]
        rfl
      change ofTokens false (tokenAt position gap :: tokenAt _ (ofLeaf first) :: _) = _
      rw [ofTokens, if_neg space, line, ofTokens, if_pos (by exact significant)]
      rfl
    have leaf : (tokenAt (position.after gap.chars) (ofLeaf first)).leaf = first := by
      rw [Token.leaf, tokenAt, ofLeaf, String.ofList_toList]
    rw [tokens, List.map_cons, leaves, leaf]
    refine ⟨rfl, fun next member => ?_⟩
    rcases List.mem_cons.mp member with rfl | member
    · rfl
    · exact flat next member

section Tokens

variable {rest : List Char}

/-- Characters of a class before a space are a run. -/
theorem run_of_spaced {inClass : Char → Bool} (other : inClass ' ' = false) {word : List Char}
    (all : ∀ c ∈ word, inClass c = true) (spaced : Spaced rest) :
    (word ++ rest).takeWhile inClass = word ∧ (word ++ rest).dropWhile inClass = rest := by
  refine takeWhile_of_stops all fun c head => ?_
  rcases spaced with rfl | ⟨more, rfl⟩
  · exact nomatch head
  · exact Option.some.inj head ▸ other

/-- Words are read as what the language makes of them. -/
theorem spelled_word {text : String} {kind : TokenKind} (significant : kind.isSignificant = true)
    (first : text.toList.head?.any isWordStart = true) (all : ∀ c ∈ text.toList, isWordPart c = true)
    (means : (TokenKind.ofKeyword? text).getD .ident = kind) : Spelled limit (kind, text) := by
  refine ⟨significant, ?_⟩
  cases chars : text.toList with
  | nil =>
    rw [chars] at first
    exact absurd first Bool.false_ne_true
  | cons c more =>
    rw [chars] at first all
    have first : isWordStart c = true := first
    refine ⟨c, more, rfl, (not_blank_of_isWordStart first).1, fun rest spaced => ?_⟩
    obtain ⟨taken, left⟩ := run_of_spaced (by decide) all spaced
    rw [List.cons_append] at taken left
    rw [readNormal_word first, readWord, taken, left, ← chars, String.ofList_toList, means]

theorem spelled_name {text : String} (name : Name text) : Spelled limit (.ident, text) :=
  spelled_word rfl name.first name.rest (by rw [name.free]; rfl)

/-- Characters that are tokens by themselves. -/
theorem spelled_mark {c : Char} {kind : TokenKind} (significant : kind.isSignificant = true)
    (blank : isBlank c = false)
    (reads : ∀ rest, readNormal limit c rest = ⟨kind, [c], rest, .normal, none⟩) :
    Spelled limit (kind, String.singleton c) :=
  ⟨significant, c, [], by simp, blank, fun rest _ => reads rest⟩

/-- Operators that are short enough. -/
theorem spelled_operator {text : String} {kind : TokenKind} (significant : kind.isSignificant = true)
    (some : text.toList ≠ []) (all : ∀ c ∈ text.toList, isOperator c = true)
    (short : text.toList.length ≤ max 1 limit)
    (means : (TokenKind.ofReservedSymbol? text).getD .symbol = kind) :
    Spelled limit (kind, text) := by
  refine ⟨significant, ?_⟩
  obtain ⟨c, more, chars⟩ := List.exists_cons_of_ne_nil some
  rw [chars] at all short
  have first := all c List.mem_cons_self
  refine ⟨c, more, chars, (@readNormal_operator limit c first []).1, fun rest spaced => ?_⟩
  have taken : ((c :: (more ++ rest)).take (max 1 limit)).takeWhile isOperator = c :: more := by
    have spaced' : Spaced (rest.take (max 1 limit - (c :: more).length)) := by
      rcases spaced with rfl | ⟨others, rfl⟩
      · exact .inl List.take_nil
      · cases max 1 limit - (c :: more).length with
        | zero => exact .inl rfl
        | succ room => exact .inr ⟨_, rfl⟩
    rw [← List.cons_append, List.take_append, List.take_of_length_le short]
    exact (run_of_spaced (by decide) all spaced').1
  rw [(readNormal_operator first _).2, readSymbol, taken]
  change Lexeme.mk _ (c :: more) ((c :: more ++ rest).drop (c :: more).length) _ _ = _
  rw [List.drop_left, ← chars, String.ofList_toList, means]

/-- Literals are read as they are written. -/
theorem spelled_literal {kind : TokenKind} {text : String} (closed : Literal kind text) :
    Spelled limit (kind, text) := by
  cases closed with
  | @whole digits number =>
    obtain ⟨c, more, rfl, digit⟩ := number.exists_cons
    refine ⟨rfl, c, more, String.toList_ofList, (not_blank_of_isDigit digit).1,
      fun rest spaced => ?_⟩
    obtain ⟨taken, left⟩ := run_of_spaced (by decide) number.all spaced
    rw [readNormal_digit digit, ← List.cons_append, readNumber_plain, readRun, taken, left]
    intro d others point
    rw [left] at point
    rcases spaced with rfl | ⟨_, rfl⟩
    · exact absurd point.symm (List.cons_ne_nil _ _)
    · exact absurd (List.cons.inj point).1 (by decide)
  | @decimal digits fraction number behind =>
    obtain ⟨c, more, rfl, digit⟩ := number.exists_cons
    obtain ⟨d, others, rfl, digit'⟩ := behind.exists_cons
    refine ⟨rfl, c, more ++ '.' :: d :: others, String.toList_ofList, (not_blank_of_isDigit digit).1,
      fun rest spaced => ?_⟩
    have whole : c :: (more ++ '.' :: d :: others ++ rest) =
        (c :: more) ++ '.' :: d :: (others ++ rest) := by simp
    have point : ('.' :: d :: (others ++ rest)).takeWhile Char.isDigit = [] ∧
        ('.' :: d :: (others ++ rest)).dropWhile Char.isDigit = '.' :: d :: (others ++ rest) :=
      ⟨rfl, rfl⟩
    obtain ⟨taken, left⟩ := run_of_spaced (by decide) behind.all spaced
    rw [List.cons_append] at taken left
    rw [readNormal_digit digit, whole, readNumber_point (by
      rw [List.dropWhile_append_of_pos number.all, point.2]) digit',
      List.takeWhile_append_of_pos number.all, point.1, readRun, taken, left]
    simp [prepend]
  | @string quote body delimits closed =>
    refine ⟨?_, quote, body, String.toList_ofList, (@readNormal_quote limit quote delimits []).1,
      fun rest spaced => ?_⟩
    · change (stringKind quote).isSignificant = true
      rw [stringKind]
      split <;> rfl
    · rw [(readNormal_quote delimits _).2, readString, stringBody_quoted delimits closed]
      rfl
  | affirmed => exact spelled_word rfl (by decide) (List.all_eq_true.mp (by decide)) rfl
  | denied => exact spelled_word rfl (by decide) (List.all_eq_true.mp (by decide)) rfl

end Tokens

end Lexeme

open LosslessSyntax.Tree

variable {table : OperatorTable} {limit : Nat}

/-- The operators of a table can be written down. -/
structure Writable (table : OperatorTable) (limit : Nat) : Prop where
  valid : table.fault? = none
  short : ∀ operator ∈ table.binary.operators ++ table.unary.operators, operator.length ≤ limit

theorem Writable.spelled (writable : Writable table limit) {operator : String}
    (listed : operator ∈ table.binary.operators ++ table.unary.operators) :
    Spelled limit (.symbol, operator) := by
  have fine := OperatorTable.fault?_eq_none_iff.mp writable.valid operator listed
  obtain ⟨some, allowed, plain⟩ := OperatorTable.operatorFault?_eq_none_iff.mp fine
  have all := fun c member => OperatorTable.mem_characters_iff.mp (allowed c member)
  refine spelled_operator rfl some all ?_ ?_
  · rw [String.length_toList]
    exact Nat.le_trans (writable.short operator listed) (Nat.le_max_right 1 limit)
  · rw [plain]
    rfl

theorem mem_operators_of_binaryPower {operator : String} {power : BindingPower}
    (known : table.binaryPower? operator = some power) :
    operator ∈ table.binary.operators ++ table.unary.operators := by
  obtain ⟨info, found, -⟩ := Option.map_eq_some_iff.mp known
  exact List.mem_append_left _ (List.mem_map_of_mem (mem_of_lookup found))

theorem mem_operators_of_unaryPower {operator : String} {power : Nat}
    (known : table.unaryPower? operator = some power) :
    operator ∈ table.binary.operators ++ table.unary.operators := by
  obtain ⟨precedence, found, -⟩ := Option.map_eq_some_iff.mp known
  exact List.mem_append_right _ (List.mem_map_of_mem (mem_of_lookup found))

/-- All tokens of some trees are read as they are written. -/
def SpelledAll (limit : Nat) (trees : List Tree) : Prop :=
  ∀ leaf ∈ leavesAll trees, Spelled limit leaf

namespace SpelledAll

theorem nil (limit : Nat) : SpelledAll limit [] := by
  rw [SpelledAll, leavesAll_nil]
  exact fun leaf member => absurd member List.not_mem_nil

theorem cons {first : Tree} {rest : List Tree} (here : ∀ leaf ∈ first.leaves, Spelled limit leaf)
    (others : SpelledAll limit rest) : SpelledAll limit (first :: rest) := by
  rw [SpelledAll, leavesAll_cons]
  exact fun leaf member => (List.mem_append.mp member).elim (here leaf) (others leaf)

theorem leaf {kind : TokenKind} {text : String} {rest : List Tree}
    (here : Spelled limit (kind, text)) (others : SpelledAll limit rest) :
    SpelledAll limit (.leaf kind text :: rest) :=
  cons (fun leaf member => by rwa [List.mem_singleton.mp member]) others

theorem append {front back : List Tree} (first : SpelledAll limit front)
    (second : SpelledAll limit back) : SpelledAll limit (front ++ back) := by
  rw [SpelledAll, leavesAll_append]
  exact fun leaf member => (List.mem_append.mp member).elim (first leaf) (second leaf)

theorem listed {elements : List Tree} (trailing : Bool)
    (spelled : ∀ element ∈ elements, ∀ leaf ∈ element.leaves, Spelled limit leaf) :
    SpelledAll limit (listed trailing elements) := by
  have mark : Spelled limit (.comma, ",") :=
    @spelled_mark limit ',' .comma rfl rfl fun _ => rfl
  induction elements with
  | nil => exact nil limit
  | cons first rest ih =>
    rw [Tree.listed]
    refine cons (spelled first List.mem_cons_self) ?_
    rcases listRest_cases trailing rest with ⟨-, last⟩ | more
    · rw [last]
      exact nil limit
    · rw [more]
      exact leaf mark (ih fun element member => spelled element (List.mem_cons_of_mem _ member))

theorem parenthesized {trees : List Tree} (inside : SpelledAll limit trees) :
    SpelledAll limit (parenthesized trees) :=
  leaf (@spelled_mark limit '(' .leftParen rfl rfl fun _ => rfl)
    (inside.append (leaf (@spelled_mark limit ')' .rightParen rfl rfl fun _ => rfl) (nil limit)))

theorem bracketed {trees : List Tree} (inside : SpelledAll limit trees) :
    SpelledAll limit (bracketed trees) :=
  leaf (@spelled_mark limit '[' .leftBracket rfl rfl fun _ => rfl)
    (inside.append (leaf (@spelled_mark limit ']' .rightBracket rfl rfl fun _ => rfl) (nil limit)))

end SpelledAll

/-- All tokens of a written expression are read as they are written. -/
theorem Expression.spelled {tree : Tree} (writable : Writable table limit)
    (expression : Expression table tree) : ∀ leaf ∈ tree.leaves, Spelled limit leaf := by
  induction expression with
  | literal closed => exact SpelledAll.leaf (spelled_literal closed) (.nil limit)
  | name free => exact SpelledAll.leaf (spelled_name free) (.nil limit)
  | paren within ih => exact SpelledAll.parenthesized (.cons ih (.nil limit))
  | tuple other within ih => exact SpelledAll.parenthesized (.listed _ ih)
  | array trailing within ih => exact SpelledAll.bracketed (.listed trailing ih)
  | call trailing operand first within base arguments =>
    exact SpelledAll.cons base (.cons (SpelledAll.parenthesized (.listed trailing arguments)) (.nil limit))
  | index operand first within base inner => exact SpelledAll.cons base (.bracketed (.cons inner (.nil limit)))
  | member operand first free base =>
    have point : Spelled limit (.dot, ".") :=
      spelled_operator rfl (by decide) (List.all_eq_true.mp (by decide)) (Nat.le_max_left 1 limit) rfl
    exact SpelledAll.cons base (.leaf point (.leaf (spelled_name free) (.nil limit)))
  | prefixed known tight within ih =>
    exact SpelledAll.leaf (writable.spelled (mem_operators_of_unaryPower known)) (.cons ih (.nil limit))
  | binary known loose tight first second left right =>
    exact SpelledAll.cons left (.leaf (writable.spelled (mem_operators_of_binaryPower known))
      (.cons right (.nil limit)))

theorem toList_printed {tree : Tree} {first : Leaf} {rest : List Leaf}
    (leaves : tree.leaves = first :: rest) :
    tree.printed.toList = first.2.toList ++ spacedChars rest := by
  rw [printed, leaves, String.toList_intercalate, List.map_cons, List.map_cons]
  clear leaves
  induction rest generalizing first with
  | nil => simp [spacedChars]
  | cons next rest ih =>
    rw [List.map_cons, List.map_cons, List.intercalate_cons_cons, ih]
    simp [spacedChars]

end LosslessSyntax
