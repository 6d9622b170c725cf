import LosslessSyntax.Proofs.Derivation.Operation
import LosslessSyntax.Proofs.Derivation.Production
import LosslessSyntax.Proofs.Scanner.Lexeme

/-! # Written expressions

`Expression` says which trees are expressions that can be written down without casts: literals that
are closed, names, and the forms that the grammar makes of them, where every operator holds its
operands as the powers of the table demand. Writing an expression down is writing its tokens with
single spaces between them (`Tree.printed`).
-/

namespace LosslessSyntax

open CharClass

/-- Digits, at least one. -/
structure Digits (digits : List Char) : Prop where
  some : digits ≠ []
  all : ∀ c ∈ digits, c.isDigit = true

theorem Digits.exists_cons {digits : List Char} (number : Digits digits) :
    ∃ c more, digits = c :: more ∧ c.isDigit = true := by
  obtain ⟨c, more, rfl⟩ := List.exists_cons_of_ne_nil number.some
  exact ⟨c, more, rfl, number.all c List.mem_cons_self⟩

/-- The kinds and texts of literals. -/
inductive Literal : TokenKind → String → Prop where
  | whole {digits : List Char} (number : Digits digits) :
      Literal .number (String.ofList digits)
  | decimal {digits fraction : List Char} (number : Digits digits) (behind : Digits fraction) :
      Literal .number (String.ofList (digits ++ '.' :: fraction))
  | string {quote : Char} {body : List Char} (delimits : isQuote quote = true)
      (closed : Quoted quote body) :
      Literal (Lexeme.stringKind quote) (String.ofList (quote :: body))
  | affirmed : Literal .trueWord "true"
  | denied : Literal .falseWord "false"

/-- The texts of names: words that the language does not reserve. -/
structure Name (text : String) : Prop where
  first : text.toList.head?.any isWordStart = true
  rest : ∀ c ∈ text.toList, isWordPart c = true
  free : TokenKind.ofKeyword? text = none

namespace Tree

/-- A comma. -/
def comma : Tree := .leaf .comma ","

/-- What follows the first element of a list: the others, each after a comma, and perhaps one more
comma. -/
def listRest (trailing : Bool) : List Tree → List Tree
  | [] => if trailing then [comma] else []
  | next :: rest => comma :: next :: listRest trailing rest

/-- Elements with single commas between them, and perhaps one after the last. -/
def listed (trailing : Bool) : List Tree → List Tree
  | [] => []
  | first :: rest => first :: listRest trailing rest

/-- After an element, either nothing follows or a comma and a list. -/
theorem listRest_cases (trailing : Bool) (rest : List Tree) :
    (rest = [] ∧ listRest trailing rest = []) ∨
      listRest trailing rest = comma :: listed trailing rest := by
  cases rest with
  | nil => cases trailing <;> simp [listRest, listed]
  | cons next rest => exact .inr (by rw [listRest, listed])

/-- Whether a tree is an operand, to which calls, indexing and member access may be applied. -/
def isOperand (tree : Tree) : Bool := tree.nodeKind?.any fun kind => kind ∈ Production.operandKinds

/-- Trees between parentheses. -/
def parenthesized (trees : List Tree) : List Tree :=
  .leaf .leftParen "(" :: (trees ++ [.leaf .rightParen ")"])

/-- Trees between square brackets. -/
def bracketed (trees : List Tree) : List Tree :=
  .leaf .leftBracket "[" :: (trees ++ [.leaf .rightBracket "]"])

/-- The tokens of a tree with single spaces between them. -/
def printed (tree : Tree) : String := " ".intercalate (tree.leaves.map (·.2))

end Tree

open LosslessSyntax.Tree

/-- Trees of expressions without whitespace. -/
inductive Expression (table : OperatorTable) : Tree → Prop where
  | literal {kind : TokenKind} {text : String} (closed : Literal kind text) :
      Expression table (.node .literal [.leaf kind text])
  | name {text : String} (free : Name text) : Expression table (.node .nameRef [.leaf .ident text])
  | paren {inner : Tree} (within : Expression table inner) :
      Expression table (.node .parenExpr (parenthesized [inner]))
  | tuple {elements : List Tree} {trailing : Bool} (other : elements.length = 1 → trailing = true)
      (within : ∀ element ∈ elements, Expression table element) :
      Expression table (.node .tupleExpr (parenthesized (listed trailing elements)))
  | array {elements : List Tree} (trailing : Bool)
      (within : ∀ element ∈ elements, Expression table element) :
      Expression table (.node .arrayExpr (bracketed (listed trailing elements)))
  | call {callee : Tree} {arguments : List Tree} (trailing : Bool)
      (operand : callee.isOperand = true) (first : Expression table callee)
      (within : ∀ argument ∈ arguments, Expression table argument) :
      Expression table
        (.node .callExpr [callee, .node .argList (parenthesized (listed trailing arguments))])
  | index {base inner : Tree} (operand : base.isOperand = true) (first : Expression table base)
      (within : Expression table inner) :
      Expression table (.node .indexExpr (base :: bracketed [inner]))
  | member {base : Tree} {text : String} (operand : base.isOperand = true)
      (first : Expression table base) (free : Name text) :
      Expression table (.node .memberExpr [base, .leaf .dot ".", .leaf .ident text])
  | prefixed {operator : String} {operand : Tree} {power : Nat}
      (known : table.unaryPower? operator = some power)
      (tight : ∀ inner ∈ operand.leftPowers table, power ≤ inner)
      (within : Expression table operand) :
      Expression table (.node .prefixExpr [.leaf .symbol operator, operand])
  | binary {left right : Tree} {operator : String} {power : BindingPower}
      (known : table.binaryPower? operator = some power)
      (loose : ∀ inner ∈ left.rightPowers table, power.left < inner)
      (tight : ∀ inner ∈ right.leftPowers table, power.right ≤ inner)
      (first : Expression table left) (second : Expression table right) :
      Expression table (.node .binaryExpr [left, .leaf .symbol operator, right])

end LosslessSyntax
