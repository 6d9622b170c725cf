import LosslessSyntax.Grammar.Construct
import Mathlib.Computability.Language
import Mathlib.Order.CompletePartialOrder

/-! # The productions of the grammar

What the children of a node may be is a language over symbols, one for each kind of node
(`production`). A symbol is a node of a kind or a token; whitespace and comments are not among them.
The languages are written as regular expressions, with the operators taken from a table, and say
nothing of how a parse finds out which production applies. Statements and members have to be kept
apart from each other, by a token or by a line break (`separation?`).
-/

namespace LosslessSyntax

open scoped Computability

/-- What a production sees of a tree. -/
inductive Symbol where
  /-- A node, whatever is below it. -/
  | node (kind : NodeKind)
  /-- A token. -/
  | token (kind : TokenKind) (text : String)
deriving DecidableEq

namespace Production

/-- A node of one of some kinds. -/
def node (kinds : List NodeKind) : Language Symbol := {word | ∃ kind ∈ kinds, word = [.node kind]}

/-- A token of a kind. -/
def token (kind : TokenKind) : Language Symbol := {word | ∃ text, word = [.token kind text]}

/-- A token of one of some kinds. -/
def tokenOf (kinds : KindSet) : Language Symbol :=
  {word | ∃ kind text, kinds.contains kind = true ∧ word = [.token kind text]}

/-- An operator of which the text passes a test. -/
def operator (known : String → Bool) : Language Symbol :=
  {word | ∃ text, known text = true ∧ word = [.token .symbol text]}

/-- Words that may be left out. -/
def optional (words : Language Symbol) : Language Symbol := 1 + words

/-- Elements with single commas between them and perhaps one after the last. -/
def commaSeparated (element : Language Symbol) : Language Symbol :=
  optional (element * (token .comma * element)∗ * optional (token .comma))

/-- Words between parentheses. -/
def parenthesized (words : Language Symbol) : Language Symbol :=
  token .leftParen * words * token .rightParen

/-- Words between square brackets. -/
def bracketed (words : Language Symbol) : Language Symbol :=
  token .leftBracket * words * token .rightBracket

/-- Words between braces. -/
def braced (words : Language Symbol) : Language Symbol :=
  token .leftBrace * words * token .rightBrace

/-- Tokens in which parentheses match. -/
inductive Balanced : List Symbol → Prop where
  | nil : Balanced []
  | other {kind : TokenKind} {text : String} {rest : List Symbol} (inner : kind ≠ .leftParen)
      (outer : kind ≠ .rightParen) (balanced : Balanced rest) :
      Balanced (.token kind text :: rest)
  | group {opening closing : String} {inside rest : List Symbol} (balanced : Balanced inside)
      (after : Balanced rest) :
      Balanced (.token .leftParen opening :: inside ++ .token .rightParen closing :: rest)

/-- The words of tokens in which parentheses match. -/
def balanced : Language Symbol := {word | Balanced word}

/-- Operands, to which calls, indexing, member access and casts may be applied. -/
def operandKinds : List NodeKind :=
  [.literal, .nameRef, .arrayExpr, .tupleExpr, .parenExpr, .callExpr, .indexExpr, .memberExpr,
   .castExpr]

/-- Expressions. -/
def expressionKinds : List NodeKind := .prefixExpr :: .binaryExpr :: operandKinds

/-- Types to which brackets may be applied. -/
def elementTypeKinds : List NodeKind := [.namedType, .funcType, .arrayType]

/-- Types. -/
def typeKinds : List NodeKind := .modifiedType :: elementTypeKinds

/-- Statements. -/
def statementKinds : List NodeKind :=
  [.usingStmt, .letStmt, .ifStmt, .whileStmt, .loopStmt, .forStmt, .breakStmt, .continueStmt,
   .returnStmt, .functionDecl, .packDecl, .unionDecl, .exprStmt]

/-- An expression. -/
def expression : Language Symbol := node expressionKinds

/-- A type. -/
def type : Language Symbol := node typeKinds

/-- Statements and semicolons. -/
def statements : Language Symbol := (token .semicolon + node statementKinds)∗

/-- A word of the language that begins a statement of its own, after its annotations. -/
def annotated (keyword : TokenKind) (rest : Language Symbol) : Language Symbol :=
  (node [.annotationUse])∗ * (token keyword * rest)

/-- A block. -/
def block : Language Symbol := node [.block]

/-- A colon and a type. -/
def typeAnnotation : Language Symbol := token .colon * type

/-- Members of a declaration, each perhaps with a comma after it. -/
def members (kind : NodeKind) : Language Symbol := (node [kind] * optional (token .comma))∗

/-- What the children of a node of a kind may be. No error node is derived. -/
def production (table : OperatorTable) : NodeKind → Language Symbol
  | .root => statements
  | .error => 0
  | .annotationUse => token .annotationMark * optional (node [.annotationArgs])
  | .annotationArgs => parenthesized balanced
  | .usingStmt => annotated .usingWord (node [.usingPath])
  | .usingPath => token .ident * (token .dot * token .ident)∗
  | .letStmt => annotated .letWord (node [.binding] * (operator (· == "=") * expression))
  | .binding => token .ident * optional typeAnnotation
  | .ifStmt => annotated .ifWord (expression * (block * optional (node [.elseBranch])))
  | .elseBranch => token .elseWord * (block + node [.ifStmt])
  | .whileStmt => annotated .whileWord (expression * block)
  | .loopStmt => annotated .loopWord block
  | .forStmt => annotated .forWord (node [.binding] * (token .inWord * (expression * block)))
  | .breakStmt => annotated .breakWord 1
  | .continueStmt => annotated .continueWord 1
  | .returnStmt => annotated .returnWord 1
  | .functionDecl =>
    annotated .functionWord
      (token .ident * (node [.paramList] * (optional (node [.returnList]) * block)))
  | .paramList => parenthesized (commaSeparated (node [.param]))
  | .param => token .ident * optional typeAnnotation
  | .returnList => token .arrow * node [.paramList]
  | .packDecl => annotated .packWord (token .ident * node [.packBody])
  | .packBody => braced (members .packMember)
  | .packMember => token .ident * typeAnnotation
  | .unionDecl => annotated .unionWord (token .ident * node [.unionBody])
  | .unionBody => braced (members .unionMember)
  | .unionMember => token .ident * optional (node [.typeList])
  | .exprStmt => (node [.annotationUse])∗ * expression
  | .block => braced statements
  | .literal => tokenOf Grammar.literalKinds
  | .nameRef => token .ident
  | .arrayExpr => bracketed (commaSeparated expression)
  | .tupleExpr =>
    parenthesized (optional (expression * (token .comma * commaSeparated expression)))
  | .parenExpr => parenthesized expression
  | .prefixExpr => operator (fun text => (table.unaryPower? text).isSome) * expression
  | .binaryExpr =>
    expression * (operator (fun text => (table.binaryPower? text).isSome) * expression)
  | .callExpr => node operandKinds * node [.argList]
  | .argList => parenthesized (commaSeparated expression)
  | .indexExpr => node operandKinds * bracketed expression
  | .memberExpr => node operandKinds * (token .dot * token .ident)
  | .castExpr => node operandKinds * (token .asWord * type)
  | .namedType => token .baseType + token .ident * optional (node [.typeList])
  | .modifiedType => tokenOf Grammar.modifierKinds * type
  | .arrayType => node elementTypeKinds * bracketed (optional expression)
  | .funcType =>
    token .funcWord * (node [.typeList] * optional (token .arrow * (node [.typeList] + type)))
  | .typeList =>
    parenthesized (commaSeparated type) +
      operator (· == "<") * commaSeparated type * operator (· == ">")

/-- Which of its children a node keeps apart from each other, and the token that does so where no
line break does. -/
def separation? : NodeKind → Option (List NodeKind × TokenKind)
  | .root | .block => some (statementKinds, .semicolon)
  | .packBody => some ([.packMember], .comma)
  | .unionBody => some ([.unionMember], .comma)
  | _ => none

end Production

end LosslessSyntax
