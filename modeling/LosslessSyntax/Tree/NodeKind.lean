/-! # Kinds of nodes

The kinds of the inner nodes of a tree: statements and their parts, expressions, and types. Leaves
have token kinds instead.
-/

namespace LosslessSyntax

/-- The kind of an inner node. -/
inductive NodeKind where
  /-- The whole source file. -/
  | root
  /-- Tokens that fit no rule, or the place of a missing piece. -/
  | error
  | annotationUse
  | annotationArgs
  | usingStmt
  | usingPath
  | letStmt
  /-- A name with an optional type, in `let` and `for`. -/
  | binding
  | ifStmt
  | elseBranch
  | whileStmt
  | loopStmt
  | forStmt
  | breakStmt
  | continueStmt
  | returnStmt
  | functionDecl
  | paramList
  | param
  | returnList
  | packDecl
  | packBody
  | packMember
  | unionDecl
  | unionBody
  | unionMember
  | exprStmt
  | block
  | literal
  | nameRef
  | arrayExpr
  | tupleExpr
  | parenExpr
  | prefixExpr
  | binaryExpr
  | callExpr
  | argList
  | indexExpr
  | memberExpr
  | castExpr
  | namedType
  /-- A type after one of the words `auto`, `ref`, `mut` and `lazy`. -/
  | modifiedType
  | arrayType
  | funcType
  /-- Type arguments, and the parenthesised types of functions and union members. -/
  | typeList
deriving DecidableEq, Repr, Inhabited

namespace NodeKind

/-- Every kind, in the order of declaration. -/
def all : List NodeKind :=
  [.root, .error, .annotationUse, .annotationArgs, .usingStmt, .usingPath, .letStmt, .binding,
   .ifStmt, .elseBranch, .whileStmt, .loopStmt, .forStmt, .breakStmt, .continueStmt, .returnStmt,
   .functionDecl, .paramList, .param, .returnList, .packDecl, .packBody, .packMember, .unionDecl,
   .unionBody, .unionMember, .exprStmt, .block, .literal, .nameRef, .arrayExpr, .tupleExpr,
   .parenExpr, .prefixExpr, .binaryExpr, .callExpr, .argList, .indexExpr, .memberExpr, .castExpr,
   .namedType, .modifiedType, .arrayType, .funcType, .typeList]

/-- The name under which a kind is printed. -/
def name : NodeKind → String
  | .root => "Root"
  | .error => "Error"
  | .annotationUse => "Annotation"
  | .annotationArgs => "AnnotationArgs"
  | .usingStmt => "UsingStmt"
  | .usingPath => "UsingPath"
  | .letStmt => "LetStmt"
  | .binding => "Binding"
  | .ifStmt => "IfStmt"
  | .elseBranch => "ElseBranch"
  | .whileStmt => "WhileStmt"
  | .loopStmt => "LoopStmt"
  | .forStmt => "ForStmt"
  | .breakStmt => "BreakStmt"
  | .continueStmt => "ContinueStmt"
  | .returnStmt => "ReturnStmt"
  | .functionDecl => "FunctionDecl"
  | .paramList => "ParamList"
  | .param => "Param"
  | .returnList => "ReturnList"
  | .packDecl => "PackDecl"
  | .packBody => "PackBody"
  | .packMember => "PackMember"
  | .unionDecl => "UnionDecl"
  | .unionBody => "UnionBody"
  | .unionMember => "UnionMember"
  | .exprStmt => "ExprStmt"
  | .block => "Block"
  | .literal => "Literal"
  | .nameRef => "NameRef"
  | .arrayExpr => "ArrayExpr"
  | .tupleExpr => "TupleExpr"
  | .parenExpr => "ParenExpr"
  | .prefixExpr => "PrefixExpr"
  | .binaryExpr => "BinaryExpr"
  | .callExpr => "CallExpr"
  | .argList => "ArgList"
  | .indexExpr => "IndexExpr"
  | .memberExpr => "MemberExpr"
  | .castExpr => "CastExpr"
  | .namedType => "NamedType"
  | .modifiedType => "ModifiedType"
  | .arrayType => "ArrayType"
  | .funcType => "FuncType"
  | .typeList => "TypeList"

/-- The kind that is printed under a name. -/
def ofName? (name : String) : Option NodeKind := all.find? fun kind => kind.name == name

/-- Whole statements. -/
def isStatement : NodeKind → Bool
  | .usingStmt | .letStmt | .ifStmt | .whileStmt | .loopStmt | .forStmt | .breakStmt
  | .continueStmt | .returnStmt | .functionDecl | .packDecl | .unionDecl | .exprStmt => true
  | _ => false

/-- Whole expressions. -/
def isExpression : NodeKind → Bool
  | .literal | .nameRef | .arrayExpr | .tupleExpr | .parenExpr | .prefixExpr | .binaryExpr
  | .callExpr | .indexExpr | .memberExpr | .castExpr => true
  | _ => false

end NodeKind

end LosslessSyntax
