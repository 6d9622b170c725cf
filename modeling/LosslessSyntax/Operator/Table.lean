import LosslessSyntax.Failure
import LosslessSyntax.Operator.Map
import LosslessSyntax.Scanner.CharClass

/-! # Operator tables

The grammar knows no operator by itself. A table says which runs of operator characters are binary
operators, how tightly each binds and to which side it groups, and which are prefix operators. From
precedence and associativity follow the binding powers with which expressions are parsed: a binary
operator continues an operand if its left power reaches the power that is asked for, and its right
operand is parsed with its right power.
-/

namespace LosslessSyntax

/-- The side to which equal operators group. -/
inductive Associativity where
  | left
  | right
deriving DecidableEq, Repr, Inhabited

/-- The written name of an associativity. -/
def Associativity.name : Associativity → String
  | .left => "left"
  | .right => "right"

/-- The associativity with a written name. -/
def Associativity.ofName? (name : String) : Option Associativity :=
  if name == "left" then some .left else if name == "right" then some .right else none

/-- What a table knows about a binary operator. -/
structure OperatorInfo where
  /-- Operators of higher precedence bind tighter. -/
  precedence : UInt8
  associativity : Associativity
deriving DecidableEq, Repr, Inhabited

/-- The powers with which a binary operator holds its operands. -/
structure BindingPower where
  left : Nat
  right : Nat
deriving DecidableEq, Repr

namespace BindingPower

/-- The powers of a precedence leave room for one in between, for the side that holds tighter. -/
def base (precedence : UInt8) : Nat := (precedence.toNat + 1) * 2

/-- An operator that groups to the left holds its right operand tighter. -/
def leftAssociative (precedence : UInt8) : BindingPower := ⟨base precedence, base precedence + 1⟩

/-- An operator that groups to the right holds its left operand tighter. -/
def rightAssociative (precedence : UInt8) : BindingPower := ⟨base precedence + 1, base precedence⟩

end BindingPower

/-- The powers of a binary operator. -/
def OperatorInfo.power (info : OperatorInfo) : BindingPower :=
  match info.associativity with
  | .left => .leftAssociative info.precedence
  | .right => .rightAssociative info.precedence

/-- The binary and the prefix operators of expressions. -/
structure OperatorTable where
  binary : OperatorMap OperatorInfo
  unary : OperatorMap UInt8
deriving DecidableEq, Inhabited

namespace OperatorTable

/-- The table without operators. -/
def empty : OperatorTable := ⟨.empty, .empty⟩

/-- The table with a binary operator set. -/
def insertBinary (operator : String) (info : OperatorInfo) (table : OperatorTable) :
    OperatorTable :=
  { table with binary := table.binary.insert operator info }

/-- The table with a prefix operator set. -/
def insertUnary (operator : String) (precedence : UInt8) (table : OperatorTable) :
    OperatorTable :=
  { table with unary := table.unary.insert operator precedence }

/-- The powers of a binary operator. -/
def binaryPower? (table : OperatorTable) (operator : String) : Option BindingPower :=
  (table.binary.find? operator).map OperatorInfo.power

/-- The power with which a prefix operator holds its operand. -/
def unaryPower? (table : OperatorTable) (operator : String) : Option Nat :=
  (table.unary.find? operator).map BindingPower.base

/-- The characters that operators consist of. -/
def characters : List Char :=
  ['.', ':', '~', '+', '-', '>', '<', '?', '/', '=', '^', '&', '|', '*', '!', '%']

/-- A table and the scanner agree on the characters of operators. -/
theorem mem_characters_iff {c : Char} : c ∈ characters ↔ CharClass.isOperator c = true :=
  List.contains_iff_mem.symm

/-- What is wrong with an operator. -/
def operatorFault? (operator : String) : Option TableFault :=
  if operator.isEmpty || !operator.toList.all characters.contains then
    some (.operatorCharacters operator)
  else if (TokenKind.ofReservedSymbol? operator).isSome then some (.reservedSymbol operator)
  else none

/-- An operator is fine if it consists of the characters of operators and is not reserved. -/
theorem operatorFault?_eq_none_iff {operator : String} :
    operatorFault? operator = none ↔
      operator.toList ≠ [] ∧ (∀ c ∈ operator.toList, c ∈ characters) ∧
        TokenKind.ofReservedSymbol? operator = none := by
  have some_iff : operator.isEmpty = false ↔ operator.toList ≠ [] := by
    rw [← Bool.not_eq_true, String.isEmpty_iff, ne_eq, String.toList_eq_nil_iff]
  have all_iff : operator.toList.all characters.contains = true ↔
      ∀ c ∈ operator.toList, c ∈ characters := by
    simp only [List.all_eq_true, List.contains_iff_mem]
  rw [← some_iff, ← all_iff, operatorFault?]
  cases operator.isEmpty <;> cases operator.toList.all characters.contains <;>
    cases TokenKind.ofReservedSymbol? operator <;> simp

/-- What is wrong with the first faulty operator, binary ones first. -/
def fault? (table : OperatorTable) : Option TableFault :=
  (table.binary.operators ++ table.unary.operators).findSome? operatorFault?

theorem fault?_eq_none_iff {table : OperatorTable} :
    table.fault? = none ↔
      ∀ operator ∈ table.binary.operators ++ table.unary.operators, operatorFault? operator = none :=
  List.findSome?_eq_none_iff

/-- The binary operators of a level of precedence. -/
def level (precedence : UInt8) (associativity : Associativity) (operators : List String) :
    List (String × OperatorInfo) :=
  operators.map fun operator => (operator, ⟨precedence, associativity⟩)

/-- The table that is used where no other is given. -/
def standard : OperatorTable where
  binary := .ofList <|
    level 1 .right ["=", "+=", "-=", "*=", "/=", "%="] ++
    level 10 .left ["||", "&&"] ++
    level 20 .left ["==", "!="] ++
    level 30 .left ["<", ">", "<=", ">="] ++
    level 35 .left [".."] ++
    level 40 .left ["+", "-"] ++
    level 50 .left ["*", "/", "%"]
  unary := .ofList [("-", 60), ("!", 60), ("~", 60)]

end OperatorTable

end LosslessSyntax
