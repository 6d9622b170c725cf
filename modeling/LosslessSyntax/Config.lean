import LosslessSyntax.Operator.Table

/-! # Configurations

What a parse depends on besides the text. A tree may be reused after an edit only if it was parsed
with the same configuration, so configurations have decidable equality.
-/

namespace LosslessSyntax

/-- Options of a parse. -/
structure Config where
  /-- The greatest number of characters of one operator; less than one counts as one. -/
  operatorLimit : Nat
  /-- The operators of expressions. -/
  operators : OperatorTable
  /-- How deeply blocks, expressions and types may nest; what is deeper is skipped. -/
  maxDepth : Nat
deriving DecidableEq, Inhabited

namespace Config

/-- The nesting that is allowed where nothing else is asked for. -/
def standardDepth : Nat := 64

/-- The length of operators that is allowed where nothing else is asked for. -/
def standardOperatorLimit : Nat := 3

/-- The options that are used where no others are given. -/
def standard : Config := ⟨standardOperatorLimit, .standard, standardDepth⟩

end Config

end LosslessSyntax
