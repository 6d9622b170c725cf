import LosslessSyntax.Text.Quoted

/-! # Failures

A malformed source text is never a failure: it is parsed all the same and its problems are reported
as diagnostics. What can fail is an edit that does not fit the text, a parse that is cancelled, and
a configuration that cannot be used.
-/

namespace LosslessSyntax

/-- Why an operator table is refused. -/
inductive TableFault where
  /-- An operator that is empty or holds other than operator characters. -/
  | operatorCharacters (operator : String)
  /-- An operator that the language reserves. -/
  | reservedSymbol (operator : String)
  /-- A text that is not the JSON of a table, or a table without a text, as a library words it. -/
  | malformed (reason : String)
deriving DecidableEq, Repr, Inhabited

/-- Why an operation is refused. -/
inductive Failure where
  /-- An edit that reaches past the end of a text of the given length. -/
  | editOutOfBounds (offset stop length : Nat)
  /-- An edit with an end inside a character. -/
  | notCharBoundary (offset : Nat)
  /-- A parse that was stopped from outside. -/
  | cancelled
  /-- A configuration with a table that cannot be used. -/
  | configuration (fault : TableFault)
deriving DecidableEq, Repr, Inhabited

/-- What is said about a refused table. -/
def TableFault.message : TableFault → String
  | .operatorCharacters operator =>
    "operator " ++ Text.quote operator ++ " must consist of operator characters"
  | .reservedSymbol operator => "operator " ++ Text.quote operator ++ " is a reserved symbol"
  | .malformed reason => reason

/-- What is said about a refused operation. -/
def Failure.message : Failure → String
  | .editOutOfBounds offset stop length =>
    s!"edit {offset}..{stop} is outside the text (length {length})"
  | .notCharBoundary offset => s!"offset {offset} is not on a character boundary"
  | .cancelled => "parse cancelled"
  | .configuration fault => "invalid configuration: " ++ fault.message

end LosslessSyntax
