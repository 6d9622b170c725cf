/-! # Tables of code point ranges

A Unicode property is stored as the list of the ranges of code points that have it.
-/

namespace LosslessSyntax.Unicode

/-- A set of characters, as ranges of code points with both ends included. -/
abbrev RangeTable := List (Nat × Nat)

/-- Whether some range of the table holds the character. -/
def RangeTable.covers (table : RangeTable) (c : Char) : Bool :=
  table.any fun range => range.1 ≤ c.toNat && c.toNat ≤ range.2

end LosslessSyntax.Unicode
