import LosslessSyntax.Operator.Table

/-! # Operator tables as texts

Tables are kept as JSON texts. A library reads and writes them; it knows what a table consists of, and
nothing about operators. So a table that it has read is checked before it is used.
-/

namespace LosslessSyntax

/-- A library that reads and writes tables as JSON texts. -/
structure TableCodec where
  /-- The table that a text describes, or what is wrong with the text. -/
  decode : String → Except String OperatorTable
  /-- The text of a table, or what is wrong with the table. -/
  encode : OperatorTable → Except String String

namespace OperatorTable

/-- The table that a text describes, if its operators can be used. -/
def ofJson (codec : TableCodec) (text : String) : Except Failure OperatorTable :=
  match codec.decode text with
  | .error reason => .error (.configuration (.malformed reason))
  | .ok table =>
    match table.fault? with
    | some fault => .error (.configuration fault)
    | none => .ok table

/-- The JSON text of a table. -/
def toJson (codec : TableCodec) (table : OperatorTable) : Except Failure String :=
  (codec.encode table).mapError fun reason => .configuration (.malformed reason)

end OperatorTable

end LosslessSyntax
