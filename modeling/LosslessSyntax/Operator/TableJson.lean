import LosslessSyntax.Json.Printer
import LosslessSyntax.Json.Reader
import LosslessSyntax.Operator.Codec

/-! # Operator tables in JSON

A table is written as an object with the members `binary` and `prefix`, each an object that maps
operators to what is known about them. Reading accepts more: either member may be missing, unknown
members are passed over, and a record may be given as the list of its members in order. A member of
a record may not be repeated, while of a repeated operator the last value counts.
-/

namespace LosslessSyntax

namespace ReadJson

/-- The members of an object; `none` if a key is no Unicode text. -/
def members? (members : List (Option String × ReadJson)) : Option (List (String × ReadJson)) :=
  members.mapM fun member => member.1.map (·, member.2)

/-- The value of a member of a record: `some none` if it is missing, `none` if it is repeated. -/
def field? (name : String) (members : List (String × ReadJson)) : Option (Option ReadJson) :=
  match members.filter (·.1 == name) with
  | [] => some none
  | [member] => some (some member.2)
  | _ => none

/-- A natural number below 256, written with digits only. -/
def toByte? : ReadJson → Option UInt8
  | .number digits =>
    if digits.all Char.isDigit then
      let value := Nat.ofDigitChars 10 digits 0
      if value < 256 then some (UInt8.ofNat value) else none
    else none
  | _ => none

/-- An associativity: its name, or an object with its name as the only key and no value. -/
def toAssociativity? : ReadJson → Option Associativity
  | .string (some name) => Associativity.ofName? name
  | .object [(some name, .null)] => Associativity.ofName? name
  | _ => none

/-- What is known about a binary operator. -/
def toInfo? : ReadJson → Option OperatorInfo
  | .array [precedence, associativity] => do
    some ⟨← precedence.toByte?, ← associativity.toAssociativity?⟩
  | .object members => do
    let members ← members? members
    let precedence ← (← field? "precedence" members)
    let associativity ← (← field? "associativity" members)
    some ⟨← precedence.toByte?, ← associativity.toAssociativity?⟩
  | _ => none

/-- A map from operators. -/
def toMap? {α : Type} (value? : ReadJson → Option α) : ReadJson → Option (OperatorMap α)
  | .object members => do
    let members ← members? members
    let entries ← members.mapM fun member => (value? member.2).map (member.1, ·)
    some (.ofList entries)
  | _ => none

/-- A map from operators, empty where it is missing. -/
def toMapOrEmpty? {α : Type} (value? : ReadJson → Option α) :
    Option ReadJson → Option (OperatorMap α)
  | none => some .empty
  | some value => value.toMap? value?

/-- A table, whatever its operators. -/
def toTable? : ReadJson → Option OperatorTable
  | .array [] => some .empty
  | .array [binary] => do some ⟨← binary.toMap? toInfo?, .empty⟩
  | .array [binary, unary] => do some ⟨← binary.toMap? toInfo?, ← unary.toMap? toByte?⟩
  | .object members => do
    let members ← members? members
    let binary ← field? "binary" members
    let unary ← field? "prefix" members
    some ⟨← toMapOrEmpty? toInfo? binary, ← toMapOrEmpty? toByte? unary⟩
  | _ => none

end ReadJson

namespace OperatorTable

/-- What is known about a binary operator, in JSON. -/
def infoJson (info : OperatorInfo) : Json :=
  .object [("precedence", .number info.precedence.toNat),
    ("associativity", .string info.associativity.name)]

/-- A table, in JSON. -/
def json (table : OperatorTable) : Json :=
  .object [
    ("binary", .object (table.binary.entries.map fun entry => (entry.1, infoJson entry.2))),
    ("prefix", .object (table.unary.entries.map fun entry => (entry.1, .number entry.2.toNat)))]

end OperatorTable

/-- Tables are read and written as JSON by what is defined here. -/
def TableCodec.json : TableCodec where
  decode text :=
    match (ReadJson.ofText? text).bind ReadJson.toTable? with
    | none => .error "malformed precedence table"
    | some table => .ok table
  encode table := .ok table.json.write

end LosslessSyntax
