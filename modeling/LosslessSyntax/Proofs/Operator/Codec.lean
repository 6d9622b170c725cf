import Mathlib.Data.List.Forall2
import LosslessSyntax.Operator.TableJson
import LosslessSyntax.Proofs.Json.Grammar

/-! # What a library for tables has to do

A library knows the shape of a table: a record of two maps, whose values are records and numbers. The
members of a record may come in any order, and a map is left out where it has no entries. A library
reads a table from every JSON text of this shape, and writes one of them (`TableCodec.Lawful`). Nothing
is said about texts of another shape, nor about the operators.
-/

namespace LosslessSyntax

namespace Json

/-- Values that describe a precedence. -/
inductive IsPrecedence : Json → UInt8 → Prop where
  | number (precedence : UInt8) : IsPrecedence (.number precedence.toNat) precedence

/-- Values that describe what is known about a binary operator: both members, in any order. -/
inductive IsInfo : Json → OperatorInfo → Prop where
  | object {members : List (String × Json)} {info : OperatorInfo} :
      members.Perm [("precedence", .number info.precedence.toNat),
        ("associativity", .string info.associativity.name)] → IsInfo (.object members) info

variable {α : Type}

/-- Values that describe a map from operators: of a repeated operator the last member counts. -/
inductive IsMap (isValue : Json → α → Prop) : Json → OperatorMap α → Prop where
  | object {members : List (String × Json)} {entries : List (String × α)} :
      List.Forall₂ (fun member entry => member.1 = entry.1 ∧ isValue member.2 entry.2)
        members entries → IsMap isValue (.object members) (.ofList entries)

/-- A member of a record that holds a map, which is empty where the member is missing. -/
inductive IsField (name : String) (isValue : Json → α → Prop) :
    List (String × Json) → OperatorMap α → Prop where
  | given {value : Json} {map : OperatorMap α} : IsMap isValue value map →
      IsField name isValue [(name, value)] map
  | missing : IsField name isValue [] .empty

/-- Values that describe a table: its members, in any order. -/
inductive IsTable : Json → OperatorTable → Prop where
  | object {members front back : List (String × Json)} {table : OperatorTable} :
      IsField "binary" IsInfo front table.binary → IsField "prefix" IsPrecedence back table.unary →
      members.Perm (front ++ back) → IsTable (.object members) table

end Json

/-- A library reads tables from the JSON texts that describe them, and writes such texts. -/
structure TableCodec.Lawful (codec : TableCodec) : Prop where
  /-- A table is written as a text for the record of its maps. -/
  encodes (table : OperatorTable) :
    ∃ text, codec.encode table = .ok text ∧ Json.SpellsElement table.json text.toList
  /-- A text for a value that describes a table is read as this table. -/
  decodes {text : String} {value : Json} {table : OperatorTable} :
    Json.SpellsElement value text.toList → Json.IsTable value table → codec.decode text = .ok table

namespace OperatorMap

variable {α : Type}

theorem eq_of_entries {first second : OperatorMap α} (same : first.entries = second.entries) :
    first = second := by
  cases first
  cases second
  cases same
  rfl

/-- An operator behind all others is set at the end. -/
theorem insertEntry_of_last {operator : String} {value : α} {entries : List (String × α)}
    (last : ∀ entry ∈ entries, entry.1 < operator) :
    insertEntry operator value entries = entries ++ [(operator, value)] := by
  induction entries with
  | nil => rfl
  | cons first rest ih =>
    obtain ⟨less, last⟩ := List.forall_mem_cons.mp last
    have different : operator ≠ first.1 := fun same => String.lt_irrefl _ (same ▸ less)
    rw [insertEntry, if_neg (String.lt_asymm less), if_neg different, ih last, List.cons_append]

/-- Setting operators that go on in order appends their entries. -/
theorem entries_foldl_insert {map : OperatorMap α} {rest : List (String × α)}
    (sorted : (map.entries ++ rest).Pairwise fun first second => first.1 < second.1) :
    (rest.foldl (fun map entry => map.insert entry.1 entry.2) map).entries =
      map.entries ++ rest := by
  induction rest generalizing map with
  | nil => exact (List.append_nil _).symm
  | cons entry rest ih =>
    have last : (map.insert entry.1 entry.2).entries = map.entries ++ [entry] :=
      insertEntry_of_last fun other member =>
        (List.pairwise_append.mp sorted).2.2 other member entry List.mem_cons_self
    rw [List.append_cons, ← last] at sorted ⊢
    exact ih sorted

/-- A map is the map of its entries. -/
theorem ofList_entries (map : OperatorMap α) : ofList map.entries = map :=
  eq_of_entries (entries_foldl_insert map.sorted)

end OperatorMap

/-- The members for the entries of a map describe the map. -/
theorem Json.isMap_entries {α : Type} {isValue : Json → α → Prop} {written : α → Json}
    (describes : ∀ value, isValue (written value) value) (map : OperatorMap α) :
    IsMap isValue (.object (map.entries.map fun entry => (entry.1, written entry.2))) map := by
  have each : List.Forall₂ (fun member entry => member.1 = entry.1 ∧ isValue member.2 entry.2)
      (map.entries.map fun entry => (entry.1, written entry.2)) map.entries :=
    List.forall₂_map_left_iff.mpr (List.forall₂_same.mpr fun entry _ => ⟨rfl, describes entry.2⟩)
  have whole := IsMap.object each
  rwa [map.ofList_entries] at whole

/-- What is written for a table describes it. -/
theorem Json.isTable_json (table : OperatorTable) : IsTable table.json table :=
  .object (.given (isMap_entries (fun _ => .object (.refl _)) table.binary))
    (.given (isMap_entries (fun precedence => .number precedence) table.unary)) (.refl _)

end LosslessSyntax
