import LosslessSyntax.Proofs.Json.ReadBack
import LosslessSyntax.Proofs.Operator.Codec

/-! # Tables are kept by their JSON texts

A text gives a table only if the library reads one from it that passes the check for tables
(`OperatorTable.ofJson_eq_ok_iff`). With a library that does what it has to
(`TableCodec.lawful_json` is one), a table that passes the check is read from its text as it is, and
writing and reading do not change a text that was written (`OperatorTable.json_round_trip`).
-/

namespace LosslessSyntax

open Json (IsPrecedence IsInfo IsMap IsField IsTable)

namespace ReadJson

theorem members?_readBack (members : List (String × Json)) :
    members? (Json.readBackMembers members) =
      some (members.map fun member => (member.1, member.2.readBack)) := by
  rw [members?, Json.readBackMembers_eq, List.mapM_map]
  exact List.mapM_pure

/-- The order of the members makes no difference. -/
theorem field?_perm {members members' : List (String × ReadJson)} (same : members.Perm members')
    (name : String) : field? name members = field? name members' := by
  have filtered := same.filter (·.1 == name)
  rw [field?, field?]
  generalize members'.filter (·.1 == name) = found' at filtered ⊢
  generalize members.filter (·.1 == name) = found at filtered ⊢
  rcases found' with _ | ⟨first, _ | ⟨second, more⟩⟩
  · rw [filtered.eq_nil]
  · rw [filtered.eq_singleton]
  · have length := filtered.length_eq
    rcases found with _ | ⟨_, _ | ⟨_, _⟩⟩
    · exact absurd length (by simp)
    · exact absurd length (by simp)
    · rfl

theorem toByte?_of_isPrecedence {value : Json} {precedence : UInt8}
    (describes : IsPrecedence value precedence) : value.readBack.toByte? = some precedence := by
  obtain ⟨⟩ := describes
  have digits : (Nat.toDigits 10 precedence.toNat).all Char.isDigit = true :=
    List.all_eq_true.mpr fun c member => Nat.isDigit_of_mem_toDigits (by decide) (by decide) member
  rw [Json.readBack, toByte?, if_pos digits, Nat.ofDigitChars_ten_toDigits]
  simp only [if_pos precedence.toNat_lt, UInt8.ofNat_toNat]

theorem toAssociativity?_readBack (associativity : Associativity) :
    (Json.string associativity.name).readBack.toAssociativity? = some associativity := by
  rw [Json.readBack]
  cases associativity <;> rfl

theorem toInfo?_of_isInfo {value : Json} {info : OperatorInfo} (describes : IsInfo value info) :
    value.readBack.toInfo? = some info := by
  obtain ⟨same⟩ := describes
  have read := same.map fun member => (member.1, member.2.readBack)
  have precedence := toByte?_of_isPrecedence (.number info.precedence)
  rw [Json.readBack, toInfo?, members?_readBack]
  simp only [Option.bind_eq_bind, Option.bind_some, field?_perm read]
  simp [field?, precedence, toAssociativity?_readBack]

/-- What describes a map is read as this map if what describes a value is read as this value. -/
theorem toMap?_of_isMap {α : Type} {isValue : Json → α → Prop} {value? : ReadJson → Option α}
    (reads : ∀ {value a}, isValue value a → value? value.readBack = some a) {value : Json}
    {map : OperatorMap α} (describes : IsMap isValue value map) :
    value.readBack.toMap? value? = some map := by
  obtain ⟨each⟩ := describes
  rename_i members entries
  have all : (members.map fun member => (member.1, member.2.readBack)).mapM
      (fun member => (value? member.2).map (member.1, ·)) = some entries := by
    induction each with
    | nil => rfl
    | cons first _ ih =>
      rw [List.map_cons, List.mapM_cons, ih, reads first.2, first.1]
      rfl
  rw [Json.readBack, toMap?, members?_readBack]
  simp only [Option.bind_eq_bind, Option.bind_some, all]

/-- A member that holds a map is read as this map, also where it is missing. -/
theorem toMapOrEmpty?_of_isField {α : Type} {name : String} {isValue : Json → α → Prop}
    {value? : ReadJson → Option α}
    (reads : ∀ {value a}, isValue value a → value? value.readBack = some a)
    {members : List (String × Json)} {map : OperatorMap α} (field : IsField name isValue members map)
    {others : List (String × Json)} (different : ∀ member ∈ others, member.1 ≠ name) :
    (field? name ((members ++ others).map fun member => (member.1, member.2.readBack))).bind
      (toMapOrEmpty? value?) = some map := by
  have none :
      (others.map fun member => (member.1, member.2.readBack)).filter (·.1 == name) = [] := by
    rw [List.filter_eq_nil_iff]
    intro member listed
    obtain ⟨other, mem, rfl⟩ := List.mem_map.mp listed
    exact fun same => different other mem (beq_iff_eq.mp same)
  cases field with
  | given describes =>
    rw [field?, List.map_append, List.filter_append, none]
    simp [toMapOrEmpty?, toMap?_of_isMap reads describes]
  | missing =>
    rw [field?, List.nil_append, none]
    rfl

theorem name_of_isField {α : Type} {name : String} {isValue : Json → α → Prop}
    {members : List (String × Json)} {map : OperatorMap α} (field : IsField name isValue members map) :
    ∀ member ∈ members, member.1 = name := by
  intro member listed
  cases field with
  | given => exact congrArg Prod.fst (List.mem_singleton.mp listed)
  | missing => exact absurd listed List.not_mem_nil

theorem toTable?_of_isTable {value : Json} {table : OperatorTable}
    (describes : IsTable value table) : value.readBack.toTable? = some table := by
  obtain ⟨binary, unary, same⟩ := describes
  have apart : "binary" ≠ "prefix" := by decide
  have first := toMapOrEmpty?_of_isField toInfo?_of_isInfo binary fun member listed =>
    name_of_isField unary member listed ▸ apart.symm
  have second := toMapOrEmpty?_of_isField toByte?_of_isPrecedence unary fun member listed =>
    name_of_isField binary member listed ▸ apart
  rw [← field?_perm (same.map _)] at first
  rw [← field?_perm ((same.trans List.perm_append_comm).map _)] at second
  obtain ⟨given, found, read⟩ := Option.bind_eq_some_iff.mp first
  obtain ⟨given', found', read'⟩ := Option.bind_eq_some_iff.mp second
  rw [Json.readBack, toTable?, members?_readBack]
  simp only [Option.bind_eq_bind, Option.bind_some, found, found', read, read']

end ReadJson

/-- The library that reads and writes tables as JSON by what is defined here does what it has to. -/
theorem TableCodec.lawful_json : TableCodec.json.Lawful where
  encodes table := ⟨table.json.write, rfl, Json.spells_write table.json⟩
  decodes spells describes := by
    simp only [json, ReadJson.ofText?_of_spells spells, Option.bind_some,
      ReadJson.toTable?_of_isTable describes]

namespace OperatorTable

variable {codec : TableCodec}

/-- A text gives a table if the library reads it and nothing is wrong with its operators. -/
theorem ofJson_eq_ok_iff {text : String} {table : OperatorTable} :
    ofJson codec text = .ok table ↔ codec.decode text = .ok table ∧ table.fault? = none := by
  rw [ofJson]
  cases codec.decode text with
  | error => simp
  | ok read =>
    cases fault : read.fault? with
    | none =>
      simp only [fault, Except.ok.injEq]
      constructor
      · rintro rfl
        exact ⟨rfl, fault⟩
      · exact And.left
    | some =>
      simp only [fault, reduceCtorEq, Except.ok.injEq, false_iff]
      rintro ⟨rfl, fine⟩
      exact absurd (fine.symm.trans fault) (Option.some_ne_none _).symm

theorem toJson_eq_ok_iff {text : String} {table : OperatorTable} :
    toJson codec table = .ok text ↔ codec.encode table = .ok text := by
  rw [toJson]
  cases codec.encode table <;> simp [Except.mapError]

/-- A table that passes the check is read from its JSON text as it is. And a table that is read from
any text passes the check, and its JSON text stays the same when it is read and written again. -/
theorem json_round_trip (codec : TableCodec) (lawful : codec.Lawful) :
    (∀ table : OperatorTable, table.fault? = none →
        ∃ text, toJson codec table = .ok text ∧ ofJson codec text = .ok table) ∧
      ∀ (text : String) (table : OperatorTable), ofJson codec text = .ok table →
        table.fault? = none ∧ ∃ written, toJson codec table = .ok written ∧
          (ofJson codec written).bind (toJson codec) = .ok written := by
  have kept (table : OperatorTable) (fine : table.fault? = none) :
      ∃ text, toJson codec table = .ok text ∧ ofJson codec text = .ok table := by
    obtain ⟨text, written, spells⟩ := lawful.encodes table
    have read := lawful.decodes spells (Json.isTable_json table)
    exact ⟨text, toJson_eq_ok_iff.mpr written, ofJson_eq_ok_iff.mpr ⟨read, fine⟩⟩
  refine ⟨kept, fun text table read => ?_⟩
  have fine := (ofJson_eq_ok_iff.mp read).2
  obtain ⟨written, written_eq, again⟩ := kept table fine
  exact ⟨fine, written, written_eq, by rw [again]; exact written_eq⟩

/-- A text with a table as a list, an operator given twice, and an associativity as an object. -/
theorem json_round_trip_repeated :
    TableCodec.json.Lawful ∧ standard.fault? = none ∧
      (∃ text, toJson .json standard = .ok text ∧ ofJson .json text = .ok standard) ∧
      ∃ table : OperatorTable, ofJson .json ("[\x7b\"*\": [5, \"right\"], \"*\": \x7b" ++
          "\"precedence\": 10, \"associativity\": \x7b\"left\": null\x7d\x7d\x7d]") = .ok table ∧
        table.binaryPower? "*" = some (.leftAssociative 10) ∧
        table.fault? = none ∧ ∃ written, toJson .json table = .ok written ∧
          (ofJson .json written).bind (toJson .json) = .ok written := by
  have read : ofJson .json ("[\x7b\"*\": [5, \"right\"], \"*\": \x7b" ++
      "\"precedence\": 10, \"associativity\": \x7b\"left\": null\x7d\x7d\x7d]") =
      .ok ⟨.ofList [("*", ⟨10, .left⟩)], .empty⟩ :=
    ofJson_eq_ok_iff.mpr (by decide +kernel)
  have fine : standard.fault? = none := by decide +kernel
  have round := json_round_trip .json TableCodec.lawful_json
  exact ⟨TableCodec.lawful_json, fine, round.1 standard fine, _, read, by decide +kernel,
    round.2 _ _ read⟩

end OperatorTable

end LosslessSyntax
