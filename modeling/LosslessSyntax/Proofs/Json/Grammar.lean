import LosslessSyntax.Json.Printer

/-! # The grammar of JSON

Which texts stand for a JSON value, as the standard has it. Blanks may stand around values and names, and
a character of a string may be written as itself, as a backslash and a letter, or by its number. There
are many texts for a value, and what is written for it is one of them (`Json.spells_write`).
-/

namespace LosslessSyntax.Json

/-- Characters that may stand around values and names. -/
def Blank (chars : List Char) : Prop := ∀ c ∈ chars, c ∈ [' ', '\t', '\n', '\r']

/-- The letters that stand for a character behind a backslash. -/
def escapes : List (Char × Char) :=
  [('"', '"'), ('\\', '\\'), ('/', '/'), ('b', '\x08'), ('f', '\x0c'), ('n', '\n'), ('r', '\r'),
    ('t', '\t')]

/-- The hexadecimal digits, in either case, with their values. -/
def hexDigits : List (Char × Nat) :=
  "0123456789abcdef".toList.zipIdx ++ "ABCDEF".toList.zipIdx 10

/-- Four digits behind a backslash give the number of a 16-bit unit. -/
inductive SpellsUnit : Nat → List Char → Prop where
  | digits {a b c d : Char × Nat} : a ∈ hexDigits → b ∈ hexDigits → c ∈ hexDigits → d ∈ hexDigits →
      SpellsUnit (((a.2 * 16 + b.2) * 16 + c.2) * 16 + d.2) ['\\', 'u', a.1, b.1, c.1, d.1]

/-- What stands for a character of a string. -/
inductive SpellsChar : Char → List Char → Prop where
  /-- The character itself, unless it is a control character or means something else. -/
  | plain {c : Char} : 0x20 ≤ c.toNat → c ≠ '"' → c ≠ '\\' → SpellsChar c [c]
  /-- A backslash and a letter. -/
  | letter {letter c : Char} : (letter, c) ∈ escapes → SpellsChar c ['\\', letter]
  /-- Its number, if it is one 16-bit unit. -/
  | unit {c : Char} {chars : List Char} : SpellsUnit c.toNat chars → SpellsChar c chars
  /-- The numbers of the halves of a surrogate pair, if it is two 16-bit units. -/
  | pair {c : Char} {high low : List Char} : 0x10000 ≤ c.toNat →
      SpellsUnit (0xd800 + (c.toNat - 0x10000) / 0x400) high →
      SpellsUnit (0xdc00 + (c.toNat - 0x10000) % 0x400) low → SpellsChar c (high ++ low)

/-- What stands for the characters of a string, one after the other. -/
inductive SpellsChars : List Char → List Char → Prop where
  | nil : SpellsChars [] []
  | cons {c : Char} {rest front back : List Char} : SpellsChar c front → SpellsChars rest back →
      SpellsChars (c :: rest) (front ++ back)

/-- What stands for a string: its characters between quotation marks. -/
inductive SpellsString : String → List Char → Prop where
  | quoted {text : String} {chars : List Char} : SpellsChars text.toList chars →
      SpellsString text ('"' :: (chars ++ ['"']))

mutual
/-- What stands for a value, without blanks around it. -/
inductive Spells : Json → List Char → Prop where
  | null : Spells .null ['n', 'u', 'l', 'l']
  | number (value : Nat) : Spells (.number value) (Nat.toDigits 10 value)
  | string {text : String} {chars : List Char} : SpellsString text chars →
      Spells (.string text) chars
  | emptyArray {blanks : List Char} : Blank blanks → Spells (.array []) ('[' :: (blanks ++ [']']))
  | array {items : List Json} {chars : List Char} : SpellsElements items chars →
      Spells (.array items) ('[' :: (chars ++ [']']))
  | emptyObject {blanks : List Char} : Blank blanks →
      Spells (.object []) ('\x7b' :: (blanks ++ ['\x7d']))
  | object {members : List (String × Json)} {chars : List Char} : SpellsMembers members chars →
      Spells (.object members) ('\x7b' :: (chars ++ ['\x7d']))
/-- What stands for a value, with blanks around it. -/
inductive SpellsElement : Json → List Char → Prop where
  | mk {value : Json} {before chars after : List Char} : Blank before → Spells value chars →
      Blank after → SpellsElement value (before ++ (chars ++ after))
/-- What stands for the items of a list, of which there are some. -/
inductive SpellsElements : List Json → List Char → Prop where
  | last {value : Json} {chars : List Char} : SpellsElement value chars →
      SpellsElements [value] chars
  | next {value : Json} {items : List Json} {chars more : List Char} : SpellsElement value chars →
      SpellsElements items more → SpellsElements (value :: items) (chars ++ ',' :: more)
/-- What stands for a member of an object: its name, a colon and its value. -/
inductive SpellsMember : String × Json → List Char → Prop where
  | mk {key : String} {value : Json} {before name after chars : List Char} : Blank before →
      SpellsString key name → Blank after → SpellsElement value chars →
      SpellsMember (key, value) (before ++ (name ++ (after ++ ':' :: chars)))
/-- What stands for the members of an object, of which there are some. -/
inductive SpellsMembers : List (String × Json) → List Char → Prop where
  | last {member : String × Json} {chars : List Char} : SpellsMember member chars →
      SpellsMembers [member] chars
  | next {member : String × Json} {members : List (String × Json)} {chars more : List Char} :
      SpellsMember member chars → SpellsMembers members more →
      SpellsMembers (member :: members) (chars ++ ',' :: more)
end

theorem blank_nil : Blank [] := nofun

theorem toList_newline (level : Nat) :
    (newline level).toList = '\n' :: List.replicate (2 * level) ' ' :=
  String.toList_ofList

theorem blank_newline (level : Nat) : Blank (newline level).toList := by
  intro c member
  rw [toList_newline, List.mem_cons] at member
  rcases member with rfl | member
  · decide
  · rw [List.eq_of_mem_replicate member]
    decide

/-- What is written for a character stands for it. -/
theorem spellsChar_escapeChar (c : Char) : SpellsChar c (escapeChar c) := by
  by_cases named : c ∈ ['"', '\\', '\x08', '\x0c', '\n', '\r', '\t']
  · simp only [List.mem_cons, List.not_mem_nil, or_false] at named
    rcases named with rfl | rfl | rfl | rfl | rfl | rfl | rfl <;> exact .letter (by decide)
  · simp only [List.mem_cons, List.not_mem_nil, or_false, not_or] at named
    obtain ⟨quote, backslash, backspace, feed, line, carriage, tab⟩ := named
    simp only [escapeChar, beq_iff_eq, quote, backslash, backspace, feed, line, carriage, tab,
      if_false]
    split
    case isTrue control =>
      have digits : ∀ digit < 16, (hexDigit digit, digit) ∈ hexDigits := by decide
      have spells := SpellsUnit.digits (digits 0 (by decide)) (digits 0 (by decide))
        (digits (c.toNat / 16) (by omega)) (digits (c.toNat % 16) (Nat.mod_lt _ (by decide)))
      have number : ((0 * 16 + 0) * 16 + c.toNat / 16) * 16 + c.toNat % 16 = c.toNat := by omega
      refine .unit ?_
      rwa [number] at spells
    case isFalse shown => exact .plain (Nat.not_lt.mp shown) quote backslash

theorem spellsString_writeString (text : String) : SpellsString text (writeString text).toList := by
  have spells (chars : List Char) : SpellsChars chars (chars.flatMap escapeChar) := by
    induction chars with
    | nil => exact .nil
    | cons c chars ih => exact .cons (spellsChar_escapeChar c) ih
  rw [writeString, String.toList_ofList]
  exact .quoted (spells text.toList)

/-- What is written for the items of a list behind the first one completes it, up to a bracket. -/
theorem exists_spellsElements {level : Nat} {items : List Json}
    (each : ∀ item ∈ items, Spells item (item.writeAt (level + 1)).toList) (first : Json) :
    ∃ tail, (writeItems level items).toList = tail ++ [']'] ∧
      ∀ {before chars}, Blank before → Spells first chars →
        SpellsElements (first :: items) (before ++ (chars ++ tail)) := by
  induction items generalizing first with
  | nil =>
    refine ⟨(newline level).toList, ?_, fun blank here => .last (.mk blank here (blank_newline level))⟩
    rw [writeItems, String.toList_append]
    rfl
  | cons second items ih =>
    obtain ⟨following, each⟩ := List.forall_mem_cons.mp each
    obtain ⟨tail, written, spells⟩ := ih each second
    refine ⟨',' :: ((newline (level + 1)).toList ++
      ((second.writeAt (level + 1)).toList ++ tail)), ?_, fun blank here => ?_⟩
    · simp only [writeItems, String.toList_append, written, List.append_assoc, List.cons_append]
      rfl
    · have whole := SpellsElements.next (.mk blank here blank_nil)
        (spells (blank_newline (level + 1)) following)
      rwa [List.append_nil, List.append_assoc] at whole

/-- What is written for the members of an object behind the first one completes it, up to a brace. -/
theorem exists_spellsMembers {level : Nat} {members : List (String × Json)}
    (each : ∀ member ∈ members, Spells member.2 (member.2.writeAt (level + 1)).toList)
    (key : String) (first : Json) :
    ∃ tail, (writeMembers level members).toList = tail ++ ['\x7d'] ∧
      ∀ {before chars}, Blank before → Spells first chars →
        SpellsMembers ((key, first) :: members)
          (before ++ ((writeString key).toList ++ ':' :: ' ' :: (chars ++ tail))) := by
  have space : Blank [' '] := fun c member => by
    rw [List.mem_singleton.mp member]
    decide
  induction members generalizing key first with
  | nil =>
    refine ⟨(newline level).toList, ?_, fun blank here => ?_⟩
    · rw [writeMembers, String.toList_append]
      rfl
    · have whole := SpellsMembers.last (.mk blank (spellsString_writeString key) blank_nil
        (.mk space here (blank_newline level)))
      rwa [List.nil_append, List.singleton_append] at whole
  | cons member members ih =>
    obtain ⟨next, second⟩ := member
    obtain ⟨following, each⟩ := List.forall_mem_cons.mp each
    obtain ⟨tail, written, spells⟩ := ih each next second
    refine ⟨',' :: ((newline (level + 1)).toList ++ ((writeString next).toList ++ ':' :: ' ' ::
      ((second.writeAt (level + 1)).toList ++ tail))), ?_, fun blank here => ?_⟩
    · simp only [writeMembers, String.toList_append, written, List.append_assoc, List.cons_append]
      rfl
    · have whole := SpellsMembers.next (.mk blank (spellsString_writeString key) blank_nil
        (.mk space here blank_nil)) (spells (blank_newline (level + 1)) following)
      simp only [List.append_nil, List.append_assoc, List.cons_append, List.nil_append] at whole ⊢
      exact whole

mutual
/-- What is written for a value stands for it. -/
theorem spells_writeAt (level : Nat) (value : Json) : Spells value (value.writeAt level).toList := by
  cases value with
  | null =>
    rw [writeAt]
    exact .null
  | number value =>
    rw [writeAt, Nat.toString_eq_ofList_toDigits, String.toList_ofList]
    exact .number value
  | string value =>
    rw [writeAt]
    exact .string (spellsString_writeString value)
  | array items =>
    cases items with
    | nil =>
      rw [writeAt]
      exact .emptyArray blank_nil
    | cons first items =>
      obtain ⟨tail, written, spells⟩ :=
        exists_spellsElements (spells_items (level + 1) items) first
      have whole := Spells.array
        (spells (blank_newline (level + 1)) (spells_writeAt (level + 1) first))
      simp only [writeAt, String.toList_append, written, List.append_assoc] at whole ⊢
      exact whole
  | object members =>
    rcases members with _ | ⟨⟨key, first⟩, members⟩
    · rw [writeAt]
      exact .emptyObject blank_nil
    · obtain ⟨tail, written, spells⟩ :=
        exists_spellsMembers (spells_members (level + 1) members) key first
      have whole := Spells.object
        (spells (blank_newline (level + 1)) (spells_writeAt (level + 1) first))
      simp only [writeAt, String.toList_append, written, List.append_assoc, List.cons_append]
        at whole ⊢
      exact whole
theorem spells_items (level : Nat) (items : List Json) :
    ∀ item ∈ items, Spells item (item.writeAt level).toList := by
  cases items with
  | nil => exact nofun
  | cons first items =>
    exact List.forall_mem_cons.mpr ⟨spells_writeAt level first, spells_items level items⟩
theorem spells_members (level : Nat) (members : List (String × Json)) :
    ∀ member ∈ members, Spells member.2 (member.2.writeAt level).toList := by
  rcases members with _ | ⟨⟨key, first⟩, members⟩
  · exact nofun
  · exact List.forall_mem_cons.mpr ⟨spells_writeAt level first, spells_members level members⟩
end

theorem spells_write (value : Json) : SpellsElement value value.write.toList := by
  have element := SpellsElement.mk blank_nil (spells_writeAt 0 value) blank_nil
  rwa [List.nil_append, List.append_nil] at element

end LosslessSyntax.Json
