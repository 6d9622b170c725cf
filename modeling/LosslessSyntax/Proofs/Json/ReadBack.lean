import LosslessSyntax.Json.Reader
import LosslessSyntax.Proofs.Json.Grammar

/-! # What stands for a value is read as it

Whatever text stands for a value is read as this value (`ReadJson.ofText?_of_spells`), with its numbers
as their digits (`Json.readBack`). A value is read wherever it stands (`ReadJson.ReadsAs`): behind
blanks, and before anything that does not continue a number.
-/

namespace LosslessSyntax

namespace Json

mutual
/-- A value as it is read. -/
def readBack : Json → ReadJson
  | .null => .null
  | .number value => .number (Nat.toDigits 10 value)
  | .string value => .string (some value)
  | .array items => .array (readBackAll items)
  | .object members => .object (readBackMembers members)
/-- The items of a list as they are read. -/
def readBackAll : List Json → List ReadJson
  | [] => []
  | first :: rest => first.readBack :: readBackAll rest
/-- The members of an object as they are read. -/
def readBackMembers : List (String × Json) → List (Option String × ReadJson)
  | [] => []
  | (key, first) :: rest => (some key, first.readBack) :: readBackMembers rest
end

theorem readBackMembers_eq (members : List (String × Json)) :
    readBackMembers members = members.map fun member => (some member.1, member.2.readBack) := by
  induction members with
  | nil => rfl
  | cons first rest ih => rw [readBackMembers, ih, List.map_cons]

end Json

namespace ReadJson

open Json (Blank SpellsUnit SpellsChar SpellsChars SpellsString Spells SpellsElement SpellsElements
  SpellsMember SpellsMembers)

theorem isBlank_of_blank {blanks : List Char} (blank : Blank blanks) :
    ∀ c ∈ blanks, isBlank c = true := by
  intro c member
  simpa [isBlank, or_assoc] using blank c member

theorem skipBlanks_append {blanks : List Char} (blank : Blank blanks) (text : List Char) :
    skipBlanks (blanks ++ text) = skipBlanks text :=
  List.dropWhile_append_of_pos (isBlank_of_blank blank)

theorem skipBlanks_cons {c : Char} (other : isBlank c = false) (rest : List Char) :
    skipBlanks (c :: rest) = c :: rest :=
  List.dropWhile_cons_of_neg (by rw [other]; exact Bool.false_ne_true)

theorem skipBlanks_skipBlanks (text : List Char) :
    skipBlanks (skipBlanks text) = skipBlanks text := by
  induction text with
  | nil => rfl
  | cons c rest ih =>
    cases blank : isBlank c with
    | false => rw [skipBlanks_cons blank, skipBlanks_cons blank]
    | true =>
      have skipped : skipBlanks (c :: rest) = skipBlanks rest := List.dropWhile_cons_of_pos blank
      rwa [skipped]

/-- Blanks before a value make no difference. -/
theorem readValue?_congr {text text' : List Char} (same : skipBlanks text = skipBlanks text')
    (depth : Nat) : readValue? depth text = readValue? depth text' := by
  rw [readValue?.eq_def, readValue?.eq_def depth text', same]

theorem readItems?_congr {text text' : List Char} (same : skipBlanks text = skipBlanks text')
    (depth : Nat) : readItems? depth text = readItems? depth text' := by
  cases depth with
  | zero => rw [readItems?.eq_1, readItems?.eq_1]
  | succ depth => rw [readItems?.eq_2, readItems?.eq_2, readValue?_congr same]

theorem readMembers?_congr {text text' : List Char} (same : skipBlanks text = skipBlanks text')
    (depth : Nat) : readMembers? depth text = readMembers? depth text' := by
  rw [readMembers?.eq_def, readMembers?.eq_def depth text', same]

/-- Four digits are read as the unit with their number. -/
theorem readUnits?_unit {value : Nat} {chars : List Char} (spells : SpellsUnit value chars)
    (text : List Char) : readUnits? (chars ++ text) =
      (readUnits? text).map fun read => (.unit value :: read.1, read.2) := by
  have digit : ∀ d ∈ Json.hexDigits, hexValue? d.1 = some d.2 := by decide
  cases spells with
  | digits a b c d =>
    simp only [List.cons_append, List.nil_append]
    rw [readUnits?.eq_3, digit _ a, digit _ b, digit _ c, digit _ d]
    simp only [Option.bind_eq_bind, Option.bind_some]
    cases readUnits? text <;> rfl

/-- A unit that is no half of a surrogate pair is the character with its number. -/
theorem textOfUnits?_unit (c : Char) (units : List Unit16) :
    textOfUnits? (.unit c.toNat :: units) = (textOfUnits? units).map (c :: ·) := by
  have valid : c.toNat < 0xd800 ∨ 0xdfff < c.toNat ∧ c.toNat < 0x110000 := c.valid
  have plain : ¬ (0xd800 ≤ c.toNat ∧ c.toNat < 0xe000) := by omega
  have high : ¬ (0xd800 ≤ c.toNat ∧ c.toNat < 0xdc00) := by omega
  have low : ¬ (0xdc00 ≤ c.toNat ∧ c.toNat < 0xe000) := by omega
  rcases units with _ | ⟨char | second, more⟩
  · rw [textOfUnits?.eq_4, if_neg plain, Char.ofNat_toNat]
    exact nofun
  · rw [textOfUnits?.eq_4, if_neg plain, Char.ofNat_toNat]
    exact nofun
  · rw [textOfUnits?.eq_3, if_neg high, if_neg low, Char.ofNat_toNat]

/-- Two units that are the halves of a surrogate pair are one character. -/
theorem textOfUnits?_pair {c : Char} (large : 0x10000 ≤ c.toNat) (units : List Unit16) :
    textOfUnits? (.unit (0xd800 + (c.toNat - 0x10000) / 0x400) ::
        .unit (0xdc00 + (c.toNat - 0x10000) % 0x400) :: units) =
      (textOfUnits? units).map (c :: ·) := by
  have valid : c.toNat < 0xd800 ∨ 0xdfff < c.toNat ∧ c.toNat < 0x110000 := c.valid
  have number : 0x10000 + (0xd800 + (c.toNat - 0x10000) / 0x400 - 0xd800) * 0x400 +
      (0xdc00 + (c.toNat - 0x10000) % 0x400 - 0xdc00) = c.toNat := by omega
  rw [textOfUnits?.eq_3, if_pos (by omega), if_pos (by omega), number, Char.ofNat_toNat]

/-- What stands for a character is read as units with the character as their text. -/
theorem exists_units {c : Char} {chars : List Char} (spells : SpellsChar c chars) :
    ∃ units, (∀ text, readUnits? (chars ++ text) =
        (readUnits? text).map fun read => (units ++ read.1, read.2)) ∧
      ∀ more, textOfUnits? (units ++ more) = (textOfUnits? more).map (c :: ·) := by
  cases spells with
  | plain shown quote backslash =>
    refine ⟨[.char c], fun text => ?_, fun more => textOfUnits?.eq_2 ..⟩
    have taken : ¬ (decide (c.toNat < 0x20) || c == '\\') = true := by
      simp [backslash, Nat.not_lt.mpr shown]
    rw [List.singleton_append, readUnits?.eq_5 _ _ quote
      (fun _ _ _ _ _ same => absurd same backslash) (fun _ _ same => absurd same backslash),
      if_neg taken]
    cases readUnits? text <;> rfl
  | @letter letter _ listed =>
    refine ⟨[.char c], fun text => ?_, fun more => textOfUnits?.eq_2 ..⟩
    have known : ∀ pair ∈ Json.escapes, simpleEscape? pair.1 = some pair.2 ∧ pair.1 ≠ 'u' := by
      decide
    obtain ⟨escape, other⟩ := known _ listed
    rw [List.cons_append, List.singleton_append,
      readUnits?.eq_4 _ _ fun _ _ _ _ _ same => absurd same other, escape]
    cases readUnits? text <;> rfl
  | unit spells =>
    exact ⟨[.unit c.toNat], readUnits?_unit spells, textOfUnits?_unit c⟩
  | pair large high low =>
    refine ⟨[_, _], fun text => ?_, textOfUnits?_pair large⟩
    rw [List.append_assoc, readUnits?_unit high, readUnits?_unit low, Option.map_map]
    rfl

/-- What stands for a string is read, behind its opening quotation mark, as the string. -/
theorem readString?_of_spells {text : String} {chars : List Char}
    (spells : SpellsString text chars) : ∃ behind, chars = '"' :: behind ∧
      ∀ rest, readString? (behind ++ rest) = some (some text, rest) := by
  have read {text chars : List Char} (spells : SpellsChars text chars) (rest : List Char) :
      ∃ units, readUnits? (chars ++ '"' :: rest) = some (units, rest) ∧
        textOfUnits? units = some text := by
    induction spells with
    | nil => exact ⟨[], readUnits?.eq_2 rest, textOfUnits?.eq_1⟩
    | cons first _ ih =>
      obtain ⟨units, read, same⟩ := ih
      obtain ⟨front, reads, begins⟩ := exists_units first
      refine ⟨front ++ units, ?_, ?_⟩
      · rw [List.append_assoc, reads, read, Option.map_some]
      · rw [begins, same, Option.map_some]
  obtain ⟨spells⟩ := spells
  refine ⟨_, rfl, fun rest => ?_⟩
  obtain ⟨units, read, same⟩ := read spells rest
  rw [List.append_assoc, List.singleton_append]
  simp only [readString?, read, Option.bind_eq_bind, Option.bind_some, same, Option.map_some,
    String.ofList_toList]

/-- Characters that do not continue a number before them. -/
def NumberEnds (text : List Char) : Prop :=
  ∀ c ∈ text.head?, c.isDigit = false ∧ c ≠ '.' ∧ c ≠ 'e' ∧ c ≠ 'E'

theorem numberEnds_nil : NumberEnds [] := nofun

/-- Blanks end a number, and so does what follows a value behind them. -/
theorem numberEnds_blanks {blanks text : List Char} (blank : Blank blanks) (ends : NumberEnds text) :
    NumberEnds (blanks ++ text) := by
  cases blanks with
  | nil => exact ends
  | cons c blanks =>
    have listed := blank c List.mem_cons_self
    simp only [List.mem_cons, List.not_mem_nil, or_false] at listed
    intro d same
    obtain rfl := Option.some.inj same
    rcases listed with rfl | rfl | rfl | rfl <;> decide

theorem numberEnds_cons {c : Char} (plain : c.isDigit = false ∧ c ≠ '.' ∧ c ≠ 'e' ∧ c ≠ 'E')
    (rest : List Char) : NumberEnds (c :: rest) :=
  fun _ same => Option.some.inj same ▸ plain

theorem readDigits?_append {digits rest : List Char} (some : digits ≠ [])
    (all : ∀ c ∈ digits, c.isDigit = true) (ends : NumberEnds rest) :
    readDigits? (digits ++ rest) = .some (digits, rest) := by
  have taken : rest.takeWhile Char.isDigit = [] ∧ rest.dropWhile Char.isDigit = rest := by
    cases rest with
    | nil => exact ⟨rfl, rfl⟩
    | cons c more =>
      have other : ¬ c.isDigit = true := by rw [(ends c rfl).1]; exact Bool.false_ne_true
      exact ⟨List.takeWhile_cons_of_neg other, List.dropWhile_cons_of_neg other⟩
  rw [readDigits?, List.takeWhile_append_of_pos all, List.dropWhile_append_of_pos all, taken.1,
    taken.2, List.append_nil, if_neg (by rwa [List.isEmpty_iff])]

theorem readFraction?_of_ends {rest : List Char} (ends : NumberEnds rest) :
    readFraction? rest = some ([], rest) := by
  cases rest with
  | nil => rfl
  | cons c more =>
    obtain ⟨-, point, lower, upper⟩ := ends c rfl
    have none : ¬ (c == 'e' || c == 'E') = true := by simp [lower, upper]
    rw [readFraction?.eq_2 _ fun _ same => point (List.cons.inj same).1,
      readExponent?.eq_def]
    exact if_neg none

theorem head?_toDigits_append (number : Nat) (rest : List Char) :
    (Nat.toDigits 10 number ++ rest).head? = (Nat.toDigits 10 number).head? := by
  rw [List.head?_append, List.head?_eq_some_head Nat.toDigits_ne_nil, Option.some_or]

/-- Only zero is written with a zero in front. -/
theorem head?_toDigits {number : Nat} (positive : number ≠ 0) :
    (Nat.toDigits 10 number).head? ≠ some '0' := by
  induction number using Nat.strongRecOn with
  | ind number ih =>
    by_cases small : number < 10
    · rw [Nat.toDigits_of_lt_base small]
      exact fun same => positive (Nat.digitChar_eq_zero.mp (Option.some.inj same))
    · rw [Nat.toDigits_of_base_le (by decide) (Nat.not_lt.mp small), head?_toDigits_append]
      exact ih (number / 10) (by omega) (by omega)

theorem readNumber?_append (number : Nat) {rest : List Char} (ends : NumberEnds rest) :
    readNumber? (Nat.toDigits 10 number ++ rest) = some (Nat.toDigits 10 number, rest) := by
  have digits : ∀ c ∈ Nat.toDigits 10 number, c.isDigit = true :=
    fun c member => Nat.isDigit_of_mem_toDigits (by decide) (by decide) member
  have single : ¬ ((Nat.toDigits 10 number).head? = some '0' ∧
      1 < (Nat.toDigits 10 number).length) := by
    rintro ⟨zero, longer⟩
    cases number with
    | zero => exact absurd longer (by decide)
    | succ => exact head?_toDigits (Nat.succ_ne_zero _) zero
  have unsigned : ∀ more, Nat.toDigits 10 number ++ rest ≠ '-' :: more := by
    intro more same
    have head := congrArg List.head? same
    rw [head?_toDigits_append] at head
    exact absurd (digits _ (List.mem_of_mem_head? head)) (by decide)
  rw [readNumber?.eq_2 _ unsigned, readUnsigned?,
    readDigits?_append Nat.toDigits_ne_nil digits ends]
  simp only [Option.bind_eq_bind, Option.bind_some, if_neg single, readFraction?_of_ends ends,
    List.append_nil]

/-- Characters that are read as a value, before anything that does not continue a number. Each level
of nesting takes a character, so that their number is depth enough. -/
structure ReadsAs (chars : List Char) (value : ReadJson) : Prop where
  /-- Behind an opening bracket they do not pass for the end of an empty list. -/
  begins : ∃ c more, chars = c :: more ∧ isBlank c = false ∧ c ≠ ']'
  reads : ∀ {depth : Nat} {rest : List Char}, chars.length ≤ depth → NumberEnds rest →
    readValue? depth (chars ++ rest) = some (value, rest)

/-- Characters that are no blank at their beginning are read as a value, if this takes a level. -/
theorem ReadsAs.of_cons {c : Char} {chars : List Char} {value : ReadJson}
    (other : isBlank c = false ∧ c ≠ ']')
    (reads : ∀ {depth : Nat} {rest : List Char}, chars.length ≤ depth → NumberEnds rest →
      skipBlanks (c :: (chars ++ rest)) = c :: (chars ++ rest) →
        readValue? (depth + 1) (c :: (chars ++ rest)) = some (value, rest)) :
    ReadsAs (c :: chars) value where
  begins := ⟨c, chars, rfl, other⟩
  reads {depth rest} deep ends := by
    cases depth with
    | zero => exact absurd deep (Nat.not_succ_le_zero _)
    | succ depth => exact reads (Nat.le_of_succ_le_succ deep) ends (skipBlanks_cons other.1 _)

theorem readsAs_null : ReadsAs ['n', 'u', 'l', 'l'] .null := by
  refine .of_cons (by decide) fun _ _ shown => ?_
  rw [readValue?.eq_6 _ _ _ shown]
  rfl

theorem readsAs_string {text : String} {chars : List Char} (spells : SpellsString text chars) :
    ReadsAs chars (.string (some text)) := by
  obtain ⟨behind, rfl, read⟩ := readString?_of_spells spells
  refine .of_cons (by decide) fun _ _ shown => ?_
  rw [readValue?.eq_3 _ _ _ shown, read]
  rfl

theorem ne_of_isDigit {c d : Char} (digit : c.isDigit = true) (other : d.isDigit = false) : c ≠ d :=
  fun same => by rw [same, other] at digit; exact Bool.false_ne_true digit

theorem isBlank_of_isDigit {c : Char} (digit : c.isDigit = true) : isBlank c = false := by
  simp [isBlank, ne_of_isDigit digit]

theorem readsAs_number (number : Nat) :
    ReadsAs (Nat.toDigits 10 number) (.number (Nat.toDigits 10 number)) := by
  obtain ⟨c, more, written⟩ :=
    List.exists_cons_of_ne_nil (Nat.toDigits_ne_nil (b := 10) (n := number))
  have digit : c.isDigit = true :=
    Nat.isDigit_of_mem_toDigits (by decide) (by decide) (written ▸ List.mem_cons_self)
  have read {rest : List Char} (ends : NumberEnds rest) := readNumber?_append number ends
  rw [written] at read ⊢
  refine .of_cons ⟨isBlank_of_isDigit digit, ne_of_isDigit digit rfl⟩ ?_
  intro depth rest _ ends shown
  have other {d : Char} (plain : d.isDigit = false) (rest' : List Char)
      (same : skipBlanks (c :: (more ++ rest)) = d :: rest') : False :=
    ne_of_isDigit digit plain (List.cons.inj (shown.symm.trans same)).1
  rw [readValue?.eq_9 _ _ (by rw [shown]; exact nofun) (other rfl) (other rfl) (other rfl)
    (other rfl) (other rfl) (other rfl), shown, ← List.cons_append, read ends]
  rfl

/-- Characters that are read as a value, with blanks around them. -/
structure ElementReadsAs (chars : List Char) (value : ReadJson) : Prop where
  /-- Behind an opening bracket they do not pass for the end of an empty list. -/
  begins : ∀ rest, ∃ c more, skipBlanks (chars ++ rest) = c :: more ∧ c ≠ ']'
  /-- The blanks behind the value are left over. -/
  reads : ∃ blanks, Blank blanks ∧ ∀ {depth : Nat} {rest : List Char}, chars.length ≤ depth →
    NumberEnds rest → readValue? depth (chars ++ rest) = some (value, blanks ++ rest)

theorem ReadsAs.element {before chars after : List Char} {value : ReadJson}
    (blank : Blank before) (reads : ReadsAs chars value) (blank' : Blank after) :
    ElementReadsAs (before ++ (chars ++ after)) value := by
  refine ⟨fun rest => ?_, after, blank', fun {depth rest} deep ends => ?_⟩
  · obtain ⟨c, more, rfl, shown, other⟩ := reads.begins
    refine ⟨c, more ++ after ++ rest, ?_, other⟩
    rw [List.append_assoc, skipBlanks_append blank]
    exact skipBlanks_cons shown _
  · simp only [List.length_append] at deep
    rw [List.append_assoc, readValue?_congr (skipBlanks_append blank _), List.append_assoc,
      reads.reads (by omega) (numberEnds_blanks blank' ends)]

/-- Characters that are read as the items of a list, up to its closing bracket. With each item the depth
falls by one and the text by more, so that the depth stays enough. -/
structure ItemsReadAs (chars : List Char) (items : List ReadJson) : Prop where
  /-- Behind an opening bracket they do not pass for the end of an empty list. -/
  begins : ∀ rest, ∃ c more, skipBlanks (chars ++ rest) = c :: more ∧ c ≠ ']'
  reads : ∀ {depth : Nat}, chars.length ≤ depth → ∀ rest,
    readItems? (depth + 1) (chars ++ ']' :: rest) = some (items, rest)

/-- The last item of a list. -/
theorem ElementReadsAs.lastItem {chars : List Char} {value : ReadJson}
    (element : ElementReadsAs chars value) : ItemsReadAs chars [value] where
  begins := element.begins
  reads {depth} deep rest := by
    obtain ⟨blanks, blank, reads⟩ := element.reads
    rw [readItems?.eq_2, reads deep (numberEnds_cons (by decide) _)]
    simp only [Option.bind_eq_bind, Option.bind_some, skipBlanks_append blank]
    rw [skipBlanks_cons rfl]
    rfl

/-- An item of a list with further items behind it. -/
theorem ElementReadsAs.nextItem {chars more : List Char} {value : ReadJson} {items : List ReadJson}
    (element : ElementReadsAs chars value) (others : ItemsReadAs more items) :
    ItemsReadAs (chars ++ ',' :: more) (value :: items) where
  begins rest := by
    rw [List.append_assoc]
    exact element.begins _
  reads {depth} deep rest := by
    rw [List.length_append, List.length_cons] at deep
    obtain ⟨depth, rfl⟩ := Nat.exists_eq_succ_of_ne_zero (show depth ≠ 0 by omega)
    obtain ⟨blanks, blank, reads⟩ := element.reads
    rw [List.append_assoc, List.cons_append, readItems?.eq_2,
      reads (by omega) (numberEnds_cons (by decide) _)]
    simp only [Option.bind_eq_bind, Option.bind_some, skipBlanks_append blank]
    rw [skipBlanks_cons rfl]
    change (readItems? (depth + 1) (more ++ ']' :: rest)).bind _ = _
    rw [others.reads (by omega)]
    rfl

/-- A list of some items. -/
theorem ItemsReadAs.array {chars : List Char} {items : List ReadJson}
    (contents : ItemsReadAs chars items) : ReadsAs ('[' :: (chars ++ [']'])) (.array items) := by
  refine .of_cons (by decide) fun {depth rest} deep _ shown => ?_
  rw [List.length_append, List.length_singleton] at deep
  obtain ⟨depth, rfl⟩ := Nat.exists_eq_succ_of_ne_zero (show depth ≠ 0 by omega)
  obtain ⟨c, more, first, other⟩ := contents.begins (']' :: rest)
  have read := contents.reads (Nat.le_of_succ_le_succ deep) rest
  rw [← readItems?_congr (skipBlanks_skipBlanks _), first] at read
  rw [readValue?.eq_4 _ _ _ shown, List.append_assoc, List.singleton_append, first]
  split
  case h_1 same => exact absurd (List.cons.inj same).1 other
  case h_2 => rw [read]; rfl

theorem readsAs_emptyArray {blanks : List Char} (blank : Blank blanks) :
    ReadsAs ('[' :: (blanks ++ [']'])) (.array []) := by
  refine .of_cons (by decide) fun _ _ shown => ?_
  rw [readValue?.eq_4 _ _ _ shown, List.append_assoc, skipBlanks_append blank]
  rfl

/-- A member is read as its key, its value and the members behind it. -/
theorem readMembers?_key {key : String} {before name after : List Char} (blank : Blank before)
    (spells : SpellsString key name) (blank' : Blank after) (depth : Nat) (text : List Char) :
    readMembers? (depth + 1) (before ++ (name ++ (after ++ ':' :: text))) = (do
      let (first, rest) ← readValue? depth text
      match skipBlanks rest with
      | '\x7d' :: rest => some ([(some key, first)], rest)
      | ',' :: rest =>
        let (members, rest) ← readMembers? depth rest
        some ((some key, first) :: members, rest)
      | _ => none) := by
  obtain ⟨behind, rfl, read⟩ := readString?_of_spells spells
  rw [readMembers?_congr (skipBlanks_append blank _), List.cons_append,
    readMembers?.eq_1 _ _ _ (skipBlanks_cons rfl _), read]
  simp only [Option.bind_eq_bind, Option.bind_some, skipBlanks_append blank']
  rw [skipBlanks_cons rfl]
  rfl

/-- Characters that are read as a member of an object: the last one, or one before others. -/
structure MemberReadsAs (chars : List Char) (key : String) (value : ReadJson) : Prop where
  /-- Behind an opening brace they do not pass for the end of an empty object. -/
  begins : ∀ rest, ∃ more, skipBlanks (chars ++ rest) = '"' :: more
  last : ∀ {depth : Nat} (rest : List Char), chars.length ≤ depth →
    readMembers? (depth + 1) (chars ++ '\x7d' :: rest) = some ([(some key, value)], rest)
  next : ∀ {depth : Nat} (rest : List Char), chars.length ≤ depth →
    readMembers? (depth + 1) (chars ++ ',' :: rest) =
      (readMembers? depth rest).map fun read => ((some key, value) :: read.1, read.2)

theorem ElementReadsAs.member {key : String} {before name after chars : List Char}
    {value : ReadJson} (blank : Blank before) (spells : SpellsString key name) (blank' : Blank after)
    (element : ElementReadsAs chars value) :
    MemberReadsAs (before ++ (name ++ (after ++ ':' :: chars))) key value := by
  obtain ⟨blanks, blank'', reads⟩ := element.reads
  have whole (tail : List Char) : before ++ (name ++ (after ++ ':' :: chars)) ++ tail =
      before ++ (name ++ (after ++ ':' :: (chars ++ tail))) := by simp
  refine ⟨fun rest => ?_, fun {depth} rest deep => ?_, fun {depth} rest deep => ?_⟩
  · obtain ⟨behind, rfl, -⟩ := readString?_of_spells spells
    rw [whole, skipBlanks_append blank, List.cons_append]
    exact ⟨_, skipBlanks_cons rfl _⟩
  all_goals
    simp only [List.length_append, List.length_cons] at deep
    rw [whole, readMembers?_key blank spells blank',
      reads (by omega) (numberEnds_cons (by decide) _)]
    simp only [Option.bind_eq_bind, Option.bind_some, skipBlanks_append blank'']
    rw [skipBlanks_cons rfl]
  · rfl
  · change (readMembers? depth rest).bind _ = _
    cases readMembers? depth rest <;> rfl

/-- Characters that are read as the members of an object, up to its closing brace. -/
structure MembersReadAs (chars : List Char) (members : List (Option String × ReadJson)) : Prop where
  /-- Behind an opening brace they do not pass for the end of an empty object. -/
  begins : ∀ rest, ∃ more, skipBlanks (chars ++ rest) = '"' :: more
  reads : ∀ {depth : Nat}, chars.length ≤ depth → ∀ rest,
    readMembers? (depth + 1) (chars ++ '\x7d' :: rest) = some (members, rest)

theorem MemberReadsAs.lastMember {chars : List Char} {key : String} {value : ReadJson}
    (member : MemberReadsAs chars key value) : MembersReadAs chars [(some key, value)] :=
  ⟨member.begins, fun deep rest => member.last rest deep⟩

theorem MemberReadsAs.nextMember {chars more : List Char} {key : String} {value : ReadJson}
    {members : List (Option String × ReadJson)} (member : MemberReadsAs chars key value)
    (others : MembersReadAs more members) :
    MembersReadAs (chars ++ ',' :: more) ((some key, value) :: members) where
  begins rest := by
    rw [List.append_assoc]
    exact member.begins _
  reads {depth} deep rest := by
    rw [List.length_append, List.length_cons] at deep
    obtain ⟨depth, rfl⟩ := Nat.exists_eq_succ_of_ne_zero (show depth ≠ 0 by omega)
    rw [List.append_assoc, List.cons_append, member.next _ (by omega), others.reads (by omega),
      Option.map_some]

/-- An object of some members. -/
theorem MembersReadAs.object {chars : List Char} {members : List (Option String × ReadJson)}
    (contents : MembersReadAs chars members) :
    ReadsAs ('\x7b' :: (chars ++ ['\x7d'])) (.object members) := by
  refine .of_cons (by decide) fun {depth rest} deep _ shown => ?_
  rw [List.length_append, List.length_singleton] at deep
  obtain ⟨depth, rfl⟩ := Nat.exists_eq_succ_of_ne_zero (show depth ≠ 0 by omega)
  obtain ⟨more, first⟩ := contents.begins ('\x7d' :: rest)
  have read := contents.reads (Nat.le_of_succ_le_succ deep) rest
  rw [← readMembers?_congr (skipBlanks_skipBlanks _), first] at read
  rw [readValue?.eq_5 _ _ _ shown, List.append_assoc, List.singleton_append, first]
  split
  case h_1 same => exact absurd (List.cons.inj same).1 (by decide)
  case h_2 => rw [read]; rfl

theorem readsAs_emptyObject {blanks : List Char} (blank : Blank blanks) :
    ReadsAs ('\x7b' :: (blanks ++ ['\x7d'])) (.object []) := by
  refine .of_cons (by decide) fun _ _ shown => ?_
  rw [readValue?.eq_5 _ _ _ shown, List.append_assoc, skipBlanks_append blank]
  rfl

mutual
/-- What stands for a value is read as this value. -/
theorem readsAs_of_spells {value : Json} {chars : List Char} (spells : Spells value chars) :
    ReadsAs chars value.readBack := by
  cases spells with
  | null =>
    rw [Json.readBack]
    exact readsAs_null
  | number value =>
    rw [Json.readBack]
    exact readsAs_number value
  | string spells =>
    rw [Json.readBack]
    exact readsAs_string spells
  | emptyArray blank =>
    rw [Json.readBack, Json.readBackAll]
    exact readsAs_emptyArray blank
  | array spells =>
    rw [Json.readBack]
    exact (itemsReadAs_of_spells spells).array
  | emptyObject blank =>
    rw [Json.readBack, Json.readBackMembers]
    exact readsAs_emptyObject blank
  | object spells =>
    rw [Json.readBack]
    exact (membersReadAs_of_spells spells).object
theorem itemsReadAs_of_spells {items : List Json} {chars : List Char}
    (spells : SpellsElements items chars) : ItemsReadAs chars (Json.readBackAll items) := by
  cases spells with
  | last spells =>
    obtain ⟨blank, spells, blank'⟩ := spells
    rw [Json.readBackAll, Json.readBackAll]
    exact ((readsAs_of_spells spells).element blank blank').lastItem
  | next spells others =>
    obtain ⟨blank, spells, blank'⟩ := spells
    rw [Json.readBackAll]
    have element := (readsAs_of_spells spells).element blank blank'
    exact element.nextItem (itemsReadAs_of_spells others)
theorem membersReadAs_of_spells {members : List (String × Json)} {chars : List Char}
    (spells : SpellsMembers members chars) :
    MembersReadAs chars (Json.readBackMembers members) := by
  cases spells with
  | last spells =>
    obtain ⟨blank, name, blank', before, spells, after⟩ := spells
    rw [Json.readBackMembers, Json.readBackMembers]
    have element := (readsAs_of_spells spells).element before after
    exact (element.member blank name blank').lastMember
  | next spells others =>
    obtain ⟨blank, name, blank', before, spells, after⟩ := spells
    rw [Json.readBackMembers]
    have element := (readsAs_of_spells spells).element before after
    exact (element.member blank name blank').nextMember (membersReadAs_of_spells others)
end

theorem elementReadsAs_of_spells {value : Json} {chars : List Char}
    (spells : SpellsElement value chars) : ElementReadsAs chars value.readBack := by
  obtain ⟨before, spells, after⟩ := spells
  exact (readsAs_of_spells spells).element before after

/-- A text that stands for a value is read as this value. -/
theorem ofText?_of_spells {text : String} {value : Json}
    (spells : SpellsElement value text.toList) : ofText? text = some value.readBack := by
  obtain ⟨blanks, blank, reads⟩ := (elementReadsAs_of_spells spells).reads
  have read := reads (Nat.le_succ _) numberEnds_nil
  have nothing : skipBlanks (blanks ++ []) = [] := skipBlanks_append blank []
  rw [List.append_nil] at read
  rw [ofText?, ← String.length_toList, read]
  simp only [Option.bind_eq_bind, Option.bind_some, nothing, List.isEmpty_nil, ↓reduceIte]

end ReadJson

end LosslessSyntax
