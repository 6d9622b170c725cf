import LosslessSyntax.Text.Quoted
import Mathlib.Tactic.SplitIfs

/-! # Reading quoted text

What `Text.quoteChar` writes for a character can be read back, whatever comes after it
(`Text.readQuoted?_quoteChar`): a character that stands for itself is no backslash, and the digits of
a code point end at the closing brace. So two texts are not quoted alike (`Text.quoteChars_inj`), and
no quoted text has a line break in it (`Text.newline_notMem_quoteChars`).
-/

namespace LosslessSyntax.Text

/-- The value of a digit of `hexDigits`. -/
def hexDigitValue (c : Char) : Nat := if c.isDigit then c.toNat - 48 else c.toNat - 87

/-- The number that some digits of `hexDigits` write. -/
def ofHexDigits (digits : List Char) : Nat :=
  digits.foldl (fun number c => 16 * number + hexDigitValue c) 0

theorem hexDigitValue_digitChar {digit : Nat} (small : digit < 16) :
    hexDigitValue digit.digitChar = digit := by
  have all : ∀ digit < 16, hexDigitValue digit.digitChar = digit := by decide
  exact all digit small

/-- A number is its last digit behind the digits of the sixteenth of it. -/
theorem hexDigits_eq (number : Nat) : hexDigits number =
    if number < 16 then [number.digitChar]
    else hexDigits (number / 16) ++ [(number % 16).digitChar] :=
  Nat.toDigits_eq_if (by decide)

theorem ofHexDigits_hexDigits (number : Nat) : ofHexDigits (hexDigits number) = number := by
  induction number using Nat.strongRecOn with
  | ind number ih =>
    rw [hexDigits_eq]
    split
    case isTrue small =>
      change 16 * 0 + hexDigitValue number.digitChar = number
      rw [hexDigitValue_digitChar small, Nat.mul_zero, Nat.zero_add]
    case isFalse large =>
      have front : ofHexDigits (hexDigits (number / 16)) = number / 16 := ih _ (by omega)
      rw [ofHexDigits] at front
      rw [ofHexDigits, List.foldl_append, front, List.foldl_cons, List.foldl_nil,
        hexDigitValue_digitChar (Nat.mod_lt _ (by decide)), Nat.div_add_mod]

theorem exists_of_mem_hexDigits {number : Nat} {c : Char} (member : c ∈ hexDigits number) :
    ∃ digit < 16, c = digit.digitChar := by
  induction number using Nat.strongRecOn with
  | ind number ih =>
    rw [hexDigits_eq] at member
    split at member
    case isTrue small => exact ⟨number, small, List.mem_singleton.mp member⟩
    case isFalse large =>
      rcases List.mem_append.mp member with front | last
      · exact ih _ (by omega) front
      · exact ⟨_, Nat.mod_lt _ (by decide), List.mem_singleton.mp last⟩

theorem ne_of_mem_hexDigits {number : Nat} {c mark : Char} (member : c ∈ hexDigits number)
    (other : ∀ digit < 16, digit.digitChar ≠ mark) : c ≠ mark := by
  obtain ⟨digit, small, rfl⟩ := exists_of_mem_hexDigits member
  exact other digit small

/-- The character that a backslash and another character stand for. -/
def escaped? : Char → Option Char
  | '"' => some '"'
  | '\\' => some '\\'
  | 't' => some '\t'
  | 'r' => some '\r'
  | 'n' => some '\n'
  | '0' => some '\x00'
  | _ => none

/-- Reads the digits of a code point up to the closing brace, and what comes after it. -/
def readCodePoint (text : List Char) : Char × List Char :=
  (Char.ofNat (ofHexDigits (text.takeWhile (· != '\x7d'))), (text.dropWhile (· != '\x7d')).tail)

/-- Reads one character of quoted text, and what comes after it. -/
def readQuoted? : List Char → Option (Char × List Char)
  | [] => none
  | '\\' :: 'u' :: '\x7b' :: rest => some (readCodePoint rest)
  | '\\' :: mark :: rest => (escaped? mark).map (·, rest)
  | c :: rest => some (c, rest)

theorem readCodePoint_hexDigits (c : Char) (rest : List Char) :
    readCodePoint (hexDigits c.toNat ++ '\x7d' :: rest) = (c, rest) := by
  have inside : ∀ digit ∈ hexDigits c.toNat, (digit != '\x7d') = true := fun digit member =>
    bne_iff_ne.mpr (ne_of_mem_hexDigits member (by decide))
  rw [readCodePoint, List.takeWhile_append_of_pos inside, List.dropWhile_append_of_pos inside,
    List.takeWhile_cons_of_neg (by decide), List.dropWhile_cons_of_neg (by decide), List.append_nil,
    ofHexDigits_hexDigits, Char.ofNat_toNat, List.tail_cons]

theorem readQuoted?_of_ne {c : Char} (plain : c ≠ '\\') (rest : List Char) :
    readQuoted? (c :: rest) = some (c, rest) := by
  rw [readQuoted?]
  · rintro _ rfl
    exact absurd rfl plain
  · rintro _ _ rfl
    exact absurd rfl plain

/-- A character is written with a backslash before a mark, as itself, or by its code point. -/
theorem quoteChar_cases (c : Char) :
    (∃ mark, mark ≠ 'u' ∧ escaped? mark = some c ∧ quoteChar c = ['\\', mark]) ∨
      (c ≠ '\\' ∧ c ≠ '\n' ∧ quoteChar c = [c]) ∨ quoteChar c = escapeCodePoint c := by
  simp only [quoteChar, beq_iff_eq]
  split_ifs with quotation backslash tab carriage newline null alone
  · exact .inl ⟨'"', by decide, by rw [quotation]; rfl, rfl⟩
  · exact .inl ⟨'\\', by decide, by rw [backslash]; rfl, rfl⟩
  · exact .inl ⟨'t', by decide, by rw [tab]; rfl, rfl⟩
  · exact .inl ⟨'r', by decide, by rw [carriage]; rfl, rfl⟩
  · exact .inl ⟨'n', by decide, by rw [newline]; rfl, rfl⟩
  · exact .inl ⟨'0', by decide, by rw [null]; rfl, rfl⟩
  · exact .inr (.inl ⟨backslash, newline, rfl⟩)
  · exact .inr (.inr rfl)

/-- What is written for a character is read as that character. -/
theorem readQuoted?_quoteChar (c : Char) (rest : List Char) :
    readQuoted? (quoteChar c ++ rest) = some (c, rest) := by
  rcases quoteChar_cases c with ⟨mark, other, stands, written⟩ | ⟨plain, -, written⟩ | written
  · rw [written, List.cons_append, List.singleton_append, readQuoted?, stands, Option.map_some]
    rintro _ rfl
    exact absurd rfl other
  · rw [written]
    exact readQuoted?_of_ne plain rest
  · rw [written, escapeCodePoint, List.append_assoc]
    exact congrArg some (readCodePoint_hexDigits c rest)

theorem flatMap_quoteChar_inj {text other : List Char}
    (same : text.flatMap quoteChar = other.flatMap quoteChar) : text = other := by
  induction text generalizing other with
  | nil =>
    cases other with
    | nil => rfl
    | cons c other =>
      have read := readQuoted?_quoteChar c (other.flatMap quoteChar)
      rw [← List.flatMap_cons, ← same] at read
      exact nomatch read
  | cons c text ih =>
    have read := readQuoted?_quoteChar c (text.flatMap quoteChar)
    rw [← List.flatMap_cons, same] at read
    cases other with
    | nil => exact nomatch read
    | cons d other =>
      rw [List.flatMap_cons, readQuoted?_quoteChar, Option.some.injEq, Prod.mk.injEq] at read
      obtain ⟨rfl, others⟩ := read
      rw [ih others.symm]

/-- Two texts are not quoted alike. -/
theorem quoteChars_inj {text other : List Char} (same : quoteChars text = quoteChars other) :
    text = other := by
  rw [quoteChars, quoteChars, List.cons_append, List.cons_append, List.cons.injEq] at same
  exact flatMap_quoteChar_inj (List.append_cancel_right same.2)

theorem newline_notMem_quoteChar (c : Char) : '\n' ∉ quoteChar c := by
  intro member
  rcases quoteChar_cases c with ⟨mark, -, stands, written⟩ | ⟨-, newline, written⟩ | written
  · rw [written, List.mem_cons, List.mem_singleton] at member
    obtain rfl := member.resolve_left (by decide)
    exact nomatch stands
  · rw [written, List.mem_singleton] at member
    exact newline member.symm
  · have digits : '\n' ∉ hexDigits c.toNat := fun digit => ne_of_mem_hexDigits digit (by decide) rfl
    simp [written, escapeCodePoint, digits] at member

/-- Quoted text stays on its line. -/
theorem newline_notMem_quoteChars (text : List Char) : '\n' ∉ quoteChars text := by
  simp only [quoteChars, List.cons_append, List.mem_cons, List.mem_append, List.mem_flatMap,
    List.not_mem_nil, or_false]
  rintro (mark | ⟨c, -, member⟩ | mark)
  · exact absurd mark (by decide)
  · exact newline_notMem_quoteChar c member
  · exact absurd mark (by decide)

end LosslessSyntax.Text
