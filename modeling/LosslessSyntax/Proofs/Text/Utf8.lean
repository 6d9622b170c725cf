import LosslessSyntax.Text.Decoding
import Mathlib.Data.List.Forall2

/-! # Bytes of characters

The bytes of a character are a lead byte and a byte in each of the ranges that belong to it
(`exists_lead`, `utf8EncodeChar_decodeChar`), so bytes begin a character exactly if they lie in the
first of these ranges (`begins_iff`). Bytes either are the bytes of a text, or they are cut behind the
longest text with which they begin, and a sequence stands there that is not well formed
(`readUtf8_encoded`, `exists_malformed_of_error`).
-/

namespace LosslessSyntax.Text

/-- The bytes of a text. -/
def encoded (text : List Char) : List UInt8 := text.flatMap String.utf8EncodeChar

@[simp] theorem encoded_nil : encoded [] = [] := rfl

@[simp] theorem encoded_cons (c : Char) (rest : List Char) :
    encoded (c :: rest) = String.utf8EncodeChar c ++ encoded rest := rfl

/-- A byte lies in each range. -/
def Within (ranges : List (UInt8 × UInt8)) (bytes : List UInt8) : Prop :=
  List.Forall₂ (fun range byte => range.1 ≤ byte ∧ byte ≤ range.2) ranges bytes

theorem toNat_val_ofNat {value : Nat} (valid : value.isValidChar) :
    (Char.ofNat value).val.toNat = value := by
  rw [Char.ofNat, dif_pos valid]
  rfl

theorem encode_one {a : UInt8} (lead : a.toNat ≤ 0x7f) :
    String.utf8EncodeChar (decodeChar a []) = [a] := by
  have value : (decodeChar a []).val.toNat = a.toNat := toNat_val_ofNat <| by
    simp only [leadBits, List.length_nil, List.foldl]
    omega
  rw [String.utf8EncodeChar, value]
  simp only [if_pos lead, UInt8.ofNat_toNat]

theorem encode_two {a b : UInt8} (lead : 0xc2 ≤ a.toNat ∧ a.toNat ≤ 0xdf)
    (second : 0x80 ≤ b.toNat ∧ b.toNat ≤ 0xbf) :
    String.utf8EncodeChar (decodeChar a [b]) = [a, b] := by
  have value : (decodeChar a [b]).val.toNat = a.toNat % 0x20 * 0x40 + b.toNat % 0x40 :=
    toNat_val_ofNat <| by
      simp only [leadBits, List.length_cons, List.length_nil, List.foldl]
      omega
  rw [String.utf8EncodeChar, value, if_neg (by omega), if_pos (by omega)]
  simp only [List.cons.injEq, and_true, ← UInt8.toNat_inj, UInt8.toNat_ofNat']
  omega

theorem encode_three {a b c : UInt8} (lead : 0xe0 ≤ a.toNat ∧ a.toNat ≤ 0xef)
    (second : 0x80 ≤ b.toNat ∧ b.toNat ≤ 0xbf) (third : 0x80 ≤ c.toNat ∧ c.toNat ≤ 0xbf)
    (overlong : a.toNat = 0xe0 → 0xa0 ≤ b.toNat) (surrogate : a.toNat = 0xed → b.toNat ≤ 0x9f) :
    String.utf8EncodeChar (decodeChar a [b, c]) = [a, b, c] := by
  have value : (decodeChar a [b, c]).val.toNat =
      (a.toNat % 0x10 * 0x40 + b.toNat % 0x40) * 0x40 + c.toNat % 0x40 :=
    toNat_val_ofNat <| by
      simp only [leadBits, List.length_cons, List.length_nil, List.foldl]
      omega
  rw [String.utf8EncodeChar, value, if_neg (by omega), if_neg (by omega), if_pos (by omega)]
  simp only [List.cons.injEq, and_true, ← UInt8.toNat_inj, UInt8.toNat_ofNat']
  omega

theorem encode_four {a b c d : UInt8} (lead : 0xf0 ≤ a.toNat ∧ a.toNat ≤ 0xf4)
    (second : 0x80 ≤ b.toNat ∧ b.toNat ≤ 0xbf) (third : 0x80 ≤ c.toNat ∧ c.toNat ≤ 0xbf)
    (fourth : 0x80 ≤ d.toNat ∧ d.toNat ≤ 0xbf)
    (overlong : a.toNat = 0xf0 → 0x90 ≤ b.toNat) (last : a.toNat = 0xf4 → b.toNat ≤ 0x8f) :
    String.utf8EncodeChar (decodeChar a [b, c, d]) = [a, b, c, d] := by
  have value : (decodeChar a [b, c, d]).val.toNat =
      ((a.toNat % 0x08 * 0x40 + b.toNat % 0x40) * 0x40 + c.toNat % 0x40) * 0x40 + d.toNat % 0x40 :=
    toNat_val_ofNat <| by
      simp only [leadBits, List.length_cons, List.length_nil, List.foldl]
      omega
  rw [String.utf8EncodeChar, value, if_neg (by omega), if_neg (by omega), if_neg (by omega)]
  simp only [List.cons.injEq, and_true, ← UInt8.toNat_inj, UInt8.toNat_ofNat']
  omega

/-- A lead byte and a byte in each of its ranges are the bytes of the character they are decoded
to. -/
theorem utf8EncodeChar_decodeChar {lead : UInt8} {ranges : List (UInt8 × UInt8)}
    {trail : List UInt8} (found : trailRanges? lead = some ranges) (within : Within ranges trail) :
    String.utf8EncodeChar (decodeChar lead trail) = lead :: trail := by
  simp only [trailRanges?, UInt8.le_iff_toNat_le, UInt8.lt_iff_toNat_lt, ← UInt8.toNat_inj,
    UInt8.reduceToNat] at found
  simp only [Within, UInt8.le_iff_toNat_le] at within
  split_ifs at found <;> cases found <;>
    simp only [List.forall₂_nil_left_iff, List.forall₂_cons_left_iff, UInt8.reduceToNat] at within
  -- The goals are in the order in which the lead byte is tested: by one, two, three and four bytes.
  case pos =>
    subst within
    exact encode_one ‹_›
  case pos =>
    obtain ⟨b, _, second, rfl, rfl⟩ := within
    exact encode_two (by omega) second
  case pos | pos | pos =>
    obtain ⟨b, _, second, ⟨c, _, third, rfl, rfl⟩, rfl⟩ := within
    apply encode_three <;> omega
  all_goals
    obtain ⟨b, _, second, ⟨c, _, third, ⟨d, _, fourth, rfl, rfl⟩, rfl⟩, rfl⟩ := within
    apply encode_four <;> omega

theorem trailRanges?_one {lead : UInt8} (one : lead.toNat ≤ 0x7f) : trailRanges? lead = some [] :=
  if_pos one

theorem trailRanges?_two {lead : UInt8} (two : 0xc2 ≤ lead.toNat ∧ lead.toNat ≤ 0xdf) :
    trailRanges? lead = some [(0x80, 0xbf)] := by
  simp only [trailRanges?, UInt8.le_iff_toNat_le, UInt8.lt_iff_toNat_lt, UInt8.reduceToNat]
  rw [if_neg (by omega), if_neg (by omega), if_pos (by omega)]

/-- The lowest lead byte of three bytes must not stand for a character of two, and one must not stand
for a surrogate. -/
theorem trailRanges?_three {lead : UInt8} (three : 0xe0 ≤ lead.toNat ∧ lead.toNat ≤ 0xef) :
    trailRanges? lead = some [(if lead.toNat = 0xe0 then 0xa0 else 0x80,
      if lead.toNat = 0xed then 0x9f else 0xbf), (0x80, 0xbf)] := by
  simp only [trailRanges?, UInt8.le_iff_toNat_le, UInt8.lt_iff_toNat_lt, ← UInt8.toNat_inj,
    UInt8.reduceToNat]
  rw [if_neg (by omega), if_neg (by omega), if_neg (by omega)]
  grind

/-- The lowest lead byte of four bytes must not stand for a character of three, and the highest not for
what is past the last character. -/
theorem trailRanges?_four {lead : UInt8} (four : 0xf0 ≤ lead.toNat ∧ lead.toNat ≤ 0xf4) :
    trailRanges? lead = some [(if lead.toNat = 0xf0 then 0x90 else 0x80,
      if lead.toNat = 0xf4 then 0x8f else 0xbf), (0x80, 0xbf), (0x80, 0xbf)] := by
  simp only [trailRanges?, UInt8.le_iff_toNat_le, UInt8.lt_iff_toNat_lt, ← UInt8.toNat_inj,
    UInt8.reduceToNat]
  rw [if_neg (by omega), if_neg (by omega), if_neg (by omega)]
  grind

/-- The bytes of a character are a lead byte and a byte in each of its ranges. -/
theorem exists_lead (c : Char) : ∃ lead ranges trail, String.utf8EncodeChar c = lead :: trail ∧
    trailRanges? lead = some ranges ∧ Within ranges trail := by
  have valid : c.toNat.isValidChar := c.valid
  have value : c.val.toNat = c.toNat := rfl
  rw [String.utf8EncodeChar, value]
  simp only [Within]
  split_ifs with one two three
  · refine ⟨_, _, _, rfl, trailRanges?_one ?_, .nil⟩
    rw [UInt8.toNat_ofNat']
    omega
  · refine ⟨_, _, _, rfl, trailRanges?_two ?_, .cons ?_ .nil⟩
    all_goals
      simp only [UInt8.le_iff_toNat_le, UInt8.toNat_ofNat', UInt8.reduceToNat]
      omega
  · refine ⟨_, _, _, rfl, trailRanges?_three ?_, .cons ?_ (.cons ?_ .nil)⟩
    · simp only [UInt8.toNat_ofNat']
      omega
    · simp only [UInt8.le_iff_toNat_le, UInt8.toNat_ofNat', UInt8.reduceToNat, apply_ite UInt8.toNat]
      -- No character is a surrogate, which is what the range behind 0xed leaves out.
      unfold Nat.isValidChar at valid
      constructor <;> split <;> omega
    · simp only [UInt8.le_iff_toNat_le, UInt8.toNat_ofNat', UInt8.reduceToNat]
      omega
  · refine ⟨_, _, _, rfl, trailRanges?_four ?_, .cons ?_ (.cons ?_ (.cons ?_ .nil))⟩
    · simp only [UInt8.toNat_ofNat']
      omega
    · simp only [UInt8.le_iff_toNat_le, UInt8.toNat_ofNat', UInt8.reduceToNat, apply_ite UInt8.toNat]
      constructor <;> split <;> omega
    all_goals
      simp only [UInt8.le_iff_toNat_le, UInt8.toNat_ofNat', UInt8.reduceToNat]
      omega

variable {lead : UInt8} {ranges front back : List (UInt8 × UInt8)} {bytes part : List UInt8}

theorem trailCount_le (ranges : List (UInt8 × UInt8)) (bytes : List UInt8) :
    trailCount ranges bytes ≤ ranges.length ∧ trailCount ranges bytes ≤ bytes.length := by
  fun_induction trailCount ranges bytes with
  | case1 low high ranges byte rest inside ih =>
    exact ⟨Nat.succ_le_succ ih.1, Nat.succ_le_succ ih.2⟩
  | case2 | case3 => exact ⟨Nat.zero_le _, Nat.zero_le _⟩

/-- The bytes that are counted lie in the first ranges. -/
theorem within_trailCount (ranges : List (UInt8 × UInt8)) (bytes : List UInt8) :
    Within (ranges.take (trailCount ranges bytes)) (bytes.take (trailCount ranges bytes)) := by
  fun_induction trailCount ranges bytes with
  | case1 low high ranges byte rest inside ih => exact .cons (by simpa using inside) ih
  | case2 | case3 => exact .nil

/-- All bytes are counted that lie in the first ranges. -/
theorem length_le_trailCount (within : Within front part) (back : List (UInt8 × UInt8))
    (bytes : List UInt8) : part.length ≤ trailCount (front ++ back) (part ++ bytes) := by
  induction within with
  | nil => exact Nat.zero_le _
  | cons inside _ ih =>
    rw [List.cons_append, List.cons_append, trailCount, if_pos (by simpa using inside)]
    exact Nat.succ_le_succ ih

theorem trailCount_append (within : Within ranges part) (bytes : List UInt8) :
    trailCount ranges (part ++ bytes) = ranges.length := by
  have all := length_le_trailCount within [] bytes
  rw [List.append_nil, ← within.length_eq] at all
  exact Nat.le_antisymm (trailCount_le _ _).1 all

theorem low_le_high (found : trailRanges? lead = some ranges) :
    ∀ range ∈ ranges, range.1 ≤ range.2 := by
  rw [trailRanges?] at found
  split_ifs at found <;> cases found <;> simp [UInt8.le_iff_toNat_le]

/-- Bytes begin a character exactly if those behind the first lie in the first ranges for it. -/
theorem begins_iff : (∃ c, lead :: part <+: String.utf8EncodeChar c) ↔
    ∃ front back, trailRanges? lead = some (front ++ back) ∧ Within front part := by
  constructor
  · rintro ⟨c, more, whole⟩
    obtain ⟨lead', ranges, trail, bytes, found, within⟩ := exists_lead c
    rw [bytes, List.cons_append] at whole
    obtain ⟨rfl, rfl⟩ := List.cons.inj whole
    refine ⟨ranges.take part.length, ranges.drop part.length, ?_,
      List.forall₂_take_append _ _ _ within⟩
    rw [List.take_append_drop, found]
  · rintro ⟨front, back, found, within⟩
    have ordered := low_le_high found
    have least : Within back (back.map Prod.fst) :=
      List.forall₂_map_right_iff.mpr <| List.forall₂_same.mpr fun range member =>
        ⟨UInt8.le_refl _, ordered range (List.mem_append_right _ member)⟩
    refine ⟨decodeChar lead (part ++ back.map Prod.fst), back.map Prod.fst, ?_⟩
    rw [utf8EncodeChar_decodeChar found (List.rel_append within least), List.cons_append]

/-- No character's bytes begin those of another. -/
theorem utf8EncodeChar_append_inj {c d : Char} {bytes bytes' : List UInt8}
    (same : String.utf8EncodeChar c ++ bytes = String.utf8EncodeChar d ++ bytes') :
    c = d ∧ bytes = bytes' := by
  have decoded (c : Char) (bytes : List UInt8) :
      (String.utf8EncodeChar c ++ bytes).toByteArray.utf8DecodeChar? 0 = some c := by
    rw [List.toByteArray_append, ByteArray.utf8DecodeChar?_utf8EncodeChar_append]
  have first := decoded c bytes
  rw [same, decoded] at first
  cases first
  exact ⟨rfl, List.append_cancel_left same⟩

/-- A sequence that stands before other bytes is not well formed: no character begins there, and it
is the longest beginning of a character there, or a byte with which none begins. -/
structure Malformed (invalid rest : List UInt8) : Prop where
  noChar : ∀ c, ¬ String.utf8EncodeChar c <+: invalid ++ rest
  size : 0 < invalid.length ∧ invalid.length ≤ 3
  begins : invalid.length = 1 ∨ ∃ c, invalid <+: String.utf8EncodeChar c
  longest : ∀ c part, part <+: invalid ++ rest → part <+: String.utf8EncodeChar c →
    part.length ≤ invalid.length

variable {invalid rest : List UInt8}

/-- The beginning of a character behind which no byte of it follows is shorter than four bytes. -/
theorem length_le_three (noChar : ∀ c, ¬ String.utf8EncodeChar c <+: invalid ++ rest) {c : Char}
    (begins : invalid <+: String.utf8EncodeChar c) : invalid.length ≤ 3 := by
  have shorter : invalid.length < (String.utf8EncodeChar c).length := by
    refine Nat.lt_of_le_of_ne begins.length_le fun same => noChar c ?_
    rw [← begins.eq_of_length same]
    exact List.prefix_append _ _
  have := Char.utf8Size_le_four c
  rw [String.length_utf8EncodeChar] at shorter
  omega

/-- A byte with which no character begins. -/
theorem malformed_of_none (none : trailRanges? lead = none) (rest : List UInt8) :
    Malformed [lead] rest := by
  have noBeginning (part : List UInt8) (c : Char) : ¬ lead :: part <+: String.utf8EncodeChar c := by
    intro begins
    obtain ⟨front, back, found, -⟩ := begins_iff.mp ⟨c, begins⟩
    cases none.symm.trans found
  refine ⟨fun c begins => ?_, ⟨Nat.one_pos, Nat.le_add_left 1 2⟩, .inl rfl,
    fun c part inside begins => ?_⟩
  · obtain ⟨first, ranges, trail, bytes, -⟩ := exists_lead c
    rw [bytes] at begins
    cases (List.cons_prefix_cons.mp begins).1
    exact noBeginning trail c (bytes ▸ List.prefix_refl _)
  · cases part with
    | nil => exact Nat.zero_le _
    | cons first part =>
      cases (List.cons_prefix_cons.mp inside).1
      exact absurd begins (noBeginning part c)

/-- A lead byte with fewer bytes in the ranges behind it than there are ranges. -/
theorem malformed_of_lt (found : trailRanges? lead = some ranges)
    (short : trailCount ranges bytes < ranges.length) :
    Malformed (lead :: bytes.take (trailCount ranges bytes))
      (bytes.drop (trailCount ranges bytes)) := by
  have counted : (bytes.take (trailCount ranges bytes)).length = trailCount ranges bytes :=
    List.length_take_of_le (trailCount_le _ _).2
  have begins : ∃ c, lead :: bytes.take (trailCount ranges bytes) <+: String.utf8EncodeChar c :=
    begins_iff.mpr ⟨ranges.take (trailCount ranges bytes), ranges.drop (trailCount ranges bytes),
      by rw [List.take_append_drop, found], within_trailCount ranges bytes⟩
  have noChar (c : Char) : ¬ String.utf8EncodeChar c <+:
      lead :: bytes.take (trailCount ranges bytes) ++ bytes.drop (trailCount ranges bytes) := by
    rw [List.cons_append, List.take_append_drop]
    obtain ⟨lead', ranges', trail, whole, found', within⟩ := exists_lead c
    rw [whole, List.cons_prefix_cons]
    rintro ⟨rfl, more, rfl⟩
    cases found.symm.trans found'
    rw [trailCount_append within] at short
    exact Nat.lt_irrefl _ short
  refine ⟨noChar, ⟨Nat.succ_pos _, ?_⟩, .inr begins, fun c part inside starts => ?_⟩
  · obtain ⟨c, begins⟩ := begins
    exact length_le_three noChar begins
  · rw [List.cons_append, List.take_append_drop] at inside
    rw [List.length_cons, counted]
    cases part with
    | nil => exact Nat.zero_le _
    | cons first part =>
      obtain ⟨rfl, more, rfl⟩ := List.cons_prefix_cons.mp inside
      obtain ⟨front, back, found', within⟩ := begins_iff.mp ⟨c, starts⟩
      cases found.symm.trans found'
      exact Nat.succ_le_succ (length_le_trailCount within back more)

/-- Where a sequence that is not well formed ends does not depend on how bytes are cut. -/
theorem Malformed.eq_of_append_eq {invalid' rest' : List UInt8} (malformed : Malformed invalid rest)
    (malformed' : Malformed invalid' rest') (same : invalid ++ rest = invalid' ++ rest') :
    invalid = invalid' ∧ rest = rest' := by
  have le {invalid invalid' rest rest' : List UInt8} (malformed : Malformed invalid rest)
      (malformed' : Malformed invalid' rest') (same : invalid ++ rest = invalid' ++ rest') :
      invalid.length ≤ invalid'.length := by
    rcases malformed.begins with one | ⟨c, begins⟩
    · rw [one]
      exact malformed'.size.1
    · exact malformed'.longest c invalid (same ▸ List.prefix_append _ _) begins
  exact List.append_inj same
    (Nat.le_antisymm (le malformed malformed' same) (le malformed' malformed same.symm))

/-- Bytes begin with no longer text than the one behind which a sequence is not well formed. -/
theorem Malformed.longest_text (malformed : Malformed invalid rest) {text other : List Char}
    (begins : encoded other <+: encoded text ++ (invalid ++ rest)) :
    encoded other <+: encoded text := by
  induction text generalizing other with
  | nil =>
    cases other with
    | nil => exact List.nil_prefix
    | cons c other => exact absurd ((List.prefix_append _ _).trans begins) (malformed.noChar c)
  | cons c text ih =>
    cases other with
    | nil => exact List.nil_prefix
    | cons d other =>
      obtain ⟨more, whole⟩ := begins
      simp only [encoded_cons, List.append_assoc] at whole
      obtain ⟨rfl, rest⟩ := utf8EncodeChar_append_inj whole
      exact (List.prefix_append_right_inj _).mpr (ih ⟨more, rest⟩)

/-- Where the bytes of a character stand, all ranges of its lead byte are found. -/
theorem exists_counted (c : Char) (bytes : List UInt8) : ∃ lead ranges rest,
    String.utf8EncodeChar c ++ bytes = lead :: rest ∧ trailRanges? lead = some ranges ∧
      trailCount ranges rest = ranges.length ∧ decodeChar lead (rest.take ranges.length) = c ∧
      rest.drop ranges.length = bytes := by
  obtain ⟨lead, ranges, trail, whole, found, within⟩ := exists_lead c
  have decoded : decodeChar lead trail = c := by
    have same := (utf8EncodeChar_decodeChar found within).trans whole.symm
    exact (utf8EncodeChar_append_inj (congrArg (· ++ []) same)).1
  refine ⟨lead, ranges, trail ++ bytes, by rw [whole, List.cons_append], found,
    trailCount_append within bytes, ?_, ?_⟩
  · rw [within.length_eq, List.take_left, decoded]
  · rw [within.length_eq, List.drop_left]

/-- The bytes of a text are read as this text. -/
theorem readUtf8_encoded (text : List Char) : readUtf8 (encoded text) = .ok text := by
  induction text with
  | nil => rw [encoded_nil, readUtf8]
  | cons c text ih =>
    obtain ⟨lead, ranges, rest, whole, found, count, decoded, behind⟩ :=
      exists_counted c (encoded text)
    rw [encoded_cons, whole, readUtf8, found]
    simp only [count, Nat.lt_irrefl, if_false, behind, ih, decoded]

/-- If there is a byte in each range behind a lead byte, these are the bytes of a character. -/
theorem utf8EncodeChar_taken (found : trailRanges? lead = some ranges)
    (long : ¬ trailCount ranges bytes < ranges.length) :
    String.utf8EncodeChar (decodeChar lead (bytes.take (trailCount ranges bytes))) =
      lead :: bytes.take (trailCount ranges bytes) := by
  have within := within_trailCount ranges bytes
  rw [List.take_of_length_le (Nat.not_lt.mp long)] at within
  exact utf8EncodeChar_decodeChar found within

theorem eq_encoded_of_ok {text : List Char} (read : readUtf8 bytes = .ok text) :
    bytes = encoded text := by
  fun_induction readUtf8 bytes generalizing text
  case case1 =>
    cases read
    rfl
  case case2 | case3 | case5 => cases read
  case case4 lead bytes ranges found count long text read' ih =>
    cases read
    rw [encoded_cons, utf8EncodeChar_taken found long, ← ih read', List.cons_append,
      List.take_append_drop]

/-- If bytes are not a text, they are a text before a sequence that is not well formed, and the fault
says where this sequence stands and what is behind it. -/
theorem exists_malformed_of_error {fault : Utf8Fault} (stuck : readUtf8 bytes = .error fault) :
    ∃ text invalid rest, bytes = encoded text ++ (invalid ++ rest) ∧ Malformed invalid rest ∧
      fault.validUpTo = (encoded text).length ∧
      fault.length.getD (invalid ++ rest).length = invalid.length := by
  fun_induction readUtf8 bytes generalizing fault
  case case1 | case4 => cases stuck
  case case2 lead bytes none =>
    cases stuck
    exact ⟨[], [lead], bytes, rfl, malformed_of_none none bytes, rfl, rfl⟩
  case case3 lead bytes ranges found count short =>
    cases stuck
    refine ⟨[], lead :: bytes.take count, bytes.drop count, ?_, malformed_of_lt found short, rfl, ?_⟩
    · rw [encoded_nil, List.nil_append, List.cons_append, List.take_append_drop]
    · have inside : count ≤ bytes.length := (trailCount_le ranges bytes).2
      rw [List.cons_append, List.take_append_drop, List.length_cons, List.length_cons,
        List.length_take_of_le inside]
      split
      · rfl
      · -- The bytes end within the sequence, so that it takes all of them.
        rw [Option.getD_none]
        omega
  case case5 lead bytes ranges found count long fault' stuck' ih =>
    cases stuck
    obtain ⟨text, invalid, rest, whole, malformed, before, length⟩ := ih stuck'
    refine ⟨decodeChar lead (bytes.take count) :: text, invalid, rest, ?_, malformed, ?_, length⟩
    · rw [encoded_cons, utf8EncodeChar_taken found long, List.append_assoc, ← whole, List.cons_append,
        List.take_append_drop]
    · rw [encoded_cons, utf8EncodeChar_taken found long, List.length_append, ← before,
        List.length_cons, List.length_take_of_le (trailCount_le ranges bytes).2]

end LosslessSyntax.Text
