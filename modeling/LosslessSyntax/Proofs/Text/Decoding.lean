import LosslessSyntax.Proofs.Diagnostic.Addition
import LosslessSyntax.Proofs.Scanner.Partition
import LosslessSyntax.Proofs.Text.Utf8

/-! # Decoding

Any bytes are a text, then a sequence that is not well formed, then a text again, and so on
(`Factored`). Decoding keeps the texts, puts a replacement in the place of each sequence and reports
it where the replacement stands (`decodeSource_factored`), whether it goes from text to text or from
character to character (`decodeSource_eq_decodeBytes`).
-/

namespace LosslessSyntax.Text

open Diagnostics

/-- Bytes are a text, and then sequences that are not well formed, each with the text behind it. Each
text is the longest with which the bytes begin that are left. -/
inductive Factored : List UInt8 → List Char → List (List UInt8 × List Char) → Prop where
  | text (text : List Char) : Factored (encoded text) text []
  | invalid {text next : List Char} {invalid rest : List UInt8}
      {parts : List (List UInt8 × List Char)} (malformed : Malformed invalid rest)
      (longest : ∀ other, encoded other <+: encoded text ++ (invalid ++ rest) →
        encoded other <+: encoded text)
      (more : Factored rest next parts) :
      Factored (encoded text ++ (invalid ++ rest)) text ((invalid, next) :: parts)

/-- A text and the texts of some parts, with a replacement for the sequence before each. -/
def joined (text : List Char) (parts : List (List UInt8 × List Char)) : List Char :=
  text ++ parts.flatMap fun part => replacement :: part.2

/-- The reports on the sequences before some parts, where their replacements stand. -/
def reportsOn (text : List Char) (parts : List (List UInt8 × List Char)) : List Diagnostic :=
  (List.range parts.length).map fun k => replacedAt (byteLength (joined text (parts.take k)))

variable {text first next : List Char} {invalid rest bytes : List UInt8}
  {parts : List (List UInt8 × List Char)}

@[simp] theorem joined_nil (text : List Char) : joined text [] = text := List.append_nil text

@[simp] theorem joined_cons (text : List Char) (part : List UInt8 × List Char)
    (parts : List (List UInt8 × List Char)) :
    joined text (part :: parts) = joined (text ++ replacement :: part.2) parts := by
  rw [joined, joined, List.flatMap_cons, List.append_assoc]

@[simp] theorem reportsOn_cons (text : List Char) (part : List UInt8 × List Char)
    (parts : List (List UInt8 × List Char)) :
    reportsOn text (part :: parts) =
      replacedAt (byteLength text) :: reportsOn (text ++ replacement :: part.2) parts := by
  rw [reportsOn, reportsOn, List.length_cons, List.range_succ_eq_map, List.map_cons, List.map_map]
  rw [List.take_zero, joined_nil]
  refine congrArg _ (List.map_congr_left fun k _ => ?_)
  rw [Function.comp_apply, List.take_succ_cons, joined_cons]

theorem add_ofList (list : List Diagnostic) (d : Diagnostic) :
    ((ofList list).add d).2 = ofList (list ++ [d]) := by
  rw [(ordered_ofList list).add_eq, ← ofList_extend]
  rfl

/-- Where bytes are not a text, a run takes over the text before a sequence that is not well formed,
and goes on behind this sequence. -/
theorem exists_factor_of_error {fault : Utf8Fault} (stuck : readUtf8 bytes = .error fault) :
    ∃ text invalid, bytes = encoded text ++ (invalid ++ fault.behind bytes) ∧
      Malformed invalid (fault.behind bytes) ∧
      (readUtf8 (bytes.take fault.validUpTo)).toOption.getD [] = text := by
  obtain ⟨text, invalid, rest, rfl, malformed, before, length⟩ := exists_malformed_of_error stuck
  have behind : fault.behind (encoded text ++ (invalid ++ rest)) = rest := by
    rw [Utf8Fault.behind, before, List.drop_left, length, List.drop_left]
  rw [behind, before, List.take_left, readUtf8_encoded]
  exact ⟨text, invalid, rfl, malformed, rfl⟩

/-- A run takes its bytes apart, and to what it is given it appends texts, replacements and reports. -/
theorem decodeOnto_eq (before : List Char) (list : List Diagnostic) (bytes : List UInt8) :
    ∃ first parts, Factored bytes first parts ∧ decodeOnto before (ofList list) bytes =
      (String.ofList (joined (before ++ first) parts),
        ofList (list ++ reportsOn (before ++ first) parts)) := by
  generalize held : ofList list = reports
  fun_induction decodeOnto before reports bytes generalizing list with
  | case1 before reports bytes valid read =>
    refine ⟨valid, [], ?_, ?_⟩
    · rw [eq_encoded_of_ok read]
      exact .text valid
    · rw [joined_nil, ← held]
      exact congrArg (Prod.mk _) (congrArg ofList (List.append_nil list).symm)
  | case2 before reports bytes fault stuck valid before' ih =>
    obtain ⟨text, invalid, whole, malformed, taken⟩ := exists_factor_of_error stuck
    obtain ⟨next, parts, factored, run⟩ := ih (list ++ [replacedAt (byteLength before')])
      (by rw [← held, add_ofList])
    refine ⟨text, (invalid, next) :: parts, ?_, ?_⟩
    · rw [whole]
      exact .invalid malformed (fun _ => malformed.longest_text) factored
    · have taken : before' = before ++ text := congrArg (before ++ ·) taken
      rw [run, joined_cons, reportsOn_cons, taken]
      simp only [List.append_assoc, List.cons_append, List.nil_append]

theorem byteLength_le_of_mem_reportsOn {d : Diagnostic} (member : d ∈ reportsOn text parts) :
    byteLength text ≤ d.span.start := by
  obtain ⟨k, -, rfl⟩ := List.mem_map.mp member
  change _ ≤ byteLength (joined text (parts.take k))
  rw [joined, byteLength_append]
  exact Nat.le_add_right _ _

theorem pairwise_start_reportsOn (text : List Char) (parts : List (List UInt8 × List Char)) :
    (reportsOn text parts).Pairwise fun d e => d.span.start < e.span.start := by
  induction parts generalizing text with
  | nil => exact .nil
  | cons part parts ih =>
    rw [reportsOn_cons]
    refine .cons (fun d member => ?_) (ih _)
    have behind := byteLength_le_of_mem_reportsOn member
    have := Char.utf8Size_pos replacement
    rw [byteLength_append, byteLength_cons] at behind
    change byteLength text < d.span.start
    omega

/-- A report covers a replacement. -/
theorem slice?_of_mem_reportsOn {d : Diagnostic} (member : d ∈ reportsOn text parts) :
    slice? (String.ofList (joined text parts)) d.span.start d.span.stop = some "\uFFFD" := by
  obtain ⟨k, inside, rfl⟩ := List.mem_map.mp member
  have inside := List.mem_range.mp inside
  have whole : joined text parts = joined text (parts.take k) ++ [replacement] ++
      joined parts[k].2 (parts.drop (k + 1)) := by
    conv_lhs => rw [← List.take_append_drop k parts, List.drop_eq_getElem_cons inside]
    simp only [joined, List.flatMap_append, List.flatMap_cons, List.append_assoc,
      List.cons_append, List.nil_append]
  have cut : (String.ofList (joined text parts)).toList = joined text (parts.take k) ++
      ([replacement] ++ joined parts[k].2 (parts.drop (k + 1))) := by
    rw [String.toList_ofList, whole, List.append_assoc]
  exact slice?_of_append cut

theorem bytePieces_encoded_append (text : List Char) (bytes : List UInt8) :
    bytePieces (encoded text ++ bytes) = text.map .char ++ bytePieces bytes := by
  induction text with
  | nil => rfl
  | cons c text ih =>
    obtain ⟨lead, ranges, rest, whole, found, count, decoded, behind⟩ :=
      exists_counted c (encoded text ++ bytes)
    rw [encoded_cons, List.append_assoc, whole, bytePieces, found]
    simp only [count, if_true, behind, ih, decoded, List.map_cons, List.cons_append]

theorem Malformed.bytePieces_append (malformed : Malformed invalid rest) :
    bytePieces (invalid ++ rest) = .invalid invalid :: bytePieces rest := by
  obtain ⟨lead, bytes, whole⟩ := List.exists_cons_of_length_pos <|
    Nat.lt_of_lt_of_le malformed.size.1 (List.prefix_append invalid rest).length_le
  rw [whole, bytePieces]
  split
  case h_1 none =>
    obtain ⟨rfl, rfl⟩ := malformed.eq_of_append_eq (malformed_of_none none bytes) whole
    rfl
  case h_2 ranges found =>
    by_cases short : trailCount ranges bytes < ranges.length
    · obtain ⟨rfl, rfl⟩ := malformed.eq_of_append_eq (malformed_of_lt found short) <| by
        rw [whole, List.cons_append, List.take_append_drop]
      simp only [if_neg (Nat.ne_of_lt short)]
    · refine absurd ?_ (malformed.noChar (decodeChar lead (bytes.take (trailCount ranges bytes))))
      rw [whole, utf8EncodeChar_taken found short, List.cons_prefix_cons]
      exact ⟨rfl, List.take_prefix _ _⟩

/-- The pieces of bytes are the characters of their texts and the sequences between these. -/
theorem Factored.bytePieces_eq (factored : Factored bytes first parts) :
    bytePieces bytes = first.map .char ++
      parts.flatMap fun part => .invalid part.1 :: part.2.map .char := by
  induction factored with
  | text text => rw [← List.append_nil (encoded text), bytePieces_encoded_append, bytePieces]; rfl
  | invalid malformed _ _ ih =>
    rw [bytePieces_encoded_append, malformed.bytePieces_append, ih, List.flatMap_cons,
      List.cons_append]

theorem invalidReports_append (text : List Char) (offset : Nat) (pieces : List BytePiece) :
    invalidReports offset (text.map .char ++ pieces) =
      invalidReports (offset + byteLength text) pieces := by
  induction text generalizing offset with
  | nil => rfl
  | cons c text ih =>
    rw [byteLength_cons, ← Nat.add_assoc, ← ih]
    rfl

theorem invalidReports_eq (before first : List Char) (parts : List (List UInt8 × List Char)) :
    invalidReports (byteLength before) (first.map .char ++
      parts.flatMap fun part => .invalid part.1 :: part.2.map .char) =
        reportsOn (before ++ first) parts := by
  induction parts generalizing before first with
  | nil => exact invalidReports_append first (byteLength before) []
  | cons part parts ih =>
    have replaced := ih (before ++ first ++ [replacement]) part.2
    rw [byteLength_append, byteLength_append, byteLength_cons, byteLength_nil, Nat.add_zero] at replaced
    rw [invalidReports_append, List.flatMap_cons, List.cons_append, reportsOn_cons, invalidReports]
    simp only [BytePiece.decoded, replacedAt]
    rw [replaced, byteLength_append, List.append_assoc (before ++ first)]
    rfl

/-- Decoding part by part yields what decoding piece by piece yields. -/
theorem decodeSource_eq_decodeBytes (bytes : List UInt8) : decodeSource bytes = decodeBytes bytes := by
  obtain ⟨first, parts, factored, run⟩ := decodeOnto_eq [] [] bytes
  have decoded : (bytePieces bytes).map BytePiece.decoded = joined first parts := by
    rw [factored.bytePieces_eq, joined]
    simp [List.map_flatMap, Function.comp_def, BytePiece.decoded]
  have reports : invalidReports 0 (bytePieces bytes) = reportsOn first parts := by
    rw [factored.bytePieces_eq]
    exact invalidReports_eq [] first parts
  rw [decodeBytes, decoded, reports]
  exact run

/-- Decoding is exact and reports everything that it replaces. Any bytes are a text and then sequences
of at most three bytes that are not well formed, each with a text behind it, where each text is the
longest with which the remaining bytes begin. They are decoded to these texts with a replacement for
each sequence, and for each sequence in turn there is one report, which covers its replacement. So
nothing is reported exactly if the bytes are those of a text, and then they are decoded to this
text. -/
theorem decodeSource_factored (bytes : List UInt8) :
    (∃ first parts, Factored bytes first parts ∧
      (decodeSource bytes).1.toList = joined first parts ∧
      (decodeSource bytes).2.items = reportsOn first parts ∧
      ∀ d ∈ (decodeSource bytes).2.items,
        slice? (decodeSource bytes).1 d.span.start d.span.stop = some "\uFFFD") ∧
    ((decodeSource bytes).2.items = [] ↔ ∃ text, bytes = encoded text) ∧
    ∀ text : String, decodeSource (encoded text.toList) = (text, .empty) := by
  have valid (text : String) : decodeSource (encoded text.toList) = (text, .empty) := by
    rw [decodeSource, decodeOnto]
    split
    case h_1 valid read =>
      cases (readUtf8_encoded text.toList).symm.trans read
      rw [List.nil_append, String.ofList_toList]
    case h_2 fault stuck => cases (readUtf8_encoded text.toList).symm.trans stuck
  obtain ⟨first, parts, factored, run⟩ := decodeOnto_eq [] [] bytes
  have held := items_ofList_of_starts (pairwise_start_reportsOn first parts)
  simp only [List.nil_append] at run
  change decodeSource bytes = _ at run
  refine ⟨⟨first, parts, factored, ?_, ?_, ?_⟩, ⟨fun none => ?_, ?_⟩, valid⟩
  · rw [run, String.toList_ofList]
  · rw [run, held]
  · rw [run, held]
    exact fun d => slice?_of_mem_reportsOn
  · rw [run, held] at none
    cases factored with
    | text => exact ⟨first, rfl⟩
    | invalid => cases (reportsOn_cons _ _ _).symm.trans none
  · rintro ⟨text, rfl⟩
    rw [← String.toList_ofList (l := text), valid]
    rfl

end LosslessSyntax.Text
