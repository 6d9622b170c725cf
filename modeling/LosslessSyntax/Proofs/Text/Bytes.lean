import LosslessSyntax.Text.Edit
import LosslessSyntax.Token.Basic

/-! # Cutting texts

A text is cut at an offset in one way only (`eq_of_byteLength_eq`), and both ways of cutting find it
(`splitBytes?_of_append`, `splitWithin_of_append`). An edit that applies cuts the old text into what
stands before it, what it replaces and what comes after (`TextEdit.Applied`).
-/

namespace LosslessSyntax

namespace Text

theorem byteLength_toList (text : String) : byteLength text.toList = text.utf8ByteSize := by
  have whole (cs : List Char) : byteLength cs = (String.ofList cs).utf8ByteSize := by
    induction cs with
    | nil => rfl
    | cons c cs ih =>
      rw [← List.singleton_append, String.ofList_append, String.utf8ByteSize_append, ← ih]
      simp
  rw [whole, String.ofList_toList]

@[simp] theorem utf8ByteSize_ofList (text : List Char) :
    (String.ofList text).utf8ByteSize = byteLength text := by
  rw [← byteLength_toList, String.toList_ofList]

theorem byteLength_pos {text : List Char} (some : text ≠ []) : 0 < byteLength text := by
  cases text with
  | nil => exact absurd rfl some
  | cons c rest =>
    have := Char.utf8Size_pos c
    rw [byteLength_cons]
    omega

theorem eq_nil_of_byteLength {text : List Char} (none : byteLength text = 0) : text = [] := by
  cases text with
  | nil => rfl
  | cons c rest => exact absurd (byteLength_pos (List.cons_ne_nil c rest)) (by omega)

theorem splitBytes?_of_append (front back : List Char) :
    splitBytes? (byteLength front) (front ++ back) = some (front, back) := by
  induction front with
  | nil => cases back <;> rfl
  | cons c front ih =>
    have := Char.utf8Size_pos c
    obtain ⟨count, size⟩ : ∃ count, byteLength (c :: front) = count + 1 :=
      ⟨byteLength (c :: front) - 1, by rw [byteLength_cons]; omega⟩
    have left : count + 1 - c.utf8Size = byteLength front := by
      rw [byteLength_cons] at size
      omega
    rw [size, List.cons_append, splitBytes?, if_pos (by rw [byteLength_cons] at size; omega), left,
      ih]
    rfl

theorem slice?_of_append {text : String} {front part back : List Char}
    (whole : text.toList = front ++ (part ++ back)) :
    slice? text (byteLength front) (byteLength front + byteLength part) =
      some (String.ofList part) := by
  rw [slice?, if_neg (Nat.not_lt.mpr (Nat.le_add_right ..)), whole, Nat.add_sub_cancel_left]
  simp only [splitBytes?_of_append, Option.bind_eq_bind, Option.bind_some]

/-- The part between two offsets is what stands between two parts of these lengths. -/
theorem slice?_eq_some_iff {text part : String} {start stop : Nat} :
    slice? text start stop = some part ↔ ∃ front back,
      text.toList = front ++ (part.toList ++ back) ∧ byteLength front = start ∧
        start + byteLength part.toList = stop := by
  constructor
  · intro slice
    rw [slice?] at slice
    split at slice
    · exact nomatch slice
    case isFalse order =>
    obtain ⟨⟨front, rest⟩, first, slice⟩ := Option.bind_eq_some_iff.mp slice
    obtain ⟨⟨between, back⟩, second, slice⟩ := Option.bind_eq_some_iff.mp slice
    obtain rfl := Option.some.inj slice
    have length := byteLength_of_splitBytes? second
    refine ⟨front, back, ?_, byteLength_of_splitBytes? first, ?_⟩
    · rw [String.toList_ofList, splitBytes?_append second, splitBytes?_append first]
    · rw [String.toList_ofList, length]
      omega
  · rintro ⟨front, back, whole, rfl, rfl⟩
    rw [slice?_of_append whole, String.ofList_toList]

/-- The first bytes of a text are a beginning of it. -/
theorem exists_of_slice?_zero {text part : String} {stop : Nat}
    (slice : slice? text 0 stop = some part) :
    ∃ back, text.toList = part.toList ++ back ∧ byteLength part.toList = stop := by
  obtain ⟨front, back, whole, none, length⟩ := slice?_eq_some_iff.mp slice
  rw [eq_nil_of_byteLength none, List.nil_append] at whole
  rw [Nat.zero_add] at length
  exact ⟨back, whole, length⟩

/-- A part that is not empty starts before the end of the text. -/
theorem lt_of_slice? {text part : String} {start stop : Nat}
    (slice : slice? text start stop = some part) (nonempty : part.toList ≠ []) :
    start < text.utf8ByteSize := by
  obtain ⟨front, back, whole, rfl, -⟩ := slice?_eq_some_iff.mp slice
  have := byteLength_pos nonempty
  rw [← byteLength_toList, whole, byteLength_append, byteLength_append]
  omega

theorem slice?_front (front back : String) :
    slice? (front ++ back) 0 front.utf8ByteSize = some front := by
  have slice := @slice?_of_append (front ++ back) [] front.toList back.toList (by simp)
  rwa [byteLength_nil, Nat.zero_add, byteLength_toList, String.ofList_toList] at slice

theorem slice?_back (front back : String) :
    slice? (front ++ back) front.utf8ByteSize (front ++ back).utf8ByteSize = some back := by
  have slice := @slice?_of_append (front ++ back) front.toList back.toList [] (by simp)
  rwa [byteLength_toList, byteLength_toList, ← String.utf8ByteSize_append,
    String.ofList_toList] at slice

theorem splitWithin_of_append (front back : List Char) :
    splitWithin (byteLength front) (front ++ back) = (front, back) := by
  induction front with
  | nil =>
    cases back with
    | nil => rfl
    | cons c back =>
      have := Char.utf8Size_pos c
      rw [byteLength_nil, List.nil_append, splitWithin, if_neg (by omega)]
  | cons c front ih =>
    rw [byteLength_cons, List.cons_append, splitWithin, if_pos (Nat.le_add_right ..),
      Nat.add_sub_cancel_left, ih]

/-- The last character that still fits is found again when the text changes behind the next one. -/
theorem splitWithin_onward {count : Nat} {front known back : List Char} (nonempty : known ≠ [])
    (cut : splitWithin count (front ++ (known ++ back)) = (front, known ++ back))
    (back' : List Char) :
    splitWithin count (front ++ (known ++ back')) = (front, known ++ back') := by
  obtain ⟨d, more, rfl⟩ := List.exists_cons_of_ne_nil nonempty
  induction front generalizing count with
  | nil =>
    simp only [List.nil_append, List.cons_append, splitWithin] at cut ⊢
    split at cut
    case isTrue => exact absurd (Prod.mk.inj cut).1 (List.cons_ne_nil _ _)
    case isFalse large => rw [if_neg large]
  | cons c front ih =>
    simp only [List.cons_append, splitWithin] at cut ih ⊢
    split at cut
    case isTrue fits =>
      obtain ⟨inner, rest⟩ := Prod.mk.inj cut
      rw [if_pos fits, ih (Prod.ext (List.cons.inj inner).2 rest)]
    case isFalse => exact absurd (Prod.mk.inj cut).1.symm (List.cons_ne_nil _ _)

/-- A text is cut at an offset in one way only. -/
theorem eq_of_byteLength_eq {front front' back back' : List Char}
    (text : front ++ back = front' ++ back') (length : byteLength front = byteLength front') :
    front = front' ∧ back = back' := by
  have split := splitBytes?_of_append front back
  rw [text, length, splitBytes?_of_append] at split
  exact ⟨(congrArg Prod.fst (Option.some.inj split)).symm,
    (congrArg Prod.snd (Option.some.inj split)).symm⟩

/-- Of two cuts of a text, the earlier one also cuts what is before the later one. -/
theorem exists_between_of_le {front front' back back' : List Char}
    (text : front ++ back = front' ++ back') (earlier : byteLength front ≤ byteLength front') :
    ∃ between, front' = front ++ between ∧ back = between ++ back' := by
  rcases List.append_eq_append_iff.mp text with ⟨between, first, second⟩ | ⟨between, first, second⟩
  · exact ⟨between, first, second⟩
  · obtain rfl : between = [] := by
      rw [first, byteLength_append] at earlier
      exact eq_nil_of_byteLength (by omega)
    exact ⟨[], by rw [first, List.append_nil, List.append_nil], second.symm⟩

end Text

namespace Position

@[simp] theorem after_nil (position : Position) : position.after [] = position := rfl

theorem after_append (position : Position) (front back : List Char) :
    position.after (front ++ back) = (position.after front).after back :=
  List.foldl_append

@[simp] theorem offset_after (position : Position) (text : List Char) :
    (position.after text).offset = position.offset + Text.byteLength text := by
  induction text generalizing position with
  | nil => rfl
  | cons c rest ih =>
    have step : (position.advance c).offset = position.offset + c.utf8Size := by
      rw [advance]
      split <;> rfl
    change ((position.advance c).after rest).offset = _
    rw [ih, step, Text.byteLength_cons, Nat.add_assoc]

theorem offset_after_start (text : List Char) : (start.after text).offset = Text.byteLength text := by
  rw [offset_after]
  exact Nat.zero_add _

end Position

namespace TextEdit

open Text

/-- An edit replaces what stands between two parts of a text. -/
structure Applied (edit : TextEdit) (text newText : String) (front replaced back : List Char) :
    Prop where
  old : text.toList = front ++ replaced ++ back
  new : newText.toList = front ++ edit.inserted.toList ++ back
  offset : byteLength front = edit.offset
  deleted : byteLength replaced = edit.deleted

variable {edit : TextEdit} {text newText : String}

theorem isBoundary_iff {offset : Nat} :
    isBoundary text offset = true ↔
      ∃ front back, text.toList = front ++ back ∧ byteLength front = offset := by
  rw [isBoundary, Option.isSome_iff_exists]
  constructor
  · rintro ⟨⟨front, back⟩, split⟩
    exact ⟨front, back, (splitBytes?_append split).symm, byteLength_of_splitBytes? split⟩
  · rintro ⟨front, back, whole, rfl⟩
    exact ⟨(front, back), by rw [whole, splitBytes?_of_append]⟩

theorem le_of_isBoundary {offset : Nat} (boundary : isBoundary text offset = true) :
    offset ≤ text.utf8ByteSize := by
  obtain ⟨front, back, whole, rfl⟩ := isBoundary_iff.mp boundary
  rw [← byteLength_toList, whole, byteLength_append]
  exact Nat.le_add_right _ _

theorem isBoundary_utf8ByteSize (text : String) : isBoundary text text.utf8ByteSize = true :=
  isBoundary_iff.mpr ⟨text.toList, [], (List.append_nil _).symm, byteLength_toList text⟩

/-- An edit that applies cuts the text at both ends of its range. -/
theorem exists_applied (applies : edit.apply text = .ok newText) :
    ∃ front replaced back, edit.Applied text newText front replaced back := by
  rw [apply] at applies
  split at applies
  case h_1 => exact nomatch applies
  case h_2 sound =>
  rw [fault?] at sound
  split at sound
  · exact nomatch sound
  split at sound
  · exact nomatch sound
  case isFalse starts =>
  split at sound
  · exact nomatch sound
  case isFalse stops =>
  rw [Bool.not_eq_true', Bool.not_eq_false] at starts stops
  obtain ⟨front, rest, whole, offset⟩ := isBoundary_iff.mp starts
  obtain ⟨through, back, whole', stop⟩ := isBoundary_iff.mp stops
  obtain ⟨replaced, rfl, rfl⟩ := exists_between_of_le (whole.symm.trans whole')
    (by rw [offset, stop, oldStop]; omega)
  have text_eq : newText.toList = front ++ edit.inserted.toList ++ back := by
    rw [← Except.ok.inj applies, splice, ← offset, ← stop, whole, splitBytes?_of_append,
      ← List.append_assoc, splitBytes?_of_append, String.toList_ofList]
  refine ⟨front, replaced, back, whole', text_eq, offset, ?_⟩
  rw [byteLength_append, oldStop] at stop
  omega

/-- A text of which a part is replaced. -/
theorem apply_of_split {text : String} {front replaced back : List Char}
    (split : text.toList = front ++ (replaced ++ back)) (inserted : String) :
    (⟨byteLength front, byteLength replaced, inserted⟩ : TextEdit).apply text =
      .ok (String.ofList (front ++ inserted.toList ++ back)) := by
  have split' : text.toList = front ++ replaced ++ back := by rw [split, List.append_assoc]
  have stop : byteLength front + byteLength replaced =
      byteLength (front ++ replaced) := (byteLength_append front replaced).symm
  have starts : isBoundary text (byteLength front) = true :=
    isBoundary_iff.mpr ⟨front, replaced ++ back, split, rfl⟩
  have stops : isBoundary text (byteLength (front ++ replaced)) = true :=
    isBoundary_iff.mpr ⟨front ++ replaced, back, split', rfl⟩
  have within : ¬ text.utf8ByteSize < byteLength (front ++ replaced) :=
    Nat.not_lt.mpr (le_of_isBoundary stops)
  have spliced : splice ⟨byteLength front, byteLength replaced, inserted⟩ text =
      String.ofList (front ++ inserted.toList ++ back) := by
    rw [splice, oldStop, stop, split, splitBytes?_of_append, ← List.append_assoc,
      splitBytes?_of_append]
  rw [apply, fault?, oldStop, stop, if_neg within, starts, stops, spliced]
  rfl

theorem apply_eq_error_iff {fault : Failure} :
    edit.apply text = .error fault ↔ edit.fault? text = some fault := by
  rw [apply]
  split <;> simp_all

namespace Applied

variable {front replaced back : List Char} (applied : edit.Applied text newText front replaced back)
include applied

theorem byteLength_old : byteLength (front ++ replaced) = edit.oldStop := by
  rw [byteLength_append, applied.offset, applied.deleted, oldStop]

theorem delta_eq :
    edit.delta = (byteLength edit.inserted.toList : Int) - (byteLength replaced : Int) := by
  rw [delta, byteLength_toList, applied.deleted]

theorem offset_le : edit.offset ≤ text.utf8ByteSize := by
  rw [← byteLength_toList, applied.old, ← applied.offset]
  simp only [byteLength_append]
  omega

theorem size_eq : (newText.utf8ByteSize : Int) = text.utf8ByteSize + edit.delta := by
  rw [applied.delta_eq, ← byteLength_toList, ← byteLength_toList, applied.old, applied.new]
  simp only [byteLength_append]
  omega

/-- Characters before an edit stay where they are. -/
theorem isBoundary_before {offset : Nat} (within : offset ≤ edit.offset)
    (boundary : isBoundary text offset = true) : isBoundary newText offset = true := by
  obtain ⟨left, right, whole, rfl⟩ := isBoundary_iff.mp boundary
  rw [applied.old, List.append_assoc] at whole
  obtain ⟨between, rfl, -⟩ := exists_between_of_le whole.symm (by rwa [applied.offset])
  refine isBoundary_iff.mpr ⟨left, between ++ edit.inserted.toList ++ back, ?_, rfl⟩
  rw [applied.new]
  simp only [List.append_assoc]

/-- Characters behind an edit move with the text. -/
theorem isBoundary_behind {offset offset' : Nat} (behind : edit.oldStop ≤ offset)
    (moved : (offset : Int) + edit.delta = offset') (boundary : isBoundary text offset = true) :
    isBoundary newText offset' = true := by
  obtain ⟨left, right, whole, rfl⟩ := isBoundary_iff.mp boundary
  have delta := applied.delta_eq
  rw [applied.old] at whole
  obtain ⟨between, rfl, rfl⟩ := exists_between_of_le whole (by rwa [applied.byteLength_old])
  refine isBoundary_iff.mpr ⟨front ++ edit.inserted.toList ++ between, right, ?_, ?_⟩
  · rw [applied.new]
    simp only [List.append_assoc]
  · simp only [byteLength_append] at moved ⊢
    omega

/-- An edit within a part of a text changes that part only, and not its first character if that is
before the edit. -/
theorem exists_part {before part after : List Char} (whole : text.toList = before ++ (part ++ after))
    (starts : byteLength before ≤ edit.offset)
    (stops : edit.oldStop ≤ byteLength before + byteLength part) :
    ∃ part', newText.toList = before ++ (part' ++ after) ∧
      (byteLength part' : Int) = byteLength part + edit.delta ∧
      (byteLength before < edit.offset → part'.head? = part.head?) := by
  have length := applied.byteLength_old
  have delta := applied.delta_eq
  have offset := applied.offset
  rw [byteLength_append, offset] at length
  rw [applied.old, List.append_assoc] at whole
  obtain ⟨left, rfl, inner⟩ := exists_between_of_le whole.symm (by rw [offset]; exact starts)
  rw [← List.append_assoc] at inner
  rw [byteLength_append] at offset
  obtain ⟨right, rfl, rfl⟩ := exists_between_of_le inner.symm (by rw [byteLength_append]; omega)
  refine ⟨left ++ edit.inserted.toList ++ right, ?_, ?_, fun later => ?_⟩
  · rw [applied.new]
    simp only [List.append_assoc]
  · simp only [byteLength_append]
    omega
  · cases left with
    | nil =>
      rw [byteLength_nil] at offset
      omega
    | cons => rfl

end Applied

end TextEdit

end LosslessSyntax
