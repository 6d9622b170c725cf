import LosslessSyntax.Proofs.Text.Bytes

/-! # What an edit does

An edit is refused exactly if its range is not one of the text (`TextEdit.Misfit`): it ends behind
the text, or an end of it lies inside a character. Otherwise the text before and behind the range
stays as it is, and the edit that puts the replaced text back restores the old text
(`TextEdit.apply_exact`). Such an edit applies because both ends of what was inserted lie between
characters, whatever was inserted (`TextEdit.Applied.undo`).
-/

namespace LosslessSyntax

open Text

namespace Text

variable {text : String} {offset : Nat}

/-- An offset lies inside a character of a text. -/
def SplitsCharacter (text : String) (offset : Nat) : Prop :=
  ∃ front c back, text.toList = front ++ c :: back ∧
    byteLength front < offset ∧ offset < byteLength front + c.utf8Size

/-- An offset in a text lies between two parts of it, or inside a character. -/
theorem exists_cut_or_split (text : List Char) {offset : Nat} (within : offset ≤ byteLength text) :
    (∃ front back, text = front ++ back ∧ byteLength front = offset) ∨
      ∃ front c back, text = front ++ c :: back ∧
        byteLength front < offset ∧ offset < byteLength front + c.utf8Size := by
  induction text generalizing offset with
  | nil => exact .inl ⟨[], [], rfl, (Nat.le_zero.mp within).symm⟩
  | cons c rest ih =>
    rw [byteLength_cons] at within
    rcases Nat.eq_zero_or_pos offset with rfl | positive
    · exact .inl ⟨[], c :: rest, rfl, rfl⟩
    rcases Nat.lt_or_ge offset c.utf8Size with inside | behind
    · refine .inr ⟨[], c, rest, rfl, positive, ?_⟩
      rwa [byteLength_nil, Nat.zero_add]
    -- The character is before the offset: what is left of the offset is one of the rest.
    have within : offset - c.utf8Size ≤ byteLength rest := by omega
    rcases ih within with
      ⟨front, back, rfl, length⟩ | ⟨front, d, back, rfl, after, before⟩
    · refine .inl ⟨c :: front, back, rfl, ?_⟩
      rw [byteLength_cons]
      omega
    · refine .inr ⟨c :: front, d, back, rfl, ?_, ?_⟩ <;> rw [byteLength_cons] <;> omega

/-- No offset between two parts of a text is inside a character. -/
theorem not_splitsCharacter (boundary : isBoundary text offset = true) :
    ¬ SplitsCharacter text offset := by
  rintro ⟨front, c, back, whole, after, before⟩
  obtain ⟨front', back', whole', rfl⟩ := TextEdit.isBoundary_iff.mp boundary
  obtain ⟨between, rfl, rest⟩ :=
    exists_between_of_le (whole.symm.trans whole') (Nat.le_of_lt after)
  rw [byteLength_append] at after before
  cases between with
  | nil => exact absurd after (Nat.lt_irrefl _)
  | cons d between =>
    obtain ⟨rfl, -⟩ := List.cons.inj rest
    rw [byteLength_cons] at before
    omega

theorem isBoundary_eq_false_iff (within : offset ≤ text.utf8ByteSize) :
    isBoundary text offset = false ↔ SplitsCharacter text offset := by
  constructor
  · intro none
    rw [← byteLength_toList] at within
    rcases exists_cut_or_split text.toList within with cut | split
    · exact absurd (TextEdit.isBoundary_iff.mpr cut) (Bool.eq_false_iff.mp none)
    · exact split
  · intro splits
    exact Bool.eq_false_iff.mpr fun boundary => not_splitsCharacter boundary splits

theorem isBoundary_eq_true_iff (within : offset ≤ text.utf8ByteSize) :
    isBoundary text offset = true ↔ ¬ SplitsCharacter text offset := by
  rw [← isBoundary_eq_false_iff within, Bool.not_eq_false]

end Text

namespace TextEdit

variable {edit : TextEdit} {text newText : String}

/-- The reasons for which an edit is refused. -/
inductive Misfit (edit : TextEdit) (text : String) : Failure → Prop where
  /-- The end of its range cannot be written, or is behind the end of the text. -/
  | outside (late : greatestOffset < edit.oldStop ∨ text.utf8ByteSize < edit.oldStop) :
      Misfit edit text
        (.editOutOfBounds edit.offset (min edit.oldStop greatestOffset) text.utf8ByteSize)
  /-- The beginning of its range is inside a character. -/
  | start (within : edit.oldStop ≤ text.utf8ByteSize) (splits : SplitsCharacter text edit.offset) :
      Misfit edit text (.notCharBoundary edit.offset)
  /-- Only the end of its range is inside a character. -/
  | stop (within : edit.oldStop ≤ text.utf8ByteSize)
      (starts : ¬ SplitsCharacter text edit.offset) (splits : SplitsCharacter text edit.oldStop) :
      Misfit edit text (.notCharBoundary edit.oldStop)

theorem Misfit.fault?_eq {fault : Failure} (held : text.utf8ByteSize ≤ greatestOffset)
    (misfit : edit.Misfit text fault) : edit.fault? text = some fault := by
  have before : edit.offset ≤ edit.oldStop := Nat.le_add_right _ _
  cases misfit with
  | outside late =>
    have outside : text.utf8ByteSize < edit.oldStop := late.elim (Nat.lt_of_le_of_lt held) id
    rw [fault?, if_pos outside]
  | start within splits =>
    have starts := (isBoundary_eq_false_iff (Nat.le_trans before within)).mpr splits
    rw [fault?, if_neg (Nat.not_lt.mpr within), starts]
    rfl
  | stop within whole splits =>
    have starts := (isBoundary_eq_true_iff (Nat.le_trans before within)).mpr whole
    have stops := (isBoundary_eq_false_iff within).mpr splits
    rw [fault?, if_neg (Nat.not_lt.mpr within), starts, stops]
    rfl

theorem misfit_of_fault? {fault : Failure} (found : edit.fault? text = some fault) :
    edit.Misfit text fault := by
  rw [fault?] at found
  split at found
  case isTrue outside => exact Option.some.inj found ▸ .outside (.inr outside)
  case isFalse within =>
  have within := Nat.not_lt.mp within
  have before : edit.offset ≤ text.utf8ByteSize := Nat.le_trans (Nat.le_add_right _ _) within
  split at found
  case isTrue starts =>
    have splits := (isBoundary_eq_false_iff before).mp ((Bool.not_eq_true' _).mp starts)
    exact Option.some.inj found ▸ .start within splits
  case isFalse starts =>
  rw [Bool.not_eq_true', Bool.not_eq_false] at starts
  have whole := (isBoundary_eq_true_iff before).mp starts
  split at found
  case isTrue stops =>
    have splits := (isBoundary_eq_false_iff within).mp ((Bool.not_eq_true' _).mp stops)
    exact Option.some.inj found ▸ .stop within whole splits
  case isFalse => cases found

/-- The edit that puts a text back in the place of what an edit inserted. -/
def undo (edit : TextEdit) (replaced : String) : TextEdit :=
  ⟨edit.offset, edit.inserted.utf8ByteSize, replaced⟩

theorem oldStop_undo (edit : TextEdit) (replaced : String) :
    (edit.undo replaced).oldStop = edit.newStop := rfl

theorem delta_undo (edit : TextEdit) (replaced : String) :
    (edit.undo replaced).delta = (replaced.utf8ByteSize : Int) - edit.inserted.utf8ByteSize := rfl

namespace Applied

variable {front replaced back : List Char}

theorem apply_eq (applied : edit.Applied text newText front replaced back) :
    edit.apply text = .ok newText := by
  have spliced := apply_of_split (applied.old.trans (List.append_assoc ..)) edit.inserted
  rwa [applied.offset, applied.deleted, ← applied.new, String.ofList_toList] at spliced

/-- Whatever was inserted, it is a range of the new text. -/
theorem undo (applied : edit.Applied text newText front replaced back) :
    (edit.undo (String.ofList replaced)).Applied newText text front edit.inserted.toList back where
  old := applied.new
  new := by rw [TextEdit.undo, String.toList_ofList, applied.old]
  offset := applied.offset
  deleted := byteLength_toList _

theorem delta_undo (applied : edit.Applied text newText front replaced back) :
    (edit.undo (String.ofList replaced)).delta = -edit.delta := by
  rw [TextEdit.delta_undo, utf8ByteSize_ofList, applied.deleted, delta, Int.neg_sub]

theorem slice?_replaced (applied : edit.Applied text newText front replaced back) :
    slice? text edit.offset edit.oldStop = some (String.ofList replaced) := by
  rw [oldStop, ← applied.offset, ← applied.deleted]
  exact slice?_of_append (applied.old.trans (List.append_assoc ..))

/-- What is before an edit stays. -/
theorem slice?_before (applied : edit.Applied text newText front replaced back) {part : String}
    {start stop : Nat} (within : stop ≤ edit.offset) (slice : slice? text start stop = some part) :
    slice? newText start stop = some part := by
  obtain ⟨left, right, whole, rfl, rfl⟩ := slice?_eq_some_iff.mp slice
  rw [applied.old, List.append_assoc, ← List.append_assoc left] at whole
  obtain ⟨between, rfl, -⟩ := exists_between_of_le whole.symm
    (by rwa [byteLength_append, applied.offset])
  refine slice?_eq_some_iff.mpr ⟨left, between ++ (edit.inserted.toList ++ back), ?_, rfl, rfl⟩
  rw [applied.new]
  simp only [List.append_assoc]

/-- What is behind an edit moves with the end of the text. -/
theorem slice?_behind (applied : edit.Applied text newText front replaced back) {part : String}
    {start stop start' stop' : Nat} (behind : edit.oldStop ≤ start)
    (starts : (start' : Int) = start + edit.delta) (stops : (stop' : Int) = stop + edit.delta)
    (slice : slice? text start stop = some part) : slice? newText start' stop' = some part := by
  have delta := applied.delta_eq
  obtain ⟨left, right, whole, rfl, rfl⟩ := slice?_eq_some_iff.mp slice
  rw [applied.old] at whole
  obtain ⟨between, rfl, rfl⟩ := exists_between_of_le whole (by rwa [applied.byteLength_old])
  refine slice?_eq_some_iff.mpr
    ⟨front ++ edit.inserted.toList ++ between, right, ?_, ?_, ?_⟩
  · rw [applied.new]
    simp only [List.append_assoc]
  · simp only [byteLength_append] at starts ⊢
    omega
  · simp only [byteLength_append] at starts stops
    omega

end Applied

/-- What an edit makes of a text. -/
structure Exact (edit : TextEdit) (text newText : String) : Prop where
  /-- The text grows by the difference. -/
  size : (newText.utf8ByteSize : Int) = text.utf8ByteSize + edit.delta
  /-- What is inserted stands at the offset. -/
  inserted : slice? newText edit.offset edit.newStop = some edit.inserted
  /-- Before the offset, both texts have the same characters at the same places. -/
  before : ∀ start stop, stop ≤ edit.offset → slice? newText start stop = slice? text start stop
  /-- Behind the range, both texts have the same characters, moved by the difference. -/
  behind : ∀ start stop start' stop' : Nat, edit.oldStop ≤ start →
    (start' : Int) = start + edit.delta → (stop' : Int) = stop + edit.delta →
      slice? newText start' stop' = slice? text start stop
  /-- The edit that puts the replaced text back applies, and restores the old text. -/
  undone : ∃ replaced, slice? text edit.offset edit.oldStop = some replaced ∧
    (edit.undo replaced).apply newText = .ok text

theorem Applied.exact {front replaced back : List Char}
    (applied : edit.Applied text newText front replaced back) : edit.Exact text newText where
  size := applied.size_eq
  inserted := by
    have slice := applied.undo.slice?_replaced
    rwa [String.ofList_toList] at slice
  before start stop within :=
    Option.ext fun _ => ⟨applied.undo.slice?_before within, applied.slice?_before within⟩
  behind start stop start' stop' behind starts stops := by
    have back : (edit.undo (String.ofList replaced)).oldStop ≤ start' := by
      rw [delta] at starts
      rw [oldStop] at behind
      rw [oldStop_undo, newStop]
      omega
    refine Option.ext fun _ => ⟨applied.undo.slice?_behind back ?_ ?_,
      applied.slice?_behind behind starts stops⟩
    · rw [applied.delta_undo, starts, Int.add_neg_cancel_right]
    · rw [applied.delta_undo, stops, Int.add_neg_cancel_right]
  undone := ⟨_, applied.slice?_replaced, applied.undo.apply_eq⟩

/-- Edits are exact. Of a text whose length can be written, an edit is refused with a failure if and
only if the failure is a reason for it: the range ends too late, or one of its ends is inside a
character. An edit without such a reason applies, changes nothing outside its range, and can be
undone. -/
theorem apply_exact (edit : TextEdit) (text : String) (held : text.utf8ByteSize ≤ greatestOffset) :
    (∀ fault, edit.apply text = .error fault ↔ edit.Misfit text fault) ∧
      ((∀ fault, ¬ edit.Misfit text fault) →
        ∃ newText, edit.apply text = .ok newText ∧ edit.Exact text newText) := by
  have refused (fault : Failure) : edit.apply text = .error fault ↔ edit.Misfit text fault :=
    apply_eq_error_iff.trans ⟨misfit_of_fault?, Misfit.fault?_eq held⟩
  refine ⟨refused, fun fits => ?_⟩
  cases applies : edit.apply text with
  | error fault => exact absurd ((refused fault).mp applies) (fits fault)
  | ok newText =>
    obtain ⟨front, replaced, back, applied⟩ := exists_applied applies
    exact ⟨newText, rfl, applied.exact⟩

/-- Between a character of two bytes and one of three, and inside the former. -/
theorem apply_exact_between_characters :
    "aé€b".utf8ByteSize ≤ greatestOffset ∧
      (⟨2, 4, ""⟩ : TextEdit).apply "aé€b" = .error (.notCharBoundary 2) ∧
      ∃ newText, (⟨1, 2, "xß"⟩ : TextEdit).apply "aé€b" = .ok newText ∧
        (⟨1, 2, "xß"⟩ : TextEdit).Exact "aé€b" newText := by
  have held : "aé€b".utf8ByteSize ≤ greatestOffset := by decide
  have splits : SplitsCharacter "aé€b" 2 :=
    ⟨['a'], 'é', ['€', 'b'], by decide, by decide, by decide⟩
  have sound : (⟨1, 2, "xß"⟩ : TextEdit).fault? "aé€b" = none := by decide
  refine ⟨held, ((apply_exact _ _ held).1 _).mpr (.start (by decide) splits),
    (apply_exact _ _ held).2 fun fault misfit => ?_⟩
  exact nomatch sound.symm.trans (misfit.fault?_eq held)

end TextEdit

end LosslessSyntax
