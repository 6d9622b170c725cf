import LosslessSyntax.Proofs.Scanner.Restart
import LosslessSyntax.Text.LineIndex

/-! # Positions of tokens

The line of a place is one more than the line feeds before it, and its column one more than the
characters behind the last of them. A scanner counts both on its way through the text
(`Position.line_after`, `Position.column_after`), while a line index looks up where the line begins
and counts the characters from there (`LineIndex.lineColumn_append`). So a token stands where the
line index says (`Scanner.position_eq_lineColumn`).
-/

namespace LosslessSyntax

open Text

/-- A text is a part that no line goes beyond, and the beginning of a line. -/
theorem Text.exists_line_start (text : List Char) :
    ∃ earlier line, text = earlier ++ line ∧ '\n' ∉ line ∧
      (earlier = [] ∨ ∃ front, earlier = front ++ ['\n']) := by
  induction text with
  | nil => exact ⟨[], [], rfl, List.not_mem_nil, .inl rfl⟩
  | cons c rest ih =>
    obtain ⟨earlier, line, rfl, plain, rfl | ⟨front, rfl⟩⟩ := ih
    · by_cases feed : c = '\n'
      · exact ⟨[c], line, rfl, plain, .inr ⟨[], by rw [feed, List.nil_append]⟩⟩
      · exact ⟨[], c :: line, rfl, by simp [Ne.symm feed, plain], .inl rfl⟩
    · exact ⟨c :: (front ++ ['\n']), line, rfl, plain, .inr ⟨c :: front, rfl⟩⟩

/-- A text is the rest of a line, and what is left from its line feed on. -/
theorem Text.exists_line_end (text : List Char) :
    ∃ line later, text = line ++ later ∧ '\n' ∉ line ∧
      (later = [] ∨ ∃ more, later = '\n' :: more) := by
  induction text with
  | nil => exact ⟨[], [], rfl, List.not_mem_nil, .inl rfl⟩
  | cons c rest ih =>
    obtain ⟨line, later, rfl, plain, ends⟩ := ih
    by_cases feed : c = '\n'
    · exact ⟨[], c :: (line ++ later), rfl, List.not_mem_nil, .inr ⟨_, by rw [feed]⟩⟩
    · exact ⟨c :: line, later, rfl, by simp [Ne.symm feed, plain], ends⟩

namespace Position

/-- Each line feed begins a line. -/
theorem line_after (position : Position) (text : List Char) :
    (position.after text).line = position.line + text.count '\n' := by
  induction text generalizing position with
  | nil => rfl
  | cons c rest ih =>
    rw [after, List.foldl_cons, ← after, ih, advance, List.count_cons]
    by_cases feed : c = '\n'
    · simp only [feed, beq_self_eq_true, ↓reduceIte]
      omega
    · simp only [beq_iff_eq, feed, ↓reduceIte]
      omega

/-- Within a line, each character takes a column. -/
theorem column_after (position : Position) {text : List Char} (plain : '\n' ∉ text) :
    (position.after text).column = position.column + text.length := by
  induction text generalizing position with
  | nil => rfl
  | cons c rest ih =>
    obtain ⟨other, plain⟩ := not_or.mp (mt List.mem_cons.mpr plain)
    rw [after, List.foldl_cons, ← after, ih _ plain, advance, if_neg (by simpa using Ne.symm other),
      List.length_cons, Nat.add_comm rest.length, ← Nat.add_assoc]

/-- Behind a line feed, columns begin anew. -/
theorem column_after_feed (position : Position) (front : List Char) :
    (position.after (front ++ ['\n'])).column = 1 := by
  rw [after_append]
  rfl

theorem column_after_line_start {earlier : List Char}
    (begins : earlier = [] ∨ ∃ front, earlier = front ++ ['\n']) :
    (start.after earlier).column = 1 := by
  rcases begins with rfl | ⟨front, rfl⟩
  · rfl
  · exact column_after_feed _ front

end Position

namespace LineIndex

theorem startsAfter_append (offset : Nat) (front back : List Char) :
    startsAfter offset (front ++ back) =
      startsAfter offset front ++ startsAfter (offset + byteLength front) back := by
  induction front generalizing offset with
  | nil => rfl
  | cons c front ih =>
    rw [List.cons_append, startsAfter, startsAfter, ih, byteLength_cons, Nat.add_assoc]
    split <;> rfl

theorem length_startsAfter (offset : Nat) (text : List Char) :
    (startsAfter offset text).length = text.count '\n' := by
  induction text generalizing offset with
  | nil => rfl
  | cons c rest ih =>
    rw [startsAfter, List.count_cons]
    split <;> simp [ih]

theorem startsAfter_plain (offset : Nat) {text : List Char} (plain : '\n' ∉ text) :
    startsAfter offset text = [] := by
  rw [← List.length_eq_zero_iff, length_startsAfter, List.count_eq_zero]
  exact plain

/-- Lines begin behind the characters that they follow. -/
theorem mem_startsAfter {offset start : Nat} {text : List Char}
    (member : start ∈ startsAfter offset text) :
    offset < start ∧ start ≤ offset + byteLength text := by
  induction text generalizing offset with
  | nil => cases member
  | cons c rest ih =>
    have size := c.utf8Size_pos
    have later (member : start ∈ startsAfter (offset + c.utf8Size) rest) :
        offset < start ∧ start ≤ offset + (c.utf8Size + byteLength rest) := by
      have := ih member
      omega
    rw [startsAfter] at member
    rw [byteLength_cons]
    split at member
    · rcases List.mem_cons.mp member with rfl | member
      · omega
      · exact later member
    · exact later member

/-- Of the lines of a text, those of a front part begin within that part. -/
theorem takeWhile_starts (front back : List Char) :
    (0 :: startsAfter 0 (front ++ back)).takeWhile (· ≤ byteLength front) =
      0 :: startsAfter 0 front := by
  have inside : ∀ start ∈ 0 :: startsAfter 0 front, decide (start ≤ byteLength front) = true := by
    refine List.forall_mem_cons.mpr ⟨decide_eq_true (Nat.zero_le _), fun start member => ?_⟩
    have := (mem_startsAfter member).2
    exact decide_eq_true (by omega)
  have outside : (startsAfter (0 + byteLength front) back).takeWhile (· ≤ byteLength front) = [] := by
    cases later : startsAfter (0 + byteLength front) back with
    | nil => rfl
    | cons first others =>
      have := (mem_startsAfter (later ▸ List.mem_cons_self)).1
      exact List.takeWhile_cons_of_neg fun within => absurd (of_decide_eq_true within) (by omega)
  rw [startsAfter_append, ← List.cons_append, List.takeWhile_append_of_pos inside, outside,
    List.append_nil]

/-- The line that a place is in begins behind the last line feed before it. -/
theorem getLastD_starts {earlier : List Char}
    (ends : earlier = [] ∨ ∃ front, earlier = front ++ ['\n']) :
    (0 :: startsAfter 0 earlier).getLastD 0 = byteLength earlier := by
  rcases ends with rfl | ⟨front, rfl⟩
  · rfl
  · rw [startsAfter_append, ← List.cons_append, byteLength_append, Nat.zero_add]
    exact List.getLastD_concat ..

/-- The line index finds the line and the column that counting leads to. -/
theorem lineColumn_append {text : String} {before back : List Char}
    (whole : text.toList = before ++ back) :
    (ofText text).lineColumn text (byteLength before) =
      ((Position.start.after before).line, (Position.start.after before).column) := by
  have within : min (byteLength before) text.utf8ByteSize = byteLength before := by
    rw [← byteLength_toList, whole, byteLength_append]
    omega
  obtain ⟨earlier, line, rfl, plain, ends⟩ := exists_line_start before
  have passed : (0 :: startsAfter 0 text.toList).takeWhile (· ≤ byteLength (earlier ++ line)) =
      0 :: startsAfter 0 earlier := by
    rw [whole, takeWhile_starts, startsAfter_append, startsAfter_plain _ plain, List.append_nil]
  have slice : slice? text (byteLength earlier) (byteLength (earlier ++ line)) =
      some (String.ofList line) := by
    rw [byteLength_append]
    exact slice?_of_append (by rw [whole, List.append_assoc])
  have lines : (earlier ++ line).count '\n' = earlier.count '\n' := by
    rw [List.count_append, List.count_eq_zero.mpr plain, Nat.add_zero]
  simp only [ofText, lineColumn, within, passed, getLastD_starts ends, slice]
  rw [Position.line_after, lines, Position.after_append, Position.column_after _ plain,
    Position.column_after_line_start ends, List.length_cons, length_startsAfter, String.length_ofList]
  exact congrArg₂ Prod.mk (Nat.add_comm _ _) (Nat.add_comm _ _)

end LineIndex

namespace Scanner

variable {s : Scanner}

theorem position_of_next? {token : Token} {next : Scanner} (found : s.next? = some (token, next)) :
    token.position = s.position := by
  rw [next?] at found
  split at found
  case isTrue => cases found
  case isFalse =>
    split at found <;> exact (Prod.mk.inj (Option.some.inj found)).1 ▸ rfl

/-- Every token that a scanner in a text yields has counted what is before it. -/
theorem Arrived.place_of_mem_take {text : String} (arrived : Arrived text s) {count : Nat}
    {token : Token} (member : token ∈ (s.take count).1) :
    ∃ before back, text.toList = before ++ back ∧ token.position = Position.start.after before := by
  induction count generalizing s with
  | zero => cases member
  | succ count ih =>
    rw [Scanner.take] at member
    cases found : s.next? with
    | none =>
      rw [found] at member
      cases member
    | some yielded =>
      obtain ⟨first, next⟩ := yielded
      rw [found] at member
      rcases List.mem_cons.mp member with rfl | later
      · obtain ⟨before, whole, place⟩ := arrived.place
        exact ⟨before, s.rest, whole, (position_of_next? found).trans place⟩
      · cases finished : next.finished with
        | true =>
          rw [take_of_finished finished] at later
          cases later
        | false => exact ih (arrived.next found finished) later

/-- Counting and looking up agree. Whatever text a scanner is started in, at whatever offset and
inside whatever construct, and however many tokens it yields, the one at the end of the text
included: each has the line and the column that the line index of the text finds for its start. A
scanner of the whole text is one that is started at its beginning. -/
theorem position_eq_lineColumn (text : String) (offset : Nat) (mode : Mode) (limit count : Nat) :
    (∀ token ∈ ((resume text offset mode limit).take count).1,
      (token.position.line, token.position.column) =
        (LineIndex.ofText text).lineColumn text token.span.start) ∧
      ofText text limit = resume text 0 .normal limit := by
  refine ⟨fun token member => ?_, ofText_eq_resume text limit⟩
  obtain ⟨before, back, whole, place⟩ := (arrived_resume text offset mode limit).place_of_mem_take member
  have start : token.span.start = byteLength before := by
    rw [Token.span, Token.start, place, Position.offset_after_start]
  rw [start, LineIndex.lineColumn_append whole, place]

end Scanner

end LosslessSyntax
