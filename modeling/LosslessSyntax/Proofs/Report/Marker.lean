import LosslessSyntax.Proofs.Scanner.Positions
import LosslessSyntax.Report.Basic

/-! # Markers under lines

A report prints the line on which a span begins, without the end of the line (`Text.PrintedLine`), and
marks in it the characters that lie in the span. Offsets count bytes and columns count characters, and
the span may go on past the line or begin at its end: the marker covers exactly the characters of the
span on the line, and a place of one character where there are none (`Report.lines_mark_span`).
-/

namespace LosslessSyntax

open Text

/-- `content` is the line of a text behind `earlier`, without its line feed and one carriage return
before it. -/
structure Text.PrintedLine (text : String) (earlier content : List Char) : Prop where
  begins : earlier = [] ∨ ∃ front, earlier = front ++ ['\n']
  plain : '\n' ∉ content
  ends : ∃ ending later, text.toList = earlier ++ (content ++ (ending ++ later)) ∧
    (ending = ['\r'] ∨ ending = [] ∧ content.getLast? ≠ some '\r') ∧
    (later = [] ∨ ∃ more, later = '\n' :: more)

namespace LineIndex

variable {text : String} {earlier line later back : List Char}

theorem starts_append (whole : text.toList = earlier ++ back) :
    (ofText text).starts = (0 :: startsAfter 0 earlier) ++ startsAfter (byteLength earlier) back := by
  rw [ofText, whole, startsAfter_append, Nat.zero_add, List.cons_append]

/-- A line begins behind the line feed before it. -/
theorem getElem?_starts (whole : text.toList = earlier ++ back)
    (begins : earlier = [] ∨ ∃ front, earlier = front ++ ['\n']) :
    (ofText text).starts[earlier.count '\n']? = some (byteLength earlier) := by
  have length := length_startsAfter 0 earlier
  have last := getLastD_starts begins
  rw [List.getLastD_eq_getLast?, List.getLast?_eq_getElem?, List.length_cons, length,
    Nat.add_sub_cancel] at last
  rw [starts_append whole, List.getElem?_append_left (by rw [List.length_cons, length]; omega)]
  rw [List.getElem?_eq_getElem (by rw [List.length_cons, length]; omega)] at last ⊢
  exact congrArg some last

/-- A line ends before the line feed that the next one begins behind, or with the text. -/
theorem getElem?_starts_succ (whole : text.toList = earlier ++ (line ++ later))
    (plain : '\n' ∉ line) (ends : later = [] ∨ ∃ more, later = '\n' :: more) :
    ((ofText text).starts[earlier.count '\n' + 1]?).elim text.utf8ByteSize (· - 1) =
      byteLength earlier + byteLength line := by
  have length := length_startsAfter 0 earlier
  rw [starts_append whole, List.getElem?_append_right (by rw [List.length_cons, length]),
    List.length_cons, length, Nat.sub_self, startsAfter_append, startsAfter_plain _ plain,
    List.nil_append]
  rcases ends with rfl | ⟨more, rfl⟩
  · rw [← byteLength_toList, whole, List.append_nil, byteLength_append]
    rfl
  · rfl

theorem lineText?_succ {number start : Nat} (begins : (ofText text).starts[number]? = some start) :
    (ofText text).lineText? text (number + 1) =
      (slice? text start
        (((ofText text).starts[number + 1]?).elim text.utf8ByteSize (· - 1))).map fun content =>
          if content.toList.getLast? = some '\r' then String.ofList content.toList.dropLast
          else content := by
  rw [lineText?, if_neg (Nat.succ_ne_zero _), Nat.add_sub_cancel, begins]
  cases (ofText text).starts[number + 1]? <;>
    simp only [Option.bind_eq_bind, Option.bind_some, Option.elim_some, Option.elim_none,
      Option.map_eq_bind, Function.comp_def, apply_ite]

/-- Looking up a line finds it as it is printed. -/
theorem exists_printedLine (whole : text.toList = earlier ++ (line ++ later))
    (begins : earlier = [] ∨ ∃ front, earlier = front ++ ['\n']) (plain : '\n' ∉ line)
    (ends : later = [] ∨ ∃ more, later = '\n' :: more) :
    ∃ content, (ofText text).lineText? text (earlier.count '\n' + 1) = some (String.ofList content) ∧
      PrintedLine text earlier content := by
  have found : (ofText text).lineText? text (earlier.count '\n' + 1) =
      some (String.ofList (if line.getLast? = some '\r' then line.dropLast else line)) := by
    rw [lineText?_succ (getElem?_starts whole begins), getElem?_starts_succ whole plain ends,
      slice?_of_append whole, Option.map_some, String.toList_ofList, apply_ite String.ofList]
  refine ⟨_, found, begins, ?_, ?_⟩
  · split
    · exact fun member => plain ((List.dropLast_subset line) member)
    · exact plain
  · split
    case isTrue returns =>
      refine ⟨['\r'], later, ?_, .inl rfl, ends⟩
      rw [whole, ← List.append_assoc _ ['\r'], List.dropLast_append_getLast? _ returns]
    case isFalse other => exact ⟨[], later, whole, .inr ⟨rfl, other⟩, ends⟩

end LineIndex

/-- The character at an index of a line, which begins behind some text, lies in a span. -/
def Span.CoversColumn (span : Span) (earlier line : List Char) (index : Nat) : Prop :=
  ∃ front c back, line = front ++ c :: back ∧ front.length = index ∧
    span.start ≤ byteLength (earlier ++ front) ∧ byteLength (earlier ++ front ++ [c]) ≤ span.stop

namespace Excerpt

variable {text : String} {span : Span} {earlier front content rest covered beyond : List Char}

/-- As many characters begin within some characters as both begin with, one of them being the
shorter. -/
theorem charsBefore_shared (shared : List Char) {more extra : List Char}
    (shorter : more = [] ∨ extra = []) :
    charsBefore (byteLength (shared ++ extra)) (shared ++ more) = shared.length := by
  induction shared with
  | nil =>
    rcases shorter with rfl | rfl
    · rfl
    · cases more <;> rfl
  | cons c shared ih =>
    have size := c.utf8Size_pos
    rw [List.cons_append, List.cons_append, charsBefore, byteLength_cons, if_neg (by omega),
      Nat.add_sub_cancel_left, ih, List.length_cons]

/-- The characters that end within some characters are those that both begin with. -/
theorem exists_within_shared_iff {shared more extra : List Char} (shorter : more = [] ∨ extra = [])
    (index : Nat) :
    (∃ left c right, shared ++ more = left ++ c :: right ∧ left.length = index ∧
        byteLength (left ++ [c]) ≤ byteLength (shared ++ extra)) ↔ index < shared.length := by
  constructor
  · rintro ⟨left, c, right, chars, rfl, within⟩
    rcases shorter with rfl | rfl
    · rw [List.append_nil] at chars
      rw [chars, List.length_append, List.length_cons]
      omega
    · rw [List.append_nil] at within
      have chars' : (left ++ [c]) ++ right = shared ++ more := by
        rw [chars, List.append_assoc, List.singleton_append]
      obtain ⟨between, rfl, -⟩ := exists_between_of_le chars' within
      simp only [List.length_append, List.length_singleton]
      omega
  · intro inside
    refine ⟨shared.take index, shared[index], shared.drop (index + 1) ++ more, ?_,
      List.length_take_of_le (Nat.le_of_lt inside), ?_⟩
    · rw [← List.cons_append, ← List.drop_eq_getElem_cons inside, ← List.append_assoc,
        List.take_append_drop]
    · have whole := congrArg byteLength (List.take_append_drop (index + 1) shared)
      rw [byteLength_append] at whole
      rw [← List.take_succ_eq_append_getElem inside, byteLength_append]
      omega

/-- Behind the start of a span, a character of the line lies in the span if it ends before the stop. -/
theorem coversColumn_append_iff {shown : List Char} (starts : byteLength (earlier ++ front) = span.start)
    (stops : byteLength (earlier ++ front ++ covered) = span.stop) (index : Nat) :
    span.CoversColumn earlier (front ++ shown) index ↔ ∃ left c right,
      shown = left ++ c :: right ∧ front.length + left.length = index ∧
        byteLength (left ++ [c]) ≤ byteLength covered := by
  simp only [Span.CoversColumn, ← starts, ← stops, byteLength_append]
  constructor
  · rintro ⟨before, c, right, chars, rfl, behind, within⟩
    obtain ⟨left, rfl, rfl⟩ := exists_between_of_le chars (by omega)
    simp only [byteLength_append] at within
    exact ⟨left, c, right, rfl, List.length_append.symm, by omega⟩
  · rintro ⟨left, c, right, rfl, rfl, within⟩
    refine ⟨front ++ left, c, right, (List.append_assoc ..).symm, List.length_append, ?_, ?_⟩ <;>
      rw [byteLength_append] <;> omega

/-- The marker of a span covers the characters of the span that are on the line, or one place. -/
theorem coversColumn_iff_markerWidth (starts : byteLength (earlier ++ front) = span.start)
    (stops : byteLength (earlier ++ front ++ covered) = span.stop)
    (cut : content ++ rest = front ++ (covered ++ beyond)) :
    let width := markerWidth (String.ofList content) (front.length + 1) span.length
    (∀ index, span.CoversColumn earlier content index ↔
        front.length ≤ index ∧ index < front.length + width) ∨
      (∀ index, ¬ span.CoversColumn earlier content index) ∧ width = 1 := by
  have length : span.length = byteLength covered := by
    rw [Span.length, ← starts, ← stops, byteLength_append (earlier ++ front), Nat.add_sub_cancel_left]
  simp only [markerWidth, String.toList_ofList, Nat.add_sub_cancel, length]
  rcases List.append_eq_append_iff.mp cut with ⟨ending, rfl, -⟩ | ⟨shown, rfl, rest_eq⟩
  · -- The span begins behind the line as it is printed.
    refine .inr ⟨?_, ?_⟩
    · rintro index ⟨before, c, back, rfl, -, behind, -⟩
      have size := c.utf8Size_pos
      simp only [← starts, byteLength_append, byteLength_cons] at behind
      omega
    · rw [List.drop_eq_nil_of_le (by rw [List.length_append]; omega)]
      rfl
  · obtain ⟨shared, more, extra, rfl, rfl, shorter⟩ : ∃ shared more extra, shown = shared ++ more ∧
        covered = shared ++ extra ∧ (more = [] ∨ extra = []) := by
      rcases List.append_eq_append_iff.mp rest_eq with ⟨more, rfl, -⟩ | ⟨extra, rfl, -⟩
      · exact ⟨covered, more, [], rfl, (List.append_nil _).symm, .inr rfl⟩
      · exact ⟨shown, [], extra, (List.append_nil _).symm, rfl, .inl rfl⟩
    have covers (index : Nat) : span.CoversColumn earlier (front ++ (shared ++ more)) index ↔
        front.length ≤ index ∧ index < front.length + shared.length := by
      rw [coversColumn_append_iff starts stops]
      constructor
      · rintro ⟨left, c, right, chars, rfl, within⟩
        have inside := (exists_within_shared_iff shorter left.length).mp
          ⟨left, c, right, chars, rfl, within⟩
        omega
      · rintro ⟨behind, before⟩
        have inside : index - front.length < shared.length := by omega
        obtain ⟨left, c, right, chars, place, within⟩ :=
          (exists_within_shared_iff shorter _).mpr inside
        refine ⟨left, c, right, chars, ?_, within⟩
        omega
    rw [List.drop_left, charsBefore_shared shared shorter]
    cases shared with
    | nil =>
      refine .inr ⟨fun index covered => ?_, rfl⟩
      have inside := (covers index).mp covered
      rw [List.length_nil] at inside
      omega
    | cons c shared =>
      refine .inl fun index => ?_
      rw [covers, List.length_cons, Nat.max_eq_right (Nat.le_add_left ..)]

/-- An excerpt shows the line of a text behind `earlier`, on which a span begins, and its marker covers
the characters of the span on this line, from the start of the span on. Where there are none, it covers
one place. -/
structure Shows (excerpt : Excerpt) (text : String) (span : Span) (earlier : List Char) : Prop where
  number : excerpt.line = earlier.count '\n' + 1
  printed : PrintedLine text earlier excerpt.content.toList
  place : ∃ front back, text.toList = earlier ++ (front ++ back) ∧ '\n' ∉ front ∧
    byteLength (earlier ++ front) = span.start ∧ excerpt.column = front.length + 1
  marked :
    (∀ index, span.CoversColumn earlier excerpt.content.toList index ↔
        excerpt.column ≤ index + 1 ∧ index + 1 < excerpt.column + excerpt.width) ∨
      (∀ index, ¬ span.CoversColumn earlier excerpt.content.toList index) ∧ excerpt.width = 1

/-- There is an excerpt for each span of a text. -/
theorem exists_shows (order : span.start ≤ span.stop) (starts : isBoundary text span.start = true)
    (stops : isBoundary text span.stop = true) :
    ∃ earlier excerpt, ofSpan? (.ofText text) text span = some excerpt ∧
      (LineIndex.ofText text).lineColumn text span.start = (excerpt.line, excerpt.column) ∧
      (LineIndex.ofText text).lineText? text excerpt.line = some excerpt.content ∧
      excerpt.Shows text span earlier := by
  obtain ⟨before, back, whole, start_eq⟩ := TextEdit.isBoundary_iff.mp starts
  obtain ⟨through, beyond, whole', stop_eq⟩ := TextEdit.isBoundary_iff.mp stops
  obtain ⟨covered, rfl, rfl⟩ := exists_between_of_le (whole.symm.trans whole')
    (by rw [start_eq, stop_eq]; exact order)
  obtain ⟨earlier, front, rfl, plain, begins⟩ := exists_line_start before
  obtain ⟨tail, later, rest, plain', ends⟩ := exists_line_end (covered ++ beyond)
  have lines : text.toList = earlier ++ (front ++ tail ++ later) := by
    rw [whole, rest]
    simp only [List.append_assoc]
  have place : (LineIndex.ofText text).lineColumn text span.start =
      (earlier.count '\n' + 1, front.length + 1) := by
    rw [← start_eq, LineIndex.lineColumn_append whole, Position.line_after, List.count_append,
      List.count_eq_zero.mpr plain, Position.after_append, Position.column_after _ plain,
      Position.column_after_line_start begins]
    exact congrArg₂ Prod.mk (Nat.add_comm _ _) (Nat.add_comm _ _)
  obtain ⟨content, found, printed⟩ := LineIndex.exists_printedLine lines begins
    (fun member => (List.mem_append.mp member).elim plain plain') ends
  obtain ⟨ending, later', split, -⟩ := printed.ends
  have cut : content ++ (ending ++ later') = front ++ (covered ++ beyond) := by
    rw [whole, List.append_assoc] at split
    exact (List.append_cancel_left split).symm
  have marked := coversColumn_iff_markerWidth start_eq stop_eq cut
  refine ⟨earlier, ⟨earlier.count '\n' + 1, front.length + 1, String.ofList content,
    markerWidth (String.ofList content) (front.length + 1) span.length⟩, ?_, place, found, rfl, ?_,
    ⟨front, _, whole.trans (List.append_assoc ..), plain, start_eq, rfl⟩, ?_⟩
  · rw [ofSpan?, place]
    simp only [found, Option.map_some]
  · rwa [String.toList_ofList]
  · rw [String.toList_ofList]
    refine marked.imp_left fun covers index => ?_
    rw [covers]
    dsimp only
    omega

end Excerpt

namespace Report

/-- Markers cover what a diagnostic is about. If its span is one of the text, the report names the line
and the column of the start of the span and prints this line, and the marker under it begins at this
column, behind a margin of the same width: it covers the characters of the span on the line as it is
printed, or one place if there are none. -/
theorem lines_mark_span (painter : Painter) (path text : String) (diagnostic : Diagnostic)
    (order : diagnostic.span.start ≤ diagnostic.span.stop)
    (starts : isBoundary text diagnostic.span.start = true)
    (stops : isBoundary text diagnostic.span.stop = true) :
    ∃ earlier excerpt, Excerpt.ofSpan? (.ofText text) text diagnostic.span = some excerpt ∧
      (LineIndex.ofText text).lineColumn text diagnostic.span.start =
        (excerpt.line, excerpt.column) ∧
      (LineIndex.ofText text).lineText? text excerpt.line = some excerpt.content ∧
      excerpt.Shows text diagnostic.span earlier ∧
      ∃ title help, lines painter path text (.ofText text) diagnostic =
        [title, s!"  --> {path}:{excerpt.line}:{excerpt.column}", blankMargin,
          painter.paint .gray (margin excerpt.line) ++ excerpt.content,
          painter.paint diagnostic.severity.markerColor (String.ofList
            (List.replicate ((margin excerpt.line).length + (excerpt.column - 1)) ' ' ++
              List.replicate excerpt.width '^')),
          blankMargin] ++ help := by
  obtain ⟨earlier, excerpt, found, place, content, shows⟩ := Excerpt.exists_shows order starts stops
  refine ⟨earlier, excerpt, found, place, content, shows,
    painter.paintBold diagnostic.severity.color
      (diagnostic.severity.name ++ "[" ++ diagnostic.code.text ++ "]") ++ ": " ++ diagnostic.message,
    (diagnostic.code.help?.map fun help => painter.paint .yellow ("help: " ++ help)).toList, ?_⟩
  obtain ⟨front, -, -, -, -, column⟩ := shows.place
  have indent : (margin excerpt.line).length + excerpt.column - 1 =
      (margin excerpt.line).length + (excerpt.column - 1) := by omega
  rw [lines, place, found, Option.map_some, Option.getD_some, excerptLines, marker, indent]
  rfl

/-- A span over the end of a line that ends with a carriage return. -/
theorem lines_mark_span_over_line :
    isBoundary "x\né€\r\nz" 2 = true ∧ isBoundary "x\né€\r\nz" 10 = true ∧
      ∃ earlier, Excerpt.Shows ⟨2, 1, "é€", 2⟩ "x\né€\r\nz" ⟨2, 10⟩ earlier := by
  have starts : isBoundary "x\né€\r\nz" 2 = true := by decide
  have stops : isBoundary "x\né€\r\nz" 10 = true := by decide
  obtain ⟨earlier, excerpt, found, -, -, shows, -⟩ := lines_mark_span .terminal "a" "x\né€\r\nz"
    (.error .unexpectedToken "" ⟨2, 10⟩) (by decide) starts stops
  have shown : Excerpt.ofSpan? (.ofText "x\né€\r\nz") "x\né€\r\nz" ⟨2, 10⟩ =
      some ⟨2, 1, "é€", 2⟩ := by decide
  obtain rfl := Option.some.inj (shown.symm.trans found)
  exact ⟨starts, stops, earlier, shows⟩

end Report

end LosslessSyntax
