import LosslessSyntax.Proofs.Scanner.Lexemes

/-! # Texts that end with a line feed

A line feed at the end of a text belongs to whitespace, unless something is wrong with the last
lexeme: words, numbers, operators and marks hold none, line comments stop before it, and a string or
a block comment in which the text ends has not been closed (`isBlank_of_endsLine`). So a text after
it that does not begin with whitespace has the lexemes that it has on its own (`lexemes_lines`).
-/

namespace LosslessSyntax.Lexeme

open CharClass

/-- The last of as many characters of a class as follow each other is in the class. -/
theorem of_getLast?_takeWhile {p : Char → Bool} {text : List Char} {c : Char}
    (ends : (text.takeWhile p).getLast? = some c) : p c = true :=
  List.all_eq_true.mp List.all_takeWhile c (List.mem_of_getLast? ends)

theorem getLast?_commentBody {text : List Char} (closed : (commentBody text).2.2 = true) :
    (commentBody text).1.getLast? = some '#' := by
  fun_induction commentBody text with
  | case1 => exact absurd closed Bool.false_ne_true
  | case2 => rfl
  | case3 c rest other body after ended found ih =>
    rw [found] at ih
    rw [List.getLast?_cons, ih closed]
    rfl

theorem getLast?_stringBody {delimiter : Char} {text : List Char}
    (closed : (stringBody delimiter text).2.2 = true) :
    (stringBody delimiter text).1.getLast? = some delimiter := by
  fun_induction stringBody delimiter text with
  | case1 => exact absurd closed Bool.false_ne_true
  | case2 => exact absurd closed Bool.false_ne_true
  | case3 c rest body after ended found ih =>
    rw [found] at ih
    rw [List.getLast?_cons, List.getLast?_cons, ih closed]
    rfl
  | case4 c rest other other' equal => exact congrArg some (beq_iff_eq.mp equal)
  | case5 c rest other other' differs body after ended found ih =>
    rw [found] at ih
    rw [List.getLast?_cons, ih closed]
    rfl

/-- A lexeme that ends with a line feed, with nothing wrong about it. -/
structure EndsLine (lexeme : Lexeme) : Prop where
  sound : lexeme.fault? = none
  feed : lexeme.chars.getLast? = some '\n'

/-- The line feed at the end of a run with something in front of it. -/
theorem EndsLine.of_run {p : Char → Bool} {kind : TokenKind} {front text : List Char}
    (line : EndsLine ((readRun kind p text).prepend front)) :
    p '\n' = true ∨ front.getLast? = some '\n' := by
  have feed : (front ++ text.takeWhile p).getLast? = some '\n' := line.feed
  rw [List.getLast?_append, Option.or_eq_some_iff] at feed
  exact feed.imp of_getLast?_takeWhile And.right

theorem not_endsLine_comment (text : List Char) :
    ¬ EndsLine ((readComment text).prepend ['#', '/']) := by
  rintro ⟨sound, feed⟩
  cases closed : (commentBody text).2.2 with
  | false =>
    simp only [prepend, readComment, closed, Bool.false_eq_true, ↓reduceIte] at sound
    exact absurd sound (Option.some_ne_none _)
  | true =>
    simp only [prepend, readComment, closed, ↓reduceIte, List.getLast?_append,
      getLast?_commentBody closed, Option.some_or] at feed
    exact absurd (Option.some.inj feed) (by decide)

theorem not_endsLine_string {c : Char} (other : c ≠ '\n') (text : List Char) :
    ¬ EndsLine ((readString c text).prepend [c]) := by
  rintro ⟨sound, feed⟩
  cases closed : (stringBody c text).2.2 with
  | false =>
    simp only [prepend, readString, closed, Bool.false_eq_true, ↓reduceIte] at sound
    exact absurd sound (Option.some_ne_none _)
  | true =>
    simp only [prepend, readString, closed, ↓reduceIte, List.getLast?_append,
      getLast?_stringBody closed, Option.some_or] at feed
    exact other (Option.some.inj feed)

theorem not_endsLine_hash (rest : List Char) : ¬ EndsLine (readHash rest) := by
  intro line
  rw [readHash.eq_def] at line
  split at line
  · exact not_endsLine_comment _ line
  · rcases line.of_run with inside | same
    · exact absurd inside (by decide)
    · exact absurd (Option.some.inj same) (by decide)

theorem not_endsLine_number (text : List Char) : ¬ EndsLine (readNumber text) := by
  intro line
  rcases readNumber_cases text with ⟨d, others, point, digit⟩ | plain
  · rw [readNumber_point point digit] at line
    rcases line.of_run with inside | same
    · exact absurd inside (by decide)
    · rw [List.getLast?_append] at same
      exact absurd (Option.some.inj same) (by decide)
  · rw [readNumber_plain plain] at line
    exact absurd (of_getLast?_takeWhile line.feed) (by decide)

theorem not_endsLine_annotation (rest : List Char) : ¬ EndsLine (readAnnotationMark rest) := by
  intro line
  rw [readAnnotationMark] at line
  split at line
  · rcases line.of_run with inside | same
    · exact absurd inside (by decide)
    · exact absurd (Option.some.inj same) (by decide)
  · exact absurd line.sound (Option.some_ne_none _)

variable {limit : Nat}

/-- Nothing but whitespace ends with a line feed, unless something is wrong with it. -/
theorem isBlank_of_endsLine {c : Char} {rest : List Char}
    (line : EndsLine (readNormal limit c rest)) : isBlank c = true := by
  by_contra other
  have differs : c ≠ '\n' := by
    rintro rfl
    exact other rfl
  rw [readNormal.eq_def, if_neg other] at line
  split at line
  · exact not_endsLine_hash rest line
  split at line
  · exact absurd (of_getLast?_takeWhile line.feed) (by decide)
  split at line
  · exact not_endsLine_number _ line
  split at line
  · exact not_endsLine_annotation rest line
  split at line
  · exact not_endsLine_string differs rest line
  split at line
  · exact differs (Option.some.inj line.feed)
  split at line
  · exact absurd (of_getLast?_takeWhile line.feed) (by decide)
  · exact absurd line.sound (Option.some_ne_none _)

/-- The last lexeme of a text that ends with a line feed is whitespace, unless something is wrong
with it. -/
theorem exists_last_blank {text : List Char}
    (sound : ∀ lexeme ∈ lexemes limit text, lexeme.fault? = none)
    (ends : text.getLast? = some '\n') :
    ∃ front blanks, lexemes limit text = front ++ [⟨.whitespace, blanks, [], .normal, none⟩] ∧
      '\n' ∈ blanks ∧ ∀ c ∈ blanks, isBlank c = true := by
  obtain none | ⟨front, last, split⟩ := List.eq_nil_or_concat' (lexemes limit text)
  · rw [← charsOf_lexemes limit text, none] at ends
    exact absurd ends.symm (Option.some_ne_none _)
  obtain ⟨c, rest, -, rfl, -⟩ := lexemes_of_cons (lexemes_back split)
  have inside : (readNormal limit c rest).bare ∈ lexemes limit text := by
    rw [split]
    exact List.mem_append_right front (List.mem_singleton_self _)
  have line : EndsLine (readNormal limit c rest).bare := by
    refine ⟨sound _ inside, ?_⟩
    rwa [← charsOf_lexemes limit text, split, charsOf_append, charsOf_cons, charsOf_nil,
      List.append_nil, List.getLast?_append_of_ne_nil _ (chars_ne_nil _ inside)] at ends
  have blank : isBlank c = true := isBlank_of_endsLine ⟨line.sound, line.feed⟩
  rw [readNormal.eq_def, if_pos blank] at split line
  exact ⟨front, _, split, List.mem_of_getLast? line.feed, List.all_eq_true.mp List.all_takeWhile⟩

/-- A text after a line feed has the lexemes that it has on its own, unless it goes on with
whitespace or something is wrong before it. -/
theorem lexemes_lines {text text' : List Char}
    (sound : ∀ lexeme ∈ lexemes limit text, lexeme.fault? = none)
    (ends : text.getLast? = some '\n')
    (stops : ∀ d, text'.head? = some d → isBlank d = false) :
    lexemes limit (text ++ text') = lexemes limit text ++ lexemes limit text' := by
  obtain ⟨front, blanks, split, feed, blank⟩ := exists_last_blank sound ends
  obtain ⟨c, more, rfl⟩ := List.exists_cons_of_ne_nil (List.ne_nil_of_mem feed)
  have last : lexemes limit (c :: more ++ text') =
      ⟨.whitespace, c :: more, [], .normal, none⟩ :: lexemes limit text' := by
    rw [List.cons_append, lexemes_cons, readNormal_blanks limit blank stops]
    rfl
  have follows : Follows (charsOf [⟨.whitespace, c :: more, [], .normal, none⟩])
      (c :: more ++ text') := by
    refine ⟨rfl, fun point => ?_⟩
    rw [Option.some.inj point] at blank
    exact absurd (blank '.' List.mem_cons_self) (by decide)
  have whole : text ++ text' = charsOf front ++ (c :: more ++ text') := by
    rw [← charsOf_lexemes limit text, split, charsOf_append, List.append_assoc]
    simp
  rw [whole, lexemes_front split follows, last, split, List.append_assoc]
  rfl

end LosslessSyntax.Lexeme
