import LosslessSyntax.Proofs.Scanner.Prescribed

/-! # Other whitespace

Of what follows it, a token that is followed by whitespace sees no more than that, unless it is a
comment up to the end of its line (`Prescribed.respaced`). So a text has the same lexemes when some
whitespace in it is replaced by other whitespace, as long as no such comment stands right before it
(`lexemes_respaced`).
-/

namespace LosslessSyntax.Lexeme

open CharClass

/-- A text that begins with whitespace. -/
def StartsBlank (text : List Char) : Prop := ∃ c more, text = c :: more ∧ isBlank c = true

/-- A comment up to the end of its line. -/
def isLineComment (kind : TokenKind) (chars : List Char) : Bool :=
  kind == .comment && !(['#', '/'].isPrefixOf chars)

variable {limit : Nat} {kind : TokenKind} {c : Char} {chars rest rest' : List Char}

theorem StartsBlank.ne_nil (spaced : StartsBlank rest) : rest ≠ [] := by
  obtain ⟨c, more, rfl, -⟩ := spaced
  exact List.cons_ne_nil c more

/-- A class without whitespace stops before it. -/
theorem StartsBlank.stops (spaced : StartsBlank rest) {inClass : Char → Bool}
    (other : [' ', '\t', '\r', '\n'].all (!inClass ·) = true) : Stops inClass rest := by
  obtain ⟨d, more, rfl, blank⟩ := spaced
  simp only [isBlank, Bool.or_eq_true, beq_iff_eq] at blank
  simp only [List.all_cons, List.all_nil, Bool.and_true, Bool.and_eq_true, Bool.not_eq_true']
    at other
  intro c head
  obtain rfl : d = c := Option.some.inj head
  rcases blank with ((rfl | rfl) | rfl) | rfl
  exacts [other.1, other.2.1, other.2.2.1, other.2.2.2]

theorem not_fractionFollows (spaced : StartsBlank rest) : ¬ fractionFollows rest := by
  rintro ⟨d, more, rfl, -⟩
  have stops : Stops (· == '.') ('.' :: d :: more) := spaced.stops (by decide)
  exact absurd (stops '.' rfl) (by decide)

/-- What is prescribed before whitespace is prescribed before any other, unless it is a comment that
ends with its line. -/
theorem Prescribed.respaced (prescribed : Prescribed limit kind chars rest)
    (spaced : StartsBlank rest) (spaced' : StartsBlank rest') (known : kind ≠ .error)
    (block : isLineComment kind chars = false) : Prescribed limit kind chars rest' := by
  cases prescribed with
  | ending => exact absurd rfl spaced.ne_nil
  | whitespace longest =>
    obtain ⟨d, more, rfl, blank⟩ := spaced
    exact absurd blank (Bool.eq_false_iff.mp ((longest_run_iff.mp longest).2 d rfl))
  | word longest listed =>
    exact .word (longest_word_iff.mpr ⟨longest.1, spaced'.stops (by decide)⟩) listed
  | number longest =>
    have stops : Stops Char.isDigit rest' := spaced'.stops (by decide)
    rcases longest_number_cases longest with
      ⟨run, -, -⟩ | ⟨whole, fraction, rfl, digits, digits', -⟩
    · exact .number (longest_whole run stops (not_fractionFollows spaced'))
    · exact .number (longest_fraction digits digits' stops)
  | mark longest => exact .mark (longest_mark_iff.mpr ⟨longest.1, spaced'.stops (by decide)⟩)
  | nameless _ => exact absurd rfl known
  | operator longest listed =>
    exact .operator (longest_operator_iff.mpr ⟨longest.1, .inr (spaced'.stops (by decide))⟩) listed
  | punctuation _ member => exact .punctuation rest' member
  | line longest other =>
    obtain ⟨⟨body, rfl, -⟩, -⟩ := longest_lineComment_iff.mp longest
    have opens : ['#', '/'].isPrefixOf ('#' :: body) = true := by simpa [isLineComment] using block
    cases body with
    | nil => exact absurd opens (by decide)
    | cons d body =>
      obtain rfl : '/' = d := by simpa [List.isPrefixOf] using opens
      exact absurd rfl other
  | block _ first => exact .block rest' first
  | openBlock _ => exact absurd rfl spaced.ne_nil
  | string _ opens quoted => exact .string rest' opens quoted
  | openString _ _ => exact absurd rfl spaced.ne_nil
  | unexpected _ => exact absurd rfl known

/-- Whitespace is as long as it can be. -/
theorem Prescribed.of_whitespace (prescribed : Prescribed limit kind chars rest)
    (white : kind = .whitespace) : Longest (Run isBlank) chars rest := by
  cases prescribed with
  | whitespace longest => exact longest
  | word _ listed =>
    have other : ∀ entry ∈ wordKinds, entry.2 ≠ .whitespace := by decide
    rcases listed with member | ⟨-, rfl⟩
    · exact absurd white (other _ member)
    · contradiction
  | operator _ listed =>
    have other : ∀ entry ∈ symbolKinds, entry.2 ≠ .whitespace := by decide
    rcases listed with member | ⟨-, rfl⟩
    · exact absurd white (other _ member)
    · contradiction
  | punctuation _ member =>
    have other : ∀ entry ∈ CharClass.punctuation, entry.2 ≠ .whitespace := by decide
    exact absurd white (other _ member)
  | string _ _ _ | openString _ _ =>
    rw [stringKind] at white
    split at white <;> contradiction
  | _ => contradiction

/-- Something is wrong with what is no token, and with what nothing ends. -/
theorem error_or_open {text : List Char} {fault : LexicalFault} :
    (readNormal limit c text).fault? = some fault →
      (readNormal limit c text).kind = .error ∨
        fault = .unterminatedString ∨ fault = .unterminatedComment := by
  rw [readNormal.eq_def]
  split
  · rintro ⟨⟩
  split
  · split
    · simp only [prepend, readComment]
      split
      · rintro ⟨⟩
      · exact fun open' => .inr (.inr (Option.some.inj open').symm)
    · rintro ⟨⟩
  split
  · rintro ⟨⟩
  split
  · rcases readNumber_cases (c :: text) with ⟨d, others, point, digit⟩ | plain
    · rw [readNumber_point point digit]
      rintro ⟨⟩
    · rw [readNumber_plain plain]
      rintro ⟨⟩
  split
  · rw [readAnnotationMark]
    split
    · rintro ⟨⟩
    · exact fun _ => .inl rfl
  split
  · simp only [prepend, readString]
    split
    · rintro ⟨⟩
    · exact fun open' => .inr (.inl (Option.some.inj open').symm)
  split
  · rintro ⟨⟩
  split
  · rintro ⟨⟩
  · exact fun _ => .inl rfl

/-- Nothing is wrong with a token that does not reach the end of the text. -/
theorem sound_of_rest {text : List Char} (more : (readNormal limit c text).rest ≠ [])
    (known : (readNormal limit c text).kind ≠ .error) :
    (readNormal limit c text).mode = .normal ∧ (readNormal limit c text).fault? = none := by
  obtain ⟨_, settles⟩ := readNormal_settles limit c text
  refine ⟨settles.mode.resolve_right more, ?_⟩
  refine Option.eq_none_iff_forall_not_mem.mpr fun fault found => ?_
  rcases error_or_open found with error | ends
  · exact known error
  · exact more (rest_of_unterminated found ends)

/-- A token before whitespace is read in the same way before any other, unless it is a comment that
ends with its line. -/
theorem readNormal_respaced {text more : List Char}
    (chars : (readNormal limit c text).chars = c :: more)
    (known : (readNormal limit c text).kind ≠ .error)
    (block : isLineComment (readNormal limit c text).kind (readNormal limit c text).chars = false)
    (spaced : StartsBlank (readNormal limit c text).rest) (spaced' : StartsBlank rest') :
    readNormal limit c (more ++ rest') = { readNormal limit c text with rest := rest' } := by
  have prescribed := (prescribed_readNormal limit c text).respaced spaced spaced' known block
  have whole : (readNormal limit c text).chars ++ rest' = c :: (more ++ rest') := by
    rw [chars, List.cons_append]
  obtain ⟨mode, fault?, read⟩ := prescribed.readNormal_eq whole
  obtain ⟨normal, sound⟩ := sound_of_rest spaced.ne_nil known
  obtain ⟨normal', sound'⟩ := sound_of_rest (by rw [read]; exact spaced'.ne_nil) (by rwa [read])
  rw [read] at normal' sound' ⊢
  obtain rfl : mode = .normal := normal'
  obtain rfl : fault? = none := sound'
  rw [← normal, ← sound]

variable {text blanks : List Char} {front back : List Lexeme} {blank : Lexeme}

/-- Two texts of whitespace cannot be told apart from behind a character, nor by a point. -/
theorem StartsBlank.follows (spaced : StartsBlank rest) (spaced' : StartsBlank rest') (d : Char)
    (more : List Char) : Follows (d :: more ++ rest) (d :: more ++ rest') := by
  refine ⟨rfl, fun _ => ?_⟩
  cases more with
  | nil =>
    obtain ⟨e, others, rfl, blank⟩ := id spaced
    obtain ⟨e', others', rfl, blank'⟩ := id spaced'
    have stops : Stops Char.isDigit (e :: others) := spaced.stops (by decide)
    have stops' : Stops Char.isDigit (e' :: others') := spaced'.stops (by decide)
    exact (stops' e' rfl).trans (stops e rfl).symm
  | cons => rfl

/-- Whitespace at the front, and other whitespace in its place. -/
theorem lexemes_blanks (split : lexemes limit text = blank :: back)
    (white : blank.kind = .whitespace) (some : blanks ≠ []) (all : ∀ c ∈ blanks, isBlank c = true) :
    StartsBlank text ∧ lexemes limit (blanks ++ charsOf back) =
      ⟨.whitespace, blanks, [], .normal, none⟩ :: back := by
  obtain ⟨c, rest, rfl, rfl, rfl⟩ := lexemes_of_cons split
  have longest := (prescribed_readNormal limit c rest).of_whitespace white
  obtain ⟨run, stops⟩ := longest_run_iff.mp longest
  obtain ⟨more, settles⟩ := readNormal_settles limit c rest
  obtain ⟨d, others, rfl⟩ := List.exists_cons_of_ne_nil some
  refine ⟨⟨c, rest, rfl, run.2 c (settles.chars ▸ List.mem_cons_self)⟩, ?_⟩
  rw [charsOf_lexemes, List.cons_append, lexemes_cons, readNormal_blanks limit all stops]
  rfl

/-- A token and what follows it, of which it sees no more than the whitespace. -/
theorem lexemes_before_blanks {last : Lexeme} (split : lexemes limit text = last :: back)
    (known : last.kind ≠ .error) (block : isLineComment last.kind last.chars = false)
    (spaced : StartsBlank (charsOf back)) (spaced' : StartsBlank rest') :
    lexemes limit (last.chars ++ rest') = last :: lexemes limit rest' := by
  obtain ⟨c, rest, rfl, rfl, rfl⟩ := lexemes_of_cons split
  rw [charsOf_lexemes] at spaced
  obtain ⟨more, settles⟩ := readNormal_settles limit c rest
  change lexemes limit ((readNormal limit c rest).chars ++ rest') = _
  rw [settles.chars, List.cons_append, lexemes_cons,
    readNormal_respaced settles.chars known block spaced spaced']
  rfl

/-- The lexemes of a text stay the same when some whitespace is replaced by other whitespace, unless
a comment that ends with its line stands right before it. -/
theorem lexemes_respaced (split : lexemes limit text = front ++ blank :: back)
    (white : blank.kind = .whitespace) (known : ∀ lexeme ∈ front, lexeme.kind ≠ .error)
    (block : ∀ last ∈ front.getLast?, isLineComment last.kind last.chars = false)
    (some : blanks ≠ []) (all : ∀ c ∈ blanks, isBlank c = true) :
    lexemes limit (charsOf front ++ (blanks ++ charsOf back)) =
      front ++ ⟨.whitespace, blanks, [], .normal, none⟩ :: back := by
  obtain ⟨spaced, behind⟩ := lexemes_blanks (lexemes_back split) white some all
  have spaced' : StartsBlank (blanks ++ charsOf back) := by
    obtain ⟨d, others, rfl⟩ := List.exists_cons_of_ne_nil some
    exact ⟨d, others ++ charsOf back, rfl, all d List.mem_cons_self⟩
  obtain rfl | ⟨front, last, rfl⟩ := List.eq_nil_or_concat' front
  · exact behind
  rw [List.append_assoc, List.singleton_append] at split
  have here := lexemes_before_blanks (lexemes_back split) (known last (by simp))
    (block last (by simp)) spaced spaced'
  have follows : Follows (charsOf (last :: blank :: back))
      (last.chars ++ (blanks ++ charsOf back)) := by
    have inside : last ∈ lexemes limit text := by
      rw [split]
      exact List.mem_append_right front List.mem_cons_self
    obtain ⟨d, more, chars⟩ := List.exists_cons_of_ne_nil (chars_ne_nil last inside)
    rw [charsOf_cons, chars]
    exact spaced.follows spaced' d more
  rw [charsOf_append, charsOf_cons, charsOf_nil, List.append_nil, List.append_assoc,
    lexemes_front split follows, here, behind, List.append_assoc, List.singleton_append]

end LosslessSyntax.Lexeme
