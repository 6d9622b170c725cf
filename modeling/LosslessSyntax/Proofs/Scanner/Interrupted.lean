import LosslessSyntax.Proofs.Scanner.Restart

/-! # Interrupted strings and comments

When a text ends inside a string or a block comment, a scanner that is started there inside the same
construct goes on with it. It knows the construct, but not what is before it: where the text is
divided inside an escape, or between the two characters that end a comment, it takes the second
character for one of its own. `continued_iff` says that this is all that can go wrong, and exactly
when it does.
-/

namespace LosslessSyntax

open Text

namespace Lexeme

variable {limit : Nat} {c : Char} {rest : List Char}

/-- Whether the last character of the body of a string is a backslash that takes the next one with
it. -/
def endsInEscape : List Char → Bool
  | [] => false
  | ['\\'] => true
  | '\\' :: _ :: rest => endsInEscape rest
  | _ :: rest => endsInEscape rest

/-- The end of a lexeme that was broken off which belongs together with what follows: the backslash
of an escape, or the slash of a mark that ends a comment. -/
def pending : Mode → List Char → List Char
  | .normal, _ => []
  | .blockComment, chars => if (chars.drop 2).getLast? = some '/' then ['/'] else []
  | .string _, chars => if endsInEscape (chars.drop 1) then ['\\'] else []

/-- What is left of a text after the body of the construct that it begins inside of. -/
def afterBody : Mode → List Char → List Char
  | .normal, text => text
  | .blockComment, text => (commentBody text).2.1
  | .string delimiter, text => (stringBody delimiter text).2.1

theorem rest_readComment (text : List Char) : (readComment text).rest = (commentBody text).2.1 := by
  simp only [readComment]
  split <;> rfl

theorem rest_readString (delimiter : Char) (text : List Char) :
    (readString delimiter text).rest = (stringBody delimiter text).2.1 := by
  simp only [readString]
  split <;> rfl

theorem rest_of_read {mode : Mode} (inside : mode ≠ .normal) {lexeme : Lexeme}
    (read : read limit mode (c :: rest) = some lexeme) :
    lexeme.rest = afterBody mode (c :: rest) ∧ (lexeme.mode = .normal ∨ lexeme.rest = []) := by
  cases mode with
  | normal => exact absurd rfl inside
  | blockComment =>
    obtain rfl := Option.some.inj read
    exact ⟨rest_readComment _, (readComment_reads _).2⟩
  | string delimiter =>
    obtain rfl := Option.some.inj read
    exact ⟨rest_readString delimiter _, (readString_reads delimiter _).2⟩

/-- A body takes some characters. -/
theorem afterBody_cons {mode : Mode} (inside : mode ≠ .normal) (c : Char) (rest : List Char) :
    ∃ taken, taken ≠ [] ∧ taken ++ afterBody mode (c :: rest) = c :: rest := by
  obtain ⟨lexeme, read, split, some, -⟩ := read_splits 0 mode c rest
  rw [(rest_of_read inside read).1] at split
  exact ⟨_, some, split⟩

theorem afterBody_append (mode : Mode) (text : List Char) :
    ∃ taken, taken ++ afterBody mode text = text := by
  cases mode with
  | normal => exact ⟨[], rfl⟩
  | blockComment => exact ⟨_, commentBody_append text⟩
  | string delimiter => exact ⟨_, stringBody_append delimiter text⟩

theorem afterBody_eq_self {mode : Mode} (inside : mode ≠ .normal) {text : List Char} :
    afterBody mode text = text ↔ text = [] := by
  constructor
  · intro same
    cases text with
    | nil => rfl
    | cons c rest =>
      obtain ⟨taken, some, split⟩ := afterBody_cons inside c rest
      rw [same] at split
      exact absurd (List.append_left_eq_self.mp split) some
  · rintro rfl
    obtain ⟨taken, split⟩ := afterBody_append mode []
    exact (List.append_eq_nil_iff.mp split).2

theorem stringBody_cons {delimiter : Char} (slash : c ≠ '\\') (other : c ≠ delimiter)
    (rest : List Char) :
    (stringBody delimiter (c :: rest)).2 = (stringBody delimiter rest).2 := by
  rw [stringBody.eq_4, if_neg (by rwa [beq_iff_eq])]
  · exact fun here => absurd here slash
  · exact fun _ _ here => absurd here slash

theorem endsInEscape_cons (slash : c ≠ '\\') (rest : List Char) :
    endsInEscape (c :: rest) = endsInEscape rest := by
  rw [endsInEscape.eq_4]
  · exact fun here => absurd here slash
  · exact fun _ _ here => absurd here slash

/-- The body of a string goes on behind a part of it with what belongs together. -/
theorem stringBody_onward {delimiter : Char} {front : List Char} (back : List Char)
    (unclosed : (stringBody delimiter front).2.2 = false) :
    (stringBody delimiter (front ++ back)).2.1 =
      (stringBody delimiter ((if endsInEscape front then ['\\'] else []) ++ back)).2.1 := by
  fun_induction stringBody delimiter front with
  | case1 => rfl
  | case2 => rfl
  | case3 c rest body after ended found ih =>
    rw [found] at ih
    exact ih unclosed
  | case4 => exact Bool.noConfusion unclosed
  | case5 c rest other other' differs body after ended found ih =>
    have slash : c ≠ '\\' := by
      rintro rfl
      cases rest with
      | nil => exact other rfl rfl
      | cons d rest => exact other' d rest rfl rfl
    rw [found] at ih
    rw [List.cons_append, stringBody_cons slash (by rwa [beq_iff_eq] at differs),
      endsInEscape_cons slash]
    exact ih unclosed

theorem commentBody_cons {rest : List Char} (other : c = '/' → rest.head? ≠ some '#') :
    (commentBody (c :: rest)).2 = (commentBody rest).2 := by
  rw [commentBody.eq_3]
  rintro more rfl rfl
  exact other rfl rfl

/-- The body of a comment goes on behind a part of it with what belongs together. -/
theorem commentBody_onward {front : List Char} (back : List Char)
    (unclosed : (commentBody front).2.2 = false) :
    (commentBody (front ++ back)).2.1 =
      (commentBody ((if front.getLast? = some '/' then ['/'] else []) ++ back)).2.1 := by
  fun_induction commentBody front with
  | case1 => rfl
  | case2 => exact Bool.noConfusion unclosed
  | case3 c rest other body after ended found ih =>
    rw [found] at ih
    cases rest with
    | nil =>
      by_cases slash : c = '/'
      · rw [slash]
        rfl
      · have last : ¬ [c].getLast? = some '/' := fun last => slash (Option.some.inj last)
        rw [if_neg last, List.singleton_append, commentBody_cons fun here => absurd here slash]
        rfl
    | cons d rest =>
      have apart : c = '/' → (d :: rest ++ back).head? ≠ some '#' := by
        rintro slash hash
        exact other rest slash (by rw [Option.some.inj hash])
      rw [List.cons_append, commentBody_cons apart, List.getLast?_cons_cons]
      exact ih unclosed

/-- A slash in front of a text matters to where a comment ends if the text begins with a hash, and
is not at its end there. -/
theorem commentBody_slash (back : List Char) :
    (commentBody ('/' :: back)).2.1 = (commentBody back).2.1 ↔
      ¬ ∃ more, more ≠ [] ∧ back = '#' :: more := by
  by_cases hash : ∃ more, back = '#' :: more
  · obtain ⟨more, rfl⟩ := hash
    have inner : (commentBody ('#' :: more)).2.1 = afterBody .blockComment more :=
      congrArg Prod.fst (commentBody_cons fun here => absurd here (by decide))
    rw [inner, eq_comm, commentBody, afterBody_eq_self (by decide)]
    simp
  · have apart : '/' = '/' → back.head? ≠ some '#' := fun _ here =>
      hash (List.head?_eq_some_iff.mp here)
    rw [commentBody_cons apart]
    refine iff_of_true rfl ?_
    rintro ⟨more, -, here⟩
    exact hash ⟨more, here⟩

/-- A backslash in front of a text matters to where a string ends if the text goes on with any
number of backslashes and the delimiter, and is not at its end there. -/
theorem stringBody_backslash {delimiter : Char} (slash : delimiter ≠ '\\') (back : List Char) :
    (stringBody delimiter ('\\' :: back)).2.1 = (stringBody delimiter back).2.1 ↔
      ¬ ∃ count more, more ≠ [] ∧ back = List.replicate count '\\' ++ delimiter :: more := by
  induction back with
  | nil =>
    refine iff_of_true rfl ?_
    rintro ⟨count, more, -, split⟩
    exact absurd split.symm (List.append_ne_nil_of_right_ne_nil _ (List.cons_ne_nil _ _))
  | cons c rest ih =>
    rw [show (stringBody delimiter ('\\' :: c :: rest)).2.1 = (stringBody delimiter rest).2.1 from rfl]
    by_cases backslash : c = '\\'
    · subst backslash
      rw [eq_comm, ih]
      refine not_congr ⟨?_, ?_⟩
      · rintro ⟨count, more, some, rfl⟩
        exact ⟨count + 1, more, some, rfl⟩
      · rintro ⟨count, more, some, split⟩
        cases count with
        | zero => exact absurd (List.cons.inj split).1.symm slash
        | succ count => exact ⟨count, more, some, (List.cons.inj split).2⟩
    · have first {count : Nat} {more : List Char}
          (split : c :: rest = List.replicate count '\\' ++ delimiter :: more) :
          c = delimiter ∧ rest = more := by
        cases count with
        | zero => exact List.cons.inj split
        | succ count => exact absurd (List.cons.inj split).1 backslash
      by_cases closes : c = delimiter
      · subst closes
        rw [stringBody_delimiter backslash]
        refine (@afterBody_eq_self (.string c) nofun rest).trans ?_
        refine ⟨?_, fun whole => ?_⟩
        · rintro rfl ⟨count, more, some, split⟩
          exact some (first split).2.symm
        · by_contra some
          exact whole ⟨0, rest, some, rfl⟩
      · rw [stringBody_cons backslash closes]
        exact iff_of_true rfl fun ⟨count, more, _, split⟩ => closes (first split).1

/-- A lexeme that is broken off inside a construct is divided from its text: what belongs together
with what follows is taken for something else there. -/
def Divided : Mode → List Char → List Char → Prop
  | .normal, _, _ => False
  | .blockComment, chars, back =>
    (chars.drop 2).getLast? = some '/' ∧ ∃ more, more ≠ [] ∧ back = '#' :: more
  | .string delimiter, chars, back =>
    endsInEscape (chars.drop 1) = true ∧
      ∃ count more, more ≠ [] ∧ back = List.replicate count '\\' ++ delimiter :: more

/-- A body ends where it ends without what is before it, unless the two are divided. -/
theorem afterBody_pending {mode : Mode} (slash : mode ≠ .string '\\') (chars back : List Char) :
    afterBody mode (pending mode chars ++ back) = afterBody mode back ↔
      ¬ Divided mode chars back := by
  cases mode with
  | normal => exact iff_of_true rfl not_false
  | blockComment =>
    rw [pending, Divided]
    split
    case isTrue ends =>
      rw [and_iff_right ends]
      exact commentBody_slash back
    case isFalse ends => exact iff_of_true rfl fun divided => ends divided.1
  | string delimiter =>
    rw [pending, Divided]
    split
    case isTrue ends =>
      rw [and_iff_right ends]
      exact stringBody_backslash (fun same => slash (congrArg _ same)) back
    case isFalse ends => exact iff_of_true rfl fun divided => ends divided.1

/-- Together with what is before it, too, a body takes some characters of what follows. -/
theorem afterBody_pending_cons {mode : Mode} (inside : mode ≠ .normal) (chars : List Char) (c : Char)
    (rest : List Char) :
    ∃ taken, taken ≠ [] ∧ taken ++ afterBody mode (pending mode chars ++ c :: rest) = c :: rest := by
  cases mode with
  | normal => exact absurd rfl inside
  | blockComment =>
    rw [pending]
    split
    · by_cases hash : c = '#'
      · subst hash
        exact ⟨['#'], List.cons_ne_nil _ _, rfl⟩
      · have apart : '/' = '/' → (c :: rest).head? ≠ some '#' := fun _ here =>
          hash (Option.some.inj here)
        rw [List.singleton_append, afterBody, commentBody_cons apart]
        exact afterBody_cons inside c rest
    · exact afterBody_cons inside c rest
  | string delimiter =>
    rw [pending]
    split
    · obtain ⟨taken, split⟩ := afterBody_append (.string delimiter) rest
      exact ⟨c :: taken, List.cons_ne_nil _ _, congrArg (c :: ·) split⟩
    · exact afterBody_cons inside c rest

/-- Only block comments and strings can be broken off. -/
theorem readNormal_open (broken : (readNormal limit c rest).mode ≠ .normal) :
    (c = '#' ∧ ∃ body, rest = '/' :: body) ∨ CharClass.isQuote c = true :=
  (readNormal_plain_or_open limit c rest).resolve_left fun plain => broken plain.1

/-- How a lexeme that is broken off goes on: with what follows, and what it ends with that belongs
together with that. -/
theorem readNormal_onward (broken : (readNormal limit c rest).mode ≠ .normal) (back : List Char) :
    (readNormal limit c (rest ++ back)).rest =
        afterBody (readNormal limit c rest).mode
          (pending (readNormal limit c rest).mode (c :: rest) ++ back) ∧
      (readNormal limit c rest).mode ≠ .string '\\' := by
  rcases readNormal_open broken with ⟨rfl, body, rfl⟩ | quote
  · have comment (body : List Char) :
        readNormal limit '#' ('/' :: body) = (readComment body).prepend ['#', '/'] := rfl
    rw [List.cons_append, comment, comment] at *
    cases closed : (commentBody body).2.2 with
    | true => simp [prepend, readComment, closed] at broken
    | false =>
      have mode : (readComment body).mode = .blockComment := by
        simp [readComment, closed]
      change (readComment (body ++ back)).rest = afterBody (readComment body).mode
        (pending (readComment body).mode _ ++ _) ∧ (readComment body).mode ≠ _
      rw [mode, rest_readComment, commentBody_onward back closed]
      exact ⟨rfl, by rintro ⟨⟩⟩
  · rw [(readNormal_quote quote rest).2, (readNormal_quote quote (rest ++ back)).2] at *
    cases closed : (stringBody c rest).2.2 with
    | true => simp [prepend, readString, closed] at broken
    | false =>
      have mode : (readString c rest).mode = .string c := by simp [readString, closed]
      change (readString c (rest ++ back)).rest = afterBody (readString c rest).mode
        (pending (readString c rest).mode _ ++ _) ∧ (readString c rest).mode ≠ _
      rw [mode, rest_readString, stringBody_onward back closed]
      refine ⟨rfl, ?_⟩
      rintro same
      obtain rfl : c = '\\' := Mode.string.inj same
      exact absurd quote (by decide)

/-- The last lexeme of a text. -/
def lastOf (limit : Nat) (text : List Char) : List Char :=
  ((lexemes limit text).getLast?.map (·.chars)).getD []

/-- The construct that is open at the end of a text. -/
def modeAfter (limit : Nat) (text : List Char) : Mode :=
  ((lexemes limit text).getLast?.map (·.mode)).getD .normal

/-- A text that ends inside a construct ends with a lexeme that is broken off. -/
theorem exists_broken {text : List Char} (broken : modeAfter limit text ≠ .normal) :
    ∃ before c rest, lexemes limit text = before ++ [(readNormal limit c rest).bare] ∧
      text = charsOf before ++ c :: rest ∧ lastOf limit text = c :: rest ∧
      modeAfter limit text = (readNormal limit c rest).mode := by
  rw [modeAfter] at broken
  cases ends : (lexemes limit text).getLast? with
  | none =>
    rw [ends] at broken
    exact absurd rfl broken
  | some last =>
    obtain ⟨before, split⟩ := List.getLast?_eq_some_iff.mp ends
    obtain ⟨c, rest, chars, rfl, -⟩ := lexemes_of_cons (lexemes_back split)
    have whole : text = charsOf before ++ c :: rest := by
      rw [← chars, ← charsOf_append, ← split, charsOf_lexemes]
    refine ⟨before, c, rest, split, whole, ?_, ?_⟩
    · rw [lastOf, ends]
      change (readNormal limit c rest).bare.chars = _
      rw [← chars, charsOf_cons, charsOf_nil, List.append_nil]
    · rw [modeAfter, ends]
      rfl

/-- The lexemes before the one that is broken off stay the same when the text goes on. -/
theorem lexemes_broken {text : List Char} {front : List Lexeme}
    (broken : (readNormal limit c rest).mode ≠ .normal)
    (split : lexemes limit text = front ++ [(readNormal limit c rest).bare])
    (whole : text = charsOf front ++ c :: rest) (back : List Char) :
    lexemes limit (text ++ back) = front ++ (readNormal limit c (rest ++ back)).bare ::
      lexemes limit (readNormal limit c (rest ++ back)).rest := by
  have chars : charsOf [(readNormal limit c rest).bare] = c :: rest := by
    have same := congrArg charsOf split
    rw [charsOf_lexemes, charsOf_append, whole] at same
    exact (List.append_cancel_left same).symm
  have follows : Follows (charsOf [(readNormal limit c rest).bare]) (c :: rest ++ back) := by
    rw [chars]
    refine ⟨rfl, fun point => ?_⟩
    obtain rfl := Option.some.inj point
    rcases readNormal_open broken with ⟨hash, -⟩ | quote
    · exact absurd hash (by decide)
    · exact absurd quote (by decide)
  rw [whole, List.append_assoc, lexemes_front split follows, List.cons_append, lexemes_cons]

end Lexeme

namespace Scanner

open Lexeme

variable {s : Scanner}

theorem Between.mode_take (between : s.Between) {count : Nat} (enough : s.ahead.length < count) :
    (s.take count).2.mode = (s.ahead.getLast?.map (·.mode)).getD s.mode := by
  induction count generalizing s with
  | zero => exact absurd enough (Nat.not_lt_zero _)
  | succ count ih =>
    cases text : s.rest with
    | nil =>
      rw [Scanner.take, between.next_nil text, ahead, text, lexemes_nil]
      simp only [take_of_finished]
      rfl
    | cons c rest =>
      obtain ⟨found, between'⟩ := between.next_cons text
      have split : s.ahead = (readNormal s.operatorLimit c rest).bare ::
          (s.skip (readNormal s.operatorLimit c rest)).ahead := by
        rw [ahead, text, lexemes_cons]
        rfl
      rw [split, List.length_cons] at enough
      rw [Scanner.take, found, split, List.getLast?_cons]
      refine (ih between' (Nat.lt_of_succ_lt_succ enough)).trans ?_
      cases (s.skip (readNormal s.operatorLimit c rest)).ahead.getLast? <;> rfl

theorem mode_drain_ofText (text : String) (limit : Nat) :
    (ofText text limit).drain.2.mode = modeAfter limit text.toList :=
  (between_ofText text limit).mode_take (Nat.lt_succ_of_le (length_lexemes_le ..))

/-- The tokens of what is left of a text behind a part of it. -/
def tokensBehind (limit : Nat) (taken rest : List Char) : List Token :=
  tokensAt (Position.start.after taken) (lexemes limit rest) ++
    [⟨.eof, "", Position.start.after (taken ++ rest)⟩]

theorem start_of_mem_behind {limit : Nat} {taken rest : List Char} {token : Token}
    (member : token ∈ tokensBehind limit taken rest) : byteLength taken ≤ token.start := by
  rcases List.mem_append.mp member with member | member
  · have inside := (mem_tokensAt chars_ne_nil member).1
    rwa [Position.offset_after_start] at inside
  · obtain rfl := List.mem_singleton.mp member
    change _ ≤ (Position.start.after (taken ++ rest)).offset
    rw [Position.offset_after_start, byteLength_append]
    exact Nat.le_add_right ..

/-- The tokens of a scanner that begins inside a construct: what is left of it, and those of the text
behind it. -/
theorem drain_inside {mode : Mode} (inside : mode ≠ .normal) (limit : Nat) (front : List Char)
    {back : List Char} (some : back ≠ []) {taken : List Char}
    (split : taken ++ afterBody mode back = back) :
    ∃ first : Token, first.stop = byteLength (front ++ taken) ∧
      (drain ⟨back, Position.start.after front, mode, limit, false, .empty⟩).1 =
        first :: tokensBehind limit (front ++ taken) (afterBody mode back) := by
  obtain ⟨c, rest, rfl⟩ := List.exists_cons_of_ne_nil some
  obtain ⟨lexeme, read, whole, taken', -⟩ := read_splits limit mode c rest
  obtain ⟨left, mode'⟩ := rest_of_read inside read
  obtain rfl : lexeme.chars = taken := by
    rw [left] at whole
    exact List.append_cancel_right (whole.trans split.symm)
  have between : Between (skip ⟨c :: rest, Position.start.after front, mode, limit, false, .empty⟩
      lexeme) := ⟨rfl, mode'⟩
  have enough : (lexemes limit lexeme.rest).length < rest.length + 1 := by
    have shorter := congrArg List.length whole
    have := List.length_pos_iff.mpr taken'
    have := length_lexemes_le limit lexeme.rest
    rw [List.length_append, List.length_cons] at shorter
    omega
  have tokens := (between.take enough).1
  refine ⟨tokenAt (Position.start.after front) lexeme, ?_, ?_⟩
  · rw [stop_tokenAt, Position.offset_after_start, byteLength_append]
  · rw [drain, List.length_cons, take, next?]
    simp only [read, Bool.false_eq_true, ↓reduceIte]
    rw [tokens, tokensBehind, Position.after_append, Position.after_append, ← left,
      Position.after_append]
    change _ :: (tokensAt ((Position.start.after front).after lexeme.chars)
      (lexemes limit lexeme.rest) ++ [⟨.eof, "", ((Position.start.after front).after
        lexeme.chars).after (charsOf (lexemes limit lexeme.rest))⟩]) = _
    rw [charsOf_lexemes]
    rfl

/-- The tokens of a text that was broken off, with what follows: the one that it was broken off in
is the one around this place. -/
theorem scan_broken {front back : String} {limit : Nat} (some : back ≠ "")
    (broken : modeAfter limit front.toList ≠ .normal) :
    modeAfter limit front.toList ≠ .string '\\' ∧ ∃ earlier joined taken left,
      left = afterBody (modeAfter limit front.toList)
        (pending (modeAfter limit front.toList) (lastOf limit front.toList) ++ back.toList) ∧
      taken ≠ [] ∧ taken ++ left = back.toList ∧
      (scan (front ++ back) limit).1 =
        earlier ++ joined :: tokensBehind limit (front.toList ++ taken) left ∧
      (∀ token ∈ earlier, token.stop ≤ front.utf8ByteSize) ∧
      joined.start ≤ front.utf8ByteSize ∧ joined.stop = byteLength (front.toList ++ taken) := by
  obtain ⟨before, c, rest, split, text, last, mode⟩ := exists_broken broken
  rw [mode, last, ← byteLength_toList]
  rw [mode] at broken
  obtain ⟨onward, slash⟩ := readNormal_onward broken back.toList
  obtain ⟨d, others, follows⟩ := List.exists_cons_of_ne_nil (fun none => some (String.toList_eq_nil_iff.mp none))
  obtain ⟨taken, some', whole⟩ := afterBody_pending_cons broken (c :: rest) d others
  rw [← follows, ← onward] at whole
  have lexemes' := lexemes_broken broken split text back.toList
  rw [← String.toList_append] at lexemes'
  generalize joined_eq : readNormal limit c (rest ++ back.toList) = joined at *
  have chars : charsOf before ++ joined.chars = front.toList ++ taken := by
    have all := congrArg charsOf lexemes'
    rw [charsOf_lexemes, charsOf_append, charsOf_cons, charsOf_lexemes, String.toList_append,
      ← whole] at all
    change _ = charsOf before ++ (joined.chars ++ joined.rest) at all
    rw [← List.append_assoc, ← List.append_assoc] at all
    exact (List.append_cancel_right all).symm
  have inside : byteLength (charsOf before) ≤ byteLength front.toList := by
    rw [text, byteLength_append]
    exact Nat.le_add_right ..
  refine ⟨slash, tokensAt .start before, tokenAt (Position.start.after (charsOf before)) joined.bare,
    taken, joined.rest, onward, some', whole, ?_, fun token member => ?_, ?_, ?_⟩
  · have tokens := (between_ofText (front ++ back) limit).drain.1
    change _ = tokensAt .start (lexemes limit (front ++ back).toList) ++
      [⟨.eof, "", Position.start.after (charsOf (lexemes limit (front ++ back).toList))⟩] at tokens
    rw [charsOf_lexemes, lexemes', tokensAt_append, tokensAt, ← Position.after_append,
      String.toList_append, ← whole, ← List.append_assoc] at tokens
    change _ = _ ++ _ :: tokensAt (Position.start.after (charsOf before ++ joined.chars)) _ ++ _
      at tokens
    rw [chars, List.append_assoc, List.cons_append] at tokens
    exact tokens
  · have member' : ∀ lexeme ∈ before, lexeme.chars ≠ [] := fun lexeme here =>
      chars_ne_nil lexeme (split ▸ List.mem_append_left _ here)
    have := (mem_tokensAt member' member).2.2
    change _ ≤ 0 + _ at this
    omega
  · change (Position.start.after (charsOf before)).offset ≤ _
    rw [Position.offset_after_start]
    exact inside
  · rw [stop_tokenAt, Position.offset_after_start, ← byteLength_append]
    exact congrArg byteLength chars

/-- A scanner that is started where a text was broken off, inside the construct that was open there,
goes on as a scanner of the text and what follows does: its first token ends where the token that
the text was broken off in ends, and then it yields the same tokens. -/
def Continued (front back : String) (limit : Nat) : Prop :=
  ∃ earlier joined first later,
    (scan (front ++ back) limit).1 = earlier ++ joined :: later ∧
    joined.span.containsOffset front.utf8ByteSize = true ∧
    (resume (front ++ back) front.utf8ByteSize (ofText front limit).drain.2.mode limit).drain.1 =
      first :: later ∧
    first.stop = joined.stop

/-- When an interrupted construct is continued: whenever a text ends inside a string or a block
comment and something follows, unless the two are divided inside an escape or inside the mark that
ends the comment. -/
theorem continued_iff (front back : String) (limit : Nat) (some : back ≠ "")
    (broken : (ofText front limit).drain.2.mode ≠ .normal) :
    Continued front back limit ↔
      ¬ Divided (ofText front limit).drain.2.mode (lastOf limit front.toList) back.toList := by
  rw [Continued, mode_drain_ofText] at *
  generalize mode_eq : modeAfter limit front.toList = mode at *
  obtain ⟨slash, earlier, joined, taken, left, rfl, some', split, tokens, before, start, stop⟩ :=
    scan_broken some (mode_eq ▸ broken)
  rw [mode_eq] at slash split tokens
  rw [← afterBody_pending slash]
  obtain ⟨d, others, follows⟩ := List.exists_cons_of_ne_nil (fun none => some (String.toList_eq_nil_iff.mp none))
  obtain ⟨taken', some'', split'⟩ := afterBody_cons broken d others
  rw [← follows] at split'
  obtain ⟨first, ends, resumed⟩ := drain_inside broken limit front.toList
    (fun none => some (String.toList_eq_nil_iff.mp none)) split'
  have restarted := @resume_of_append (front ++ back) _ _ String.toList_append mode limit
  rw [byteLength_toList] at restarted
  rw [restarted, resumed]
  have longer : front.utf8ByteSize < byteLength (front.toList ++ taken) := by
    have := byteLength_pos some'
    rw [byteLength_append, byteLength_toList]
    omega
  constructor
  · rintro ⟨earlier', joined', first', later, tokens', around, resumed', stops⟩
    simp only [Span.containsOffset, Bool.and_eq_true, decide_eq_true_eq] at around
    have member : joined' ∈ (scan (front ++ back) limit).1 := by simp [tokens']
    have same : joined' = joined := by
      rw [tokens] at member
      rcases List.mem_append.mp member with member | member
      · exact absurd around.2 (Nat.not_lt.mpr (before _ member))
      · rcases List.mem_cons.mp member with same | member
        · exact same
        · have behind := start_of_mem_behind member
          exact absurd around.1 (Nat.not_le.mpr (Nat.lt_of_lt_of_le longer behind))
    rw [← (List.cons.inj resumed').1, ends, same, stop, byteLength_append, byteLength_append] at stops
    exact (eq_of_byteLength_eq (split.trans split'.symm) (Nat.add_left_cancel stops).symm).2
  · intro same
    rw [same] at split tokens
    obtain rfl : taken = taken' := List.append_cancel_right (split.trans split'.symm)
    refine ⟨earlier, joined, first, _, tokens, ?_, rfl, ends.trans stop.symm⟩
    simp only [Span.containsOffset, Bool.and_eq_true, decide_eq_true_eq]
    exact ⟨start, Nat.lt_of_lt_of_eq longer stop.symm⟩

/-- A comment that is broken off after a slash that no hash follows. -/
theorem continued_after_slash :
    "b /# c" ≠ "" ∧ (ofText "x #/ a/" 3).drain.2.mode ≠ .normal ∧ Continued "x #/ a/" "b /# c" 3 := by
  have some : "b /# c" ≠ "" := by decide
  have broken : (ofText "x #/ a/" 3).drain.2.mode ≠ .normal := by decide
  have mode : (ofText "x #/ a/" 3).drain.2.mode = .blockComment := by decide
  refine ⟨some, broken, (continued_iff _ _ _ some broken).mpr ?_⟩
  rw [mode, Divided]
  rintro ⟨-, more, -, split⟩
  exact absurd (List.cons.inj split).1 (by decide)

/-- A string that is broken off behind the backslash of an escaped delimiter is not continued: a
scanner that is started there takes the delimiter for the end of the string. -/
theorem not_continued_in_escape :
    "\"b\" c" ≠ "" ∧ (ofText "\"a\\" 3).drain.2.mode ≠ .normal ∧
      ¬ Continued "\"a\\" "\"b\" c" 3 := by
  refine ⟨by decide, by decide, ?_⟩
  rintro ⟨earlier, joined, first, later, tokens, around, resumed, stops⟩
  have whole : ∀ token ∈ (scan ("\"a\\" ++ "\"b\" c") 3).1,
      token.span.containsOffset "\"a\\".utf8ByteSize = true → token.stop = 6 := by decide
  have short : (resume ("\"a\\" ++ "\"b\" c") "\"a\\".utf8ByteSize
      (ofText "\"a\\" 3).drain.2.mode 3).drain.1.head?.map (·.stop) = some 4 := by decide
  rw [tokens] at whole
  have end6 := whole joined (List.mem_append_right _ List.mem_cons_self) around
  have end4 : first.stop = 4 := by
    rw [resumed] at short
    exact Option.some.inj short
  rw [end4, end6] at stops
  exact absurd stops (by decide)

end Scanner

end LosslessSyntax
