import LosslessSyntax.Proofs.Scanner.Lexemes

/-! # Scanning partitions the text

Whatever construct a scanner begins inside of, each lexeme takes at least one character off the text
(`Lexeme.read_splits`). So the tokens of a scanner that begins anywhere in a text come to an end, and
cover what is left of the text without gap or overlap (`Token.Covers`), the last one being the only
one that ends the text (`scanning_partitions`).
-/

namespace LosslessSyntax

open Text

namespace Lexeme

theorem kind_stringKind (delimiter : Char) : stringKind delimiter ≠ .eof := by
  rw [stringKind]
  split <;> decide

/-- A lexeme takes some characters off the front of the text and is not the end of the text. -/
theorem read_splits (limit : Nat) (mode : Mode) (c : Char) (rest : List Char) :
    ∃ lexeme, read limit mode (c :: rest) = some lexeme ∧
      lexeme.chars ++ lexeme.rest = c :: rest ∧ lexeme.chars ≠ [] ∧ lexeme.kind ≠ .eof := by
  cases mode with
  | normal =>
    obtain ⟨more, settles⟩ := readNormal_settles limit c rest
    refine ⟨_, rfl, ?_, ?_, (kind_readNormal limit c rest).2⟩
    · rw [settles.chars, List.cons_append, settles.split]
    · rw [settles.chars]
      exact List.cons_ne_nil c more
  | blockComment =>
    refine ⟨_, rfl, (readComment_reads (c :: rest)).1, fun none => ?_, ?_⟩
    · have whole := (readComment_reads (c :: rest)).1
      cases closed : (commentBody (c :: rest)).2.2 with
      | true =>
        simp only [readComment, closed, ↓reduceIte] at none
        exact commentBody_ne_nil closed none
      | false =>
        simp only [readComment, closed, Bool.false_eq_true, ↓reduceIte] at none whole
        rw [none, commentBody_open closed] at whole
        exact absurd whole (List.cons_ne_nil c rest).symm
    · simp only [readComment]
      split <;> rintro ⟨⟩
  | string delimiter =>
    refine ⟨_, rfl, (readString_reads delimiter (c :: rest)).1, fun none => ?_, ?_⟩
    · have whole := (readString_reads delimiter (c :: rest)).1
      cases closed : (stringBody delimiter (c :: rest)).2.2 with
      | true =>
        simp only [readString, closed, ↓reduceIte] at none
        exact stringBody_ne_nil closed none
      | false =>
        simp only [readString, closed, Bool.false_eq_true, ↓reduceIte] at none whole
        rw [none, stringBody_open closed] at whole
        exact absurd whole (List.cons_ne_nil c rest).symm
    · simp only [readString]
      split <;> exact kind_stringKind delimiter

/-- A lexeme and what is left after it make up the text. -/
theorem read_append {limit : Nat} {mode : Mode} {text : List Char} {lexeme : Lexeme}
    (found : read limit mode text = some lexeme) : lexeme.chars ++ lexeme.rest = text := by
  cases text with
  | nil => exact nomatch found
  | cons c rest =>
    obtain ⟨lexeme', found', split, -⟩ := read_splits limit mode c rest
    obtain rfl := Option.some.inj (found.symm.trans found')
    exact split

theorem read_eq_none_iff {limit : Nat} {mode : Mode} {text : List Char} :
    read limit mode text = none ↔ text = [] := by
  cases text with
  | nil => exact iff_of_true rfl rfl
  | cons c rest =>
    obtain ⟨lexeme, found, -⟩ := read_splits limit mode c rest
    rw [found]
    exact iff_of_false (Option.some_ne_none _) (List.cons_ne_nil c rest)

end Lexeme

namespace Token

/-- Tokens that follow each other without gap or overlap from `start` up to `stop`. -/
def Abut (start stop : Nat) : List Token → Prop
  | [] => start = stop
  | first :: rest => first.start = start ∧ Abut first.stop stop rest

/-- Tokens cover a text from `start` on: they abut, each one holds the part of the text between its
ends, which do not split characters, and only the last one is empty and ends the text. -/
structure Covers (text : String) (start : Nat) (tokens : List Token) : Prop where
  abut : Abut start text.utf8ByteSize tokens
  slices : ∀ token ∈ tokens, slice? text token.start token.stop = some token.text
  boundaries : ∀ token ∈ tokens, isBoundary text token.stop = true
  ends : ∃ others ending, tokens = others ++ [ending] ∧ ending.kind = .eof ∧
    ending.span = .empty text.utf8ByteSize ∧
    ∀ token ∈ others, token.kind ≠ .eof ∧ token.start < token.stop

theorem isBoundary_of_append {text : String} {front back : List Char}
    (whole : text.toList = front ++ back) : isBoundary text (byteLength front) = true :=
  TextEdit.isBoundary_iff.mpr ⟨front, back, whole, rfl⟩

/-- The end of a text covers what is left of it when nothing is. -/
theorem covers_ending {text : String} {position : Position}
    (place : position.offset = text.utf8ByteSize) :
    Covers text text.utf8ByteSize [⟨.eof, "", position⟩] := by
  have whole : text.toList = text.toList ++ ([] ++ []) := by simp
  have stop : (⟨.eof, "", position⟩ : Token).stop = text.utf8ByteSize := place
  refine ⟨⟨place, stop⟩, fun token member => ?_, fun token member => ?_,
    [], _, rfl, rfl, ?_, nofun⟩
  · obtain rfl := List.mem_singleton.mp member
    rw [stop, start, place]
    have slice := slice?_of_append whole
    rwa [byteLength_toList, byteLength_nil, Nat.add_zero] at slice
  · obtain rfl := List.mem_singleton.mp member
    rw [stop, ← byteLength_toList]
    exact isBoundary_of_append whole
  · rw [span, stop, start, place]
    rfl

/-- A token in front of tokens that cover the text behind it. -/
theorem Covers.cons {text : String} {front part back : List Char} {first : Token}
    {tokens : List Token} (whole : text.toList = front ++ (part ++ back)) (some : part ≠ [])
    (chars : first.text = String.ofList part) (place : first.start = byteLength front)
    (inside : first.kind ≠ .eof)
    (covers : Covers text (byteLength (front ++ part)) tokens) :
    Covers text (byteLength front) (first :: tokens) := by
  have stop : first.stop = byteLength front + byteLength part := by
    rw [Token.stop, place, chars, utf8ByteSize_ofList]
  obtain ⟨others, ending, rfl, kind, span, solid⟩ := covers.ends
  refine ⟨⟨place, ?_⟩, ?_, ?_, first :: others, ending, rfl, kind, span, ?_⟩
  · rw [stop, ← byteLength_append]
    exact covers.abut
  · refine List.forall_mem_cons.mpr ⟨?_, covers.slices⟩
    rw [place, stop, chars]
    exact slice?_of_append whole
  · refine List.forall_mem_cons.mpr ⟨?_, covers.boundaries⟩
    rw [stop, ← byteLength_append]
    rw [← List.append_assoc] at whole
    exact isBoundary_of_append whole
  · refine List.forall_mem_cons.mpr ⟨⟨inside, ?_⟩, solid⟩
    rw [stop, place]
    exact Nat.lt_add_of_pos_right (byteLength_pos some)

end Token

namespace Scanner

/-- A scanner yields some tokens, one after the other, and then no more. -/
inductive Yields : Scanner → List Token → Prop
  /-- There is no token. -/
  | done {s : Scanner} : s.next? = none → Yields s []
  /-- There is a token, and then there are the tokens of the scanner after it. -/
  | step {s next : Scanner} {token : Token} {tokens : List Token} :
    s.next? = some (token, next) → Yields next tokens → Yields s (token :: tokens)

/-- What a scanner does in the middle of a text: it yields the tokens that it is drained of, and
they cover the rest of the text. -/
theorem covers_take {text : String} {before : List Char} {s : Scanner} {count : Nat}
    (whole : text.toList = before ++ s.rest) (place : s.position.offset = byteLength before)
    (unfinished : s.finished = false) (enough : s.rest.length < count) :
    Yields s (s.take count).1 ∧ Token.Covers text (byteLength before) (s.take count).1 ∧
      String.join ((s.take count).1.map (·.text)) = String.ofList s.rest := by
  obtain ⟨count, rfl⟩ := Nat.exists_eq_succ_of_ne_zero (Nat.ne_zero_of_lt enough)
  induction count generalizing s before with
  | zero =>
    have none : s.rest = [] := List.eq_nil_of_length_eq_zero (Nat.lt_one_iff.mp enough)
    have next : s.next? = some (⟨.eof, "", s.position⟩, { s with finished := true }) := by
      rw [next?, unfinished, none]
      rfl
    rw [none, List.append_nil] at whole
    rw [← whole, byteLength_toList] at place ⊢
    simp only [take, next, none]
    exact ⟨.step next (.done rfl), Token.covers_ending place, rfl⟩
  | succ count ih =>
    cases rest : s.rest with
    | nil =>
      have next : s.next? = some (⟨.eof, "", s.position⟩, { s with finished := true }) := by
        rw [next?, unfinished, rest]
        rfl
      rw [rest, List.append_nil] at whole
      rw [← whole, byteLength_toList] at place ⊢
      have last : ({ s with finished := true } : Scanner).next? = none := rfl
      simp only [take, next, last]
      exact ⟨.step next (.done last), Token.covers_ending place, rfl⟩
    | cons c more =>
      obtain ⟨lexeme, read, split, some, inside⟩ :=
        Lexeme.read_splits s.operatorLimit s.mode c more
      have next : s.next? = .some (s.token lexeme, s.skip lexeme) := by
        rw [next?, unfinished, rest, read]
        rfl
      have shorter : (s.skip lexeme).rest.length < count + 1 := by
        have length := congrArg List.length split
        rw [rest, List.length_cons] at enough
        rw [List.length_append, List.length_cons] at length
        have := List.length_pos_iff.mpr some
        change lexeme.rest.length < count + 1
        omega
      rw [rest, ← split] at whole
      have place' : (s.skip lexeme).position.offset = byteLength (before ++ lexeme.chars) := by
        change (s.position.after lexeme.chars).offset = _
        rw [Position.offset_after, place, byteLength_append]
      obtain ⟨yields, covers, joined⟩ := @ih (before ++ lexeme.chars) _
        (whole.trans (List.append_assoc ..).symm) place' unfinished shorter
      rw [take, next]
      refine ⟨.step next yields, covers.cons whole some rfl place inside, ?_⟩
      simp only [List.map_cons, String.join_cons, joined, ← split]
      rw [String.ofList_append]
      rfl

theorem ofText_eq_resume (text : String) (limit : Nat) :
    ofText text limit = resume text 0 .normal limit := by
  have cut := splitWithin_of_append [] text.toList
  rw [byteLength_nil, List.nil_append] at cut
  rw [resume, cut]
  rfl

/-- No later offset within `count` bytes lies between two characters. -/
theorem splitWithin_greatest {count : Nat} {text front back : List Char}
    (whole : text = front ++ back) (within : byteLength front ≤ count) :
    byteLength front ≤ byteLength (splitWithin count text).1 := by
  subst whole
  induction front generalizing count with
  | nil => exact Nat.zero_le _
  | cons c front ih =>
    rw [byteLength_cons] at within ⊢
    rw [List.cons_append, splitWithin, if_pos (by omega), byteLength_cons]
    exact Nat.add_le_add_left (ih (by omega)) _

theorem splitWithin_le (count : Nat) (text : List Char) :
    byteLength (splitWithin count text).1 ≤ count := by
  induction text generalizing count with
  | nil => exact Nat.zero_le _
  | cons c rest ih =>
    rw [splitWithin]
    split
    case isTrue fits =>
      rw [byteLength_cons]
      have := ih (count - c.utf8Size)
      omega
    case isFalse => exact Nat.zero_le _

/-- Scanning partitions the text. A scanner that is started at any offset of a text, inside any
construct, yields finitely many tokens and then no more. They cover the text from the last place
between two characters that is not after the offset, and their texts make up what is left of the
text there. A scanner of the whole text is one that is started at its beginning. -/
theorem scanning_partitions (text : String) (offset : Nat) (mode : Mode) (limit : Nat) :
    ∃ start, (isBoundary text start = true ∧ start ≤ offset ∧
        ∀ other ≤ offset, isBoundary text other = true → other ≤ start) ∧
      Yields (resume text offset mode limit) (resume text offset mode limit).drain.1 ∧
      Token.Covers text start (resume text offset mode limit).drain.1 ∧
      slice? text start text.utf8ByteSize =
        some (String.join ((resume text offset mode limit).drain.1.map (·.text))) ∧
      ofText text limit = resume text 0 .normal limit := by
  have whole : text.toList =
      (splitWithin offset text.toList).1 ++ (splitWithin offset text.toList).2 :=
    (splitWithin_append offset text.toList).symm
  have place : (resume text offset mode limit).position.offset =
      byteLength (splitWithin offset text.toList).1 := Position.offset_after_start _
  obtain ⟨yields, covers, joined⟩ := covers_take whole place rfl (Nat.lt_succ_self _)
  refine ⟨_, ⟨Token.isBoundary_of_append whole, splitWithin_le _ _, fun other within inside => ?_⟩,
    yields, covers, ?_, ofText_eq_resume text limit⟩
  · obtain ⟨front, back, cut, rfl⟩ := TextEdit.isBoundary_iff.mp inside
    exact splitWithin_greatest cut within
  · have slice := slice?_of_append
      (whole.trans (congrArg _ (List.append_nil _).symm))
    rw [← byteLength_append, ← whole, byteLength_toList] at slice
    exact slice.trans (congrArg some joined.symm)

end Scanner

end LosslessSyntax
