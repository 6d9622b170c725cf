import LosslessSyntax.Proofs.Scanner.Partition

/-! # What decides where tokens end

To find where a token ends, a scanner looks at the character behind it, and at one more only where a
point follows a number. So of the text behind a token little has to be known for the token to stay as
it is (`Lexeme.Decided`), whatever the rest is (`Lexeme.read_decided`). Two scanners at one place
whose texts begin alike (`Scanner.Shares`) therefore yield the same token and again stand at one
place (`Shares.next`), and so on up to the last token that what they share decides (`Shares.yields`).
`looks_two_ahead` says so of texts and offsets: two characters behind a token are always enough.
-/

namespace LosslessSyntax

open Text

namespace Lexeme

/-- The text that is known behind a lexeme decides that it ends there: it is not empty, and not just
a point if the lexeme is a number. -/
structure Decided (kind : TokenKind) (known : List Char) : Prop where
  nonempty : known ≠ []
  point : kind = .number → known ≠ ['.']

/-- Two characters decide where any lexeme ends. -/
theorem Decided.of_two {kind : TokenKind} {known : List Char} (two : 2 ≤ known.length) :
    Decided kind known where
  nonempty none := absurd two (by rw [none]; decide)
  point _ single := absurd two (by rw [single]; decide)

theorem Decided.head {kind : TokenKind} {known : List Char} (decided : Decided kind known)
    (back back' : List Char) : (known ++ back').head? = (known ++ back).head? := by
  obtain ⟨c, more, rfl⟩ := List.exists_cons_of_ne_nil decided.nonempty
  rfl

/-- What decides where a number ends shows whether a digit follows a point. -/
theorem Decided.follows {known : List Char} (decided : Decided .number known)
    (back back' : List Char) : Follows (known ++ back) (known ++ back') := by
  refine ⟨decided.head back back', fun point => ?_⟩
  match known, decided with
  | [], decided => exact absurd rfl decided.nonempty
  | [c], decided =>
    obtain rfl : c = '.' := Option.some.inj point
    exact absurd rfl (decided.point rfl)
  | c :: d :: more, _ => rfl

theorem read_blockComment (limit : Nat) {text : List Char} (nonempty : text ≠ []) :
    read limit .blockComment text = some (readComment text) := by
  obtain ⟨c, rest, rfl⟩ := List.exists_cons_of_ne_nil nonempty
  rfl

theorem read_string (limit : Nat) (delimiter : Char) {text : List Char} (nonempty : text ≠ []) :
    read limit (.string delimiter) text = some (readString delimiter text) := by
  obtain ⟨c, rest, rfl⟩ := List.exists_cons_of_ne_nil nonempty
  rfl

/-- A lexeme stays as it is when the text changes behind what decides where the lexeme ends. -/
theorem read_decided {limit : Nat} {mode : Mode} {text known back : List Char} {lexeme : Lexeme}
    (found : read limit mode text = some lexeme) (rest : lexeme.rest = known ++ back)
    (decided : Decided lexeme.kind known) (back' : List Char) :
    read limit mode (lexeme.chars ++ (known ++ back')) =
      some { lexeme with rest := known ++ back' } := by
  have head : (known ++ back').head? = lexeme.rest.head? := by
    rw [rest]
    exact decided.head back back'
  have nonempty : lexeme.chars ++ (known ++ back') ≠ [] := by simp [decided.nonempty]
  cases text with
  | nil => exact nomatch found
  | cons c more =>
  cases mode with
  | normal =>
    obtain rfl := Option.some.inj found
    obtain ⟨others, chars, -, -, stable⟩ := readNormal_settles limit c more
    have same := stable _ head fun digit => by
      rw [(kind_readNormal limit c more).1.mpr digit] at decided
      rw [rest]
      exact decided.follows back back'
    have starts : (readNormal limit c more).chars ++ (known ++ back') =
      c :: (others ++ (known ++ back')) := by rw [chars, List.cons_append]
    rw [starts]
    exact congrArg some same
  | blockComment =>
    obtain rfl := Option.some.inj found
    rw [read_blockComment limit nonempty, readComment_stable (c :: more) _ head]
  | string delimiter =>
    obtain rfl := Option.some.inj found
    rw [read_string limit delimiter nonempty, readString_stable delimiter (c :: more) _ head]

end Lexeme

namespace Token

/-- The text of some tokens. -/
def charsOf (tokens : List Token) : List Char := (String.join (tokens.map (·.text))).toList

@[simp] theorem charsOf_nil : charsOf [] = [] := rfl

@[simp] theorem charsOf_cons (first : Token) (rest : List Token) :
    charsOf (first :: rest) = first.text.toList ++ charsOf rest := by
  rw [charsOf, List.map_cons, String.join_cons, String.toList_append, ← charsOf]

@[simp] theorem charsOf_append (front back : List Token) :
    charsOf (front ++ back) = charsOf front ++ charsOf back := by
  rw [charsOf, List.map_append, String.join_append, String.toList_append, ← charsOf, ← charsOf]

/-- A token starts behind the text of the tokens before it. -/
theorem Abut.start_eq {start stop : Nat} {earlier later : List Token} {token : Token}
    (abut : Abut start stop (earlier ++ token :: later)) :
    token.start = start + byteLength (charsOf earlier) := by
  induction earlier generalizing start with
  | nil => exact abut.1
  | cons first earlier ih =>
    obtain ⟨rfl, abut⟩ := abut
    rw [ih abut, charsOf_cons, byteLength_append, byteLength_toList, Token.stop, Nat.add_assoc]

/-- Before the end of the text no token is empty. -/
theorem Covers.text_ne_nil {text : String} {start : Nat} {tokens : List Token} {token : Token}
    (covers : Covers text start tokens) (member : token ∈ tokens)
    (before : token.stop < text.utf8ByteSize) : token.text.toList ≠ [] := by
  intro none
  obtain ⟨others, ending, rfl, -, span, solid⟩ := covers.ends
  rcases List.mem_append.mp member with inside | last
  · have := (solid token inside).2
    rw [Token.stop, ← byteLength_toList, none, byteLength_nil] at this
    omega
  · obtain rfl := List.mem_singleton.mp last
    have : token.stop = text.utf8ByteSize := congrArg Span.stop span
    omega

/-- What follows a token in a text follows the texts of the tokens up to it. -/
theorem Covers.known_behind {text known : String} {before left : List Char} {stop : Nat}
    {earlier later : List Token} {token : Token} (whole : text.toList = before ++ left)
    (covers : Covers text (byteLength before) (earlier ++ token :: later))
    (joined : charsOf (earlier ++ token :: later) = left)
    (followed : slice? text token.stop stop = some known) :
    ∃ back, left = charsOf earlier ++ (token.text.toList ++ known.toList) ++ back ∧
      byteLength (before ++ (charsOf earlier ++ (token.text.toList ++ known.toList))) = stop := by
  obtain ⟨front, back, around, place, length⟩ := slice?_eq_some_iff.mp followed
  have stop_eq : byteLength (before ++ (charsOf earlier ++ token.text.toList)) = token.stop := by
    simp only [byteLength_append]
    rw [Token.stop, covers.abut.start_eq, byteLength_toList, Nat.add_assoc]
  have split : before ++ (charsOf earlier ++ token.text.toList) ++ charsOf later =
      front ++ (known.toList ++ back) := by
    rw [← around, whole, ← joined, charsOf_append, charsOf_cons]
    simp only [List.append_assoc]
  obtain ⟨-, behind⟩ := eq_of_byteLength_eq split (stop_eq.trans place.symm)
  refine ⟨back, ?_, ?_⟩
  · rw [← joined, charsOf_append, charsOf_cons, behind]
    simp only [List.append_assoc]
  · rw [← length, ← stop_eq]
    simp only [byteLength_append]
    omega

end Token

namespace Scanner

open Lexeme

variable {s t : Scanner} {token : Token} {known : List Char}

/-- Two scanners differ only in what they have noted and in the texts before them, and the texts have
a beginning in common. -/
structure Shares (part : List Char) (s t : Scanner) : Prop where
  position : t.position = s.position
  mode : t.mode = s.mode
  limit : t.operatorLimit = s.operatorLimit
  finished : t.finished = s.finished
  split : ∃ back back', s.rest = part ++ back ∧ t.rest = part ++ back'

/-- A token is yielded by both scanners if what they share decides where it ends. -/
theorem Shares.next {next : Scanner} (shares : Shares (token.text.toList ++ known) s t)
    (found : s.next? = some (token, next)) (decided : Decided token.kind known) :
    ∃ next', t.next? = some (token, next') ∧ Shares known next next' := by
  obtain ⟨position, mode, limit, finished, back, back', split, split'⟩ := shares
  rw [next?] at found
  split at found
  case isTrue => exact absurd found.symm (Option.some_ne_none _)
  case isFalse unfinished =>
  cases read : Lexeme.read s.operatorLimit s.mode s.rest with
  | none =>
    -- behind the end of the text nothing is known
    rw [read_eq_none_iff, split] at read
    simp only [List.append_eq_nil_iff] at read
    exact absurd read.1.2 decided.nonempty
  | some lexeme =>
    rw [read] at found
    obtain ⟨rfl, rfl⟩ := Prod.mk.inj (Option.some.inj found)
    have chars : (s.token lexeme).text.toList = lexeme.chars := String.toList_ofList
    rw [chars, List.append_assoc] at split split'
    have rest : lexeme.rest = known ++ back :=
      List.append_cancel_left ((read_append read).trans split)
    have read' := read_decided read rest decided back'
    rw [← split', ← mode, ← limit] at read'
    refine ⟨t.skip { lexeme with rest := known ++ back' }, ?_, ?_⟩
    · have same : t.token { lexeme with rest := known ++ back' } = s.token lexeme :=
        congrArg (Token.mk lexeme.kind (String.ofList lexeme.chars)) position
      rw [next?, finished, if_neg unfinished, read']
      exact congrArg (fun token => some (token, _)) same
    · exact ⟨congrArg (·.after lexeme.chars) position, rfl, limit, finished, back, back', rest, rfl⟩

/-- A scanner that yields a token yields it first. -/
theorem Yields.head {tokens : List Token} {next : Scanner} (yields : Yields s tokens)
    (found : s.next? = some (token, next)) :
    ∃ later, tokens = token :: later ∧ Yields next later := by
  cases yields with
  | done none => exact absurd (none.symm.trans found) (Option.some_ne_none _).symm
  | step found' later =>
    obtain ⟨rfl, rfl⟩ := Prod.mk.inj (Option.some.inj (found.symm.trans found'))
    exact ⟨_, rfl, later⟩

/-- All tokens up to one are yielded by both scanners if what they share decides where this one
ends. -/
theorem Shares.yields {earlier later tokens' : List Token}
    (shares : Shares (Token.charsOf earlier ++ (token.text.toList ++ known)) s t)
    (yields : Yields s (earlier ++ token :: later)) (yields' : Yields t tokens')
    (nonempty : token.text.toList ≠ []) (decided : Decided token.kind known) :
    ∃ later', tokens' = earlier ++ token :: later' := by
  induction earlier generalizing s t tokens' with
  | nil =>
    cases yields with
    | step found _ =>
    obtain ⟨next', found', -⟩ := Shares.next shares found decided
    obtain ⟨later', rfl, -⟩ := yields'.head found'
    exact ⟨later', rfl⟩
  | cons first earlier ih =>
    cases yields with
    | step found yields =>
    rw [Token.charsOf_cons, List.append_assoc] at shares
    -- the token and a character behind it are enough for the tokens before it
    have two : 2 ≤ (Token.charsOf earlier ++ (token.text.toList ++ known)).length := by
      have := List.length_pos_iff.mpr nonempty
      have := List.length_pos_iff.mpr decided.nonempty
      simp only [List.length_append]
      omega
    obtain ⟨next', found', shares'⟩ := shares.next found (.of_two two)
    obtain ⟨others, rfl, yields''⟩ := yields'.head found'
    obtain ⟨later', rfl⟩ := ih shares' yields yields''
    exact ⟨later', rfl⟩

/-- Where a scanner of a text is started, and that it yields the tokens of what is left there. -/
theorem yields_resume (text : String) (offset : Nat) (mode : Mode) (limit : Nat) :
    ∃ before left, splitWithin offset text.toList = (before, left) ∧ text.toList = before ++ left ∧
      Yields (resume text offset mode limit) (resume text offset mode limit).drain.1 ∧
      Token.Covers text (byteLength before) (resume text offset mode limit).drain.1 ∧
      Token.charsOf (resume text offset mode limit).drain.1 = left := by
  have whole := (splitWithin_append offset text.toList).symm
  obtain ⟨yields, covers, joined⟩ := covers_take (s := resume text offset mode limit) whole
    (Position.offset_after_start _) rfl (Nat.lt_succ_self _)
  have chars := (congrArg String.toList joined).trans String.toList_ofList
  exact ⟨_, _, rfl, whole, yields, covers, chars⟩

/-- Scanners that are started alike, before the end of what two texts share, stand at one place. -/
theorem shares_resume {text text' : String} {offset : Nat} {before part back back' : List Char}
    (whole : text.toList = before ++ (part ++ back)) (whole' : text'.toList = before ++ (part ++ back'))
    (cut : splitWithin offset text.toList = (before, part ++ back)) (nonempty : part ≠ [])
    (mode : Mode) (limit : Nat) :
    Shares part (resume text offset mode limit) (resume text' offset mode limit) := by
  rw [whole] at cut
  rw [resume, resume, whole, whole', cut, splitWithin_onward nonempty cut back']
  exact ⟨rfl, rfl, rfl, rfl, back, back', rfl, rfl⟩

/-- A token stays where it is when the text changes behind what decides where the token ends. Two texts
have their first `stop` bytes in common. Wherever a scanner of the first text is started, inside
whatever construct: if a token of it is decided by the shared text behind it, a scanner of the second
text that is started likewise yields it too, after as many others. -/
theorem tokens_decided {text text' shared known : String} {stop : Nat}
    (old : slice? text 0 stop = some shared) (new : slice? text' 0 stop = some shared)
    (offset : Nat) (mode : Mode) (limit : Nat) {index : Nat}
    (found : (resume text offset mode limit).drain.1[index]? = some token)
    (followed : slice? text token.stop stop = some known)
    (decided : Decided token.kind known.toList) :
    (resume text' offset mode limit).drain.1[index]? = some token := by
  obtain ⟨before, left, cut, whole, yields, covers, joined⟩ :=
    yields_resume text offset mode limit
  obtain ⟨-, -, -, -, yields', -⟩ := yields_resume text' offset mode limit
  obtain ⟨within, here⟩ := List.getElem?_eq_some_iff.mp found
  generalize (resume text offset mode limit).drain.1 = tokens at *
  obtain ⟨earlier, later, rfl, rfl⟩ : ∃ earlier later, tokens = earlier ++ token :: later ∧
      earlier.length = index := by
    refine ⟨tokens.take index, tokens.drop (index + 1), ?_, List.length_take_of_le within.le⟩
    rw [← here, List.getElem_cons_drop within, List.take_append_drop]
  obtain ⟨back, rfl, length⟩ := covers.known_behind whole joined followed
  -- what the texts share ends where what is known behind the token does
  have part : shared.toList =
      before ++ (Token.charsOf earlier ++ (token.text.toList ++ known.toList)) := by
    obtain ⟨behind, begins, length'⟩ := exists_of_slice?_zero old
    rw [whole, ← List.append_assoc] at begins
    exact (eq_of_byteLength_eq begins.symm (length'.trans length.symm)).1
  obtain ⟨back', whole', -⟩ := exists_of_slice?_zero new
  rw [part, List.append_assoc] at whole'
  have shares := shares_resume whole whole' cut (by simp [decided.nonempty]) mode limit
  have nonempty := covers.text_ne_nil (by simp) (lt_of_slice? followed decided.nonempty)
  obtain ⟨later', same⟩ := shares.yields yields yields' nonempty decided
  rw [same, List.getElem?_append_right (Nat.le_refl _), Nat.sub_self]
  rfl

/-- A scanner looks at most two characters ahead. Two texts have their first `stop` bytes in common:
every token of the first text behind which at least two whole characters of these bytes stand is a
token of the second one, too, with as many tokens before it, and with the same kind, text and
position. -/
theorem looks_two_ahead {text text' shared behind : String} {stop limit index : Nat} {token : Token}
    (old : slice? text 0 stop = some shared) (new : slice? text' 0 stop = some shared)
    (found : (scan text limit).1[index]? = some token)
    (followed : slice? text token.stop stop = some behind) (two : 2 ≤ behind.length) :
    (scan text' limit).1[index]? = some token := by
  have scanned (text : String) : (scan text limit).1 = (resume text 0 .normal limit).drain.1 := by
    rw [scan, ofText_eq_resume]
  rw [scanned] at found ⊢
  exact tokens_decided old new 0 .normal limit found followed (.of_two two)

/-- A number before a point that no digit follows, which only the second character behind it shows. -/
theorem looks_two_ahead_past_point :
    slice? "é 1.x (" 0 6 = some "é 1.x" ∧ slice? "é 1.xy\"" 0 6 = some "é 1.x" ∧
      (scan "é 1.x (" 3).1[2]? = some ⟨.number, "1", ⟨3, 1, 3⟩⟩ ∧
      slice? "é 1.x (" 4 6 = some ".x" ∧ 2 ≤ ".x".length ∧
      (scan "é 1.xy\"" 3).1[2]? = some ⟨.number, "1", ⟨3, 1, 3⟩⟩ := by
  have old : slice? "é 1.x (" 0 6 = some "é 1.x" := by decide
  have new : slice? "é 1.xy\"" 0 6 = some "é 1.x" := by decide
  have found : (scan "é 1.x (" 3).1[2]? = some ⟨.number, "1", ⟨3, 1, 3⟩⟩ := by decide
  have followed : slice? "é 1.x (" 4 6 = some ".x" := by decide
  exact ⟨old, new, found, followed, by decide, looks_two_ahead old new found followed (by decide)⟩

/-- One character is not enough: behind the point there may be a digit. -/
example : (scan "1.x" 3).1[0]?.map (·.text) = some "1" ∧
    (scan "1.5" 3).1[0]?.map (·.text) = some "1.5" := by decide

end Scanner

end LosslessSyntax
