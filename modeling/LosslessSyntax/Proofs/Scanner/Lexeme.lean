import LosslessSyntax.Scanner.Basic

/-! # What a lexeme depends on

A lexeme and what is left after it make up the text. What is left matters to the lexeme only in its
first character, and in its second after a point, since a number takes a point only if a digit
follows (`Lexeme.Follows`). So a lexeme stays as it is when the text after it changes further on
(`Lexeme.Settles`, `Lexeme.readNormal_settles`).
-/

namespace LosslessSyntax

/-- The characters after the opening quote of a string, the closing one included. A backslash takes
the next character with it. -/
inductive Quoted (quote : Char) : List Char → Prop where
  | close : Quoted quote [quote]
  | escape (c : Char) {rest : List Char} (more : Quoted quote rest) :
      Quoted quote ('\\' :: c :: rest)
  | plain {c : Char} {rest : List Char} (slash : c ≠ '\\') (inside : c ≠ quote)
      (more : Quoted quote rest) : Quoted quote (c :: rest)

namespace Lexeme

open CharClass

/-- Two texts that cannot be told apart by what stands before them. -/
structure Follows (rest rest' : List Char) : Prop where
  head : rest'.head? = rest.head?
  digit : rest.head? = some '.' → rest'[1]?.any Char.isDigit = rest[1]?.any Char.isDigit

theorem head_append {rest rest' : List Char} (front : List Char)
    (head : rest'.head? = rest.head?) : (front ++ rest').head? = (front ++ rest).head? := by
  cases front with
  | nil => exact head
  | cons c front => rfl

theorem Follows.append {rest rest' : List Char} (front : List Char) (follows : Follows rest rest') :
    Follows (front ++ rest) (front ++ rest') := by
  refine ⟨head_append front follows.head, ?_⟩
  match front with
  | [] => exact follows.digit
  | [c] =>
    intro _
    have head := follows.head
    cases rest <;> cases rest' <;> simp_all
  | c :: d :: front => exact fun _ => rfl

/-- A reader finds the same lexeme when the text after it changes behind its first character. -/
def StableAt (reader : List Char → Lexeme) (text : List Char) : Prop :=
  ∀ rest', rest'.head? = (reader text).rest.head? →
    reader ((reader text).chars ++ rest') = { reader text with rest := rest' }

/-- What follows does not begin with a character of a class. -/
def Stops (inClass : Char → Bool) (rest : List Char) : Prop :=
  ∀ c, rest.head? = some c → inClass c = false

theorem stops_dropWhile (inClass : Char → Bool) (text : List Char) :
    Stops inClass (text.dropWhile inClass) := by
  intro c head
  have outside := List.head?_dropWhile_not inClass text
  rw [head] at outside
  exact outside

/-- A run that is not followed by a character of its class is all that is taken. -/
theorem takeWhile_of_stops {inClass : Char → Bool} {chars rest : List Char}
    (inside : ∀ c ∈ chars, inClass c = true) (stops : Stops inClass rest) :
    (chars ++ rest).takeWhile inClass = chars ∧ (chars ++ rest).dropWhile inClass = rest := by
  have outside : rest.takeWhile inClass = [] ∧ rest.dropWhile inClass = rest := by
    cases rest with
    | nil => exact ⟨rfl, rfl⟩
    | cons c rest => simp [stops c rfl]
  rw [List.takeWhile_append_of_pos inside, List.dropWhile_append_of_pos inside, outside.1,
    outside.2, List.append_nil]
  exact ⟨rfl, rfl⟩

theorem takeWhile_append_of_head {p : Char → Bool} {text rest' : List Char}
    (head : rest'.head? = (text.dropWhile p).head?) :
    (text.takeWhile p ++ rest').takeWhile p = text.takeWhile p ∧
      (text.takeWhile p ++ rest').dropWhile p = rest' :=
  takeWhile_of_stops (List.all_eq_true.mp List.all_takeWhile) fun c here =>
    stops_dropWhile p text c (head.symm.trans here)

theorem readRun_stable (kind : TokenKind) (p : Char → Bool) (text : List Char) :
    StableAt (readRun kind p) text := by
  intro rest' head
  obtain ⟨taken, left⟩ := takeWhile_append_of_head head
  simp only [readRun] at taken left ⊢
  rw [taken, left]

theorem readWord_stable (text : List Char) : StableAt readWord text := by
  intro rest' head
  obtain ⟨taken, left⟩ := takeWhile_append_of_head head
  simp only [readWord] at taken left ⊢
  rw [taken, left]

theorem readRun_starts (kind : TokenKind) {p : Char → Bool} {c : Char} (rest : List Char)
    (here : p c = true) :
    ∃ more, (readRun kind p (c :: rest)).chars = c :: more ∧
      more ++ (readRun kind p (c :: rest)).rest = rest :=
  ⟨rest.takeWhile p, by simp [readRun, here], by
    simp [readRun, here, List.takeWhile_append_dropWhile]⟩

/-- A number that ends before a point which no digit follows. -/
theorem readNumber_plain {text : List Char}
    (plain : ∀ d rest, text.dropWhile Char.isDigit = '.' :: d :: rest → d.isDigit = false) :
    readNumber text = readRun .number Char.isDigit text := by
  rw [readNumber, readRun]
  split
  case h_1 d rest point =>
    rw [if_neg (Bool.eq_false_iff.mp (plain d rest point)), point]
  case h_2 => rfl

theorem readNumber_point {text : List Char} {d : Char} {rest : List Char}
    (point : text.dropWhile Char.isDigit = '.' :: d :: rest) (digit : d.isDigit = true) :
    readNumber text = (readRun .number Char.isDigit (d :: rest)).prepend
      (text.takeWhile Char.isDigit ++ ['.']) := by
  rw [readNumber, point]
  simp only [digit, ↓reduceIte]

theorem readNumber_cases (text : List Char) :
    (∃ d rest, text.dropWhile Char.isDigit = '.' :: d :: rest ∧ d.isDigit = true) ∨
      ∀ d rest, text.dropWhile Char.isDigit = '.' :: d :: rest → d.isDigit = false := by
  by_cases point : ∃ d rest, text.dropWhile Char.isDigit = '.' :: d :: rest ∧ d.isDigit = true
  · exact .inl point
  · exact .inr fun d rest here => Bool.eq_false_iff.mpr fun digit => point ⟨d, rest, here, digit⟩

/-- Behind a number, two characters matter. -/
theorem readNumber_stable (text : List Char) {rest' : List Char}
    (follows : Follows (readNumber text).rest rest') :
    readNumber ((readNumber text).chars ++ rest') = { readNumber text with rest := rest' } := by
  rcases readNumber_cases text with ⟨d, rest, point, digit⟩ | plain
  · rw [readNumber_point point digit] at follows ⊢
    have inner := readRun_stable .number Char.isDigit (d :: rest) rest' follows.head
    have front : ((readRun .number Char.isDigit (d :: rest)).prepend
        (text.takeWhile Char.isDigit ++ ['.'])).chars ++ rest' =
        text.takeWhile Char.isDigit ++ '.' ::
          ((readRun .number Char.isDigit (d :: rest)).chars ++ rest') := by
      simp [prepend]
    have digits := @takeWhile_append_of_head Char.isDigit text
      ('.' :: ((readRun .number Char.isDigit (d :: rest)).chars ++ rest'))
      (by rw [point]; rfl)
    obtain ⟨others, starts⟩ : ∃ others, (readRun .number Char.isDigit (d :: rest)).chars =
        d :: others := by simp [readRun, digit]
    rw [front, readNumber_point (by rw [digits.2, starts, List.cons_append]) digit, digits.1,
      ← List.cons_append, ← starts, inner]
    rfl
  · rw [readNumber_plain plain] at follows ⊢
    rw [readNumber_plain, readRun_stable .number Char.isDigit text rest' follows.head]
    intro d others point
    have left : ((readRun .number Char.isDigit text).chars ++ rest').dropWhile Char.isDigit = rest' :=
      (takeWhile_append_of_head follows.head).2
    rw [left] at point
    subst point
    have head := follows.head
    have digit := follows.digit head.symm
    cases here : (readRun .number Char.isDigit text).rest with
    | nil => simp [here] at head
    | cons c rest =>
      rw [here] at head digit
      cases rest with
      | nil => simpa using digit
      | cons e rest =>
        obtain rfl : '.' = c := Option.some.inj head
        have plain := plain e rest here
        simpa [plain] using digit

theorem readNumber_starts {c : Char} (rest : List Char) (digit : c.isDigit = true) :
    ∃ more, (readNumber (c :: rest)).chars = c :: more ∧
      more ++ (readNumber (c :: rest)).rest = rest := by
  rcases readNumber_cases (c :: rest) with ⟨d, others, point, digit'⟩ | plain
  · rw [readNumber_point point digit']
    obtain ⟨more, chars, split⟩ := readRun_starts .number (p := Char.isDigit) others digit'
    refine ⟨rest.takeWhile Char.isDigit ++ '.' :: d :: more, ?_, ?_⟩
    · simp [prepend, chars, digit]
    · have whole := List.takeWhile_append_dropWhile (p := Char.isDigit) (l := rest)
      rw [List.dropWhile_cons_of_pos digit] at point
      rw [point] at whole
      simp only [prepend, List.append_assoc, List.cons_append, split, whole]
  · rw [readNumber_plain plain]
    exact readRun_starts .number rest digit

theorem take_symbol (limit : Nat) (text : List Char) :
    let symbol := (text.take (max 1 limit)).takeWhile isOperator
    symbol ++ text.drop symbol.length = text := by
  intro symbol
  have short : text.take symbol.length = symbol := by
    have taken : (text.take (max 1 limit)).take symbol.length = symbol :=
      (List.prefix_iff_eq_take.mp (List.takeWhile_prefix isOperator)).symm
    have length : symbol.length ≤ (text.take (max 1 limit)).length :=
      (List.takeWhile_sublist isOperator).length_le
    rw [List.take_take, List.length_take] at *
    rwa [Nat.min_eq_left (by omega)] at taken
  have whole := List.take_append_drop symbol.length text
  rwa [short] at whole

theorem readSymbol_stable (limit : Nat) (text : List Char) : StableAt (readSymbol limit) text := by
  intro rest' head
  simp only [readSymbol] at head ⊢
  generalize symbol_eq : (text.take (max 1 limit)).takeWhile isOperator = symbol at *
  have inside : ∀ c ∈ symbol, isOperator c = true :=
    symbol_eq ▸ List.all_eq_true.mp List.all_takeWhile
  have short : symbol.length ≤ max 1 limit := by
    have taken := (List.takeWhile_sublist isOperator (l := text.take (max 1 limit))).length_le
    rw [symbol_eq, List.length_take] at taken
    omega
  have next : (text.take (max 1 limit)).dropWhile isOperator =
      (text.drop symbol.length).take (max 1 limit - symbol.length) := by
    have whole := List.takeWhile_append_dropWhile (p := isOperator) (l := text.take (max 1 limit))
    rw [symbol_eq] at whole
    have dropped := congrArg (List.drop symbol.length) whole
    rwa [List.drop_left, List.drop_take] at dropped
  have ends : (rest'.take (max 1 limit - symbol.length)).takeWhile isOperator = [] := by
    have stopped := List.head?_dropWhile_not isOperator (text.take (max 1 limit))
    rw [next] at stopped
    cases room : max 1 limit - symbol.length with
    | zero => rw [List.take_zero, List.takeWhile_nil]
    | succ room =>
      rw [room] at stopped
      cases rest' with
      | nil => rfl
      | cons c others =>
        cases left : text.drop symbol.length with
        | nil => simp [left] at head
        | cons d rest =>
          rw [left] at head stopped
          obtain rfl : c = d := Option.some.inj head
          have outside : isOperator c = false := stopped
          simp [outside]
  rw [List.take_append, List.take_of_length_le short, List.takeWhile_append_of_pos inside, ends,
    List.append_nil, List.drop_left]

theorem commentBody_append (text : List Char) :
    (commentBody text).1 ++ (commentBody text).2.1 = text := by
  fun_induction commentBody text <;> simp_all

theorem commentBody_open {text : List Char} (unclosed : (commentBody text).2.2 = false) :
    (commentBody text).2.1 = [] := by
  fun_induction commentBody text <;> simp_all

theorem commentBody_ne_nil {text : List Char} (closed : (commentBody text).2.2 = true) :
    (commentBody text).1 ≠ [] := by
  fun_induction commentBody text <;> simp_all

theorem commentBody_stable {text : List Char} (closed : (commentBody text).2.2 = true)
    (rest' : List Char) :
    commentBody ((commentBody text).1 ++ rest') = ((commentBody text).1, rest', true) := by
  fun_induction commentBody text with
  | case1 => exact nomatch closed
  | case2 rest => rfl
  | case3 c rest other body after ended found ih =>
    have whole := commentBody_append rest
    have some : (commentBody rest).1 ≠ [] := commentBody_ne_nil (by rw [found]; exact closed)
    rw [found] at ih whole some
    have inner := ih closed
    rw [List.cons_append, commentBody.eq_3, inner]
    intro more slash hash
    obtain ⟨d, others, rfl⟩ := List.exists_cons_of_ne_nil some
    obtain ⟨rfl, -⟩ := List.cons.inj hash
    exact other (others ++ after) slash whole.symm

theorem readComment_stable (text : List Char) : StableAt readComment text := by
  intro rest' head
  cases closed : (commentBody text).2.2 with
  | true =>
    have stable := commentBody_stable closed rest'
    simp only [readComment, closed, ↓reduceIte, stable]
  | false =>
    have all := commentBody_open closed
    simp only [readComment, closed, Bool.false_eq_true, ↓reduceIte, all] at head ⊢
    have whole := commentBody_append text
    rw [all, List.append_nil] at whole
    rw [List.head?_eq_none_iff.mp head, List.append_nil, whole]
    simp only [closed, Bool.false_eq_true, ↓reduceIte, all]
    rw [whole]

theorem readComment_reads (text : List Char) :
    (readComment text).chars ++ (readComment text).rest = text ∧
      ((readComment text).mode = .normal ∨ (readComment text).rest = []) := by
  have whole := commentBody_append text
  simp only [readComment]
  split
  case isTrue => exact ⟨whole, .inl rfl⟩
  case isFalse unclosed => exact ⟨whole, .inr (commentBody_open (Bool.eq_false_iff.mpr unclosed))⟩

theorem stringBody_append (delimiter : Char) (text : List Char) :
    (stringBody delimiter text).1 ++ (stringBody delimiter text).2.1 = text := by
  fun_induction stringBody delimiter text <;> simp_all

theorem stringBody_open {delimiter : Char} {text : List Char}
    (unclosed : (stringBody delimiter text).2.2 = false) :
    (stringBody delimiter text).2.1 = [] := by
  fun_induction stringBody delimiter text <;> simp_all

theorem stringBody_delimiter {delimiter : Char} (slash : delimiter ≠ '\\') (rest : List Char) :
    stringBody delimiter (delimiter :: rest) = ([delimiter], rest, true) := by
  rw [stringBody.eq_4, if_pos (beq_self_eq_true _)]
  · exact fun here => absurd here slash
  · exact fun _ _ here => absurd here slash

theorem stringBody_quoted {quote : Char} (delimits : isQuote quote = true) {body : List Char}
    (closed : Quoted quote body) (rest : List Char) :
    stringBody quote (body ++ rest) = (body, rest, true) := by
  have slash : quote ≠ '\\' := by
    rintro rfl
    exact absurd delimits (by decide)
  induction closed with
  | close => exact stringBody_delimiter slash rest
  | escape c more ih => rw [List.cons_append, List.cons_append, stringBody.eq_3, ih]
  | plain other inside more ih =>
    rw [List.cons_append, stringBody.eq_4, if_neg (by rwa [beq_iff_eq]), ih]
    · exact fun here => absurd here other
    · exact fun _ _ here => absurd here other

theorem stringBody_ne_nil {delimiter : Char} {text : List Char}
    (closed : (stringBody delimiter text).2.2 = true) : (stringBody delimiter text).1 ≠ [] := by
  fun_induction stringBody delimiter text <;> simp_all

theorem stringBody_stable {delimiter : Char} {text : List Char}
    (closed : (stringBody delimiter text).2.2 = true) (rest' : List Char) :
    stringBody delimiter ((stringBody delimiter text).1 ++ rest') =
      ((stringBody delimiter text).1, rest', true) := by
  fun_induction stringBody delimiter text with
  | case1 => exact nomatch closed
  | case2 => exact nomatch closed
  | case3 c rest body after ended found ih =>
    rw [found] at ih
    rw [List.cons_append, List.cons_append, stringBody.eq_3, ih closed]
  | case4 c rest other other' equal =>
    obtain rfl : c = delimiter := beq_iff_eq.mp equal
    by_cases slash : c = '\\'
    · cases rest with
      | nil => exact absurd rfl (other slash)
      | cons d rest => exact absurd rfl (other' d rest slash)
    · rw [List.singleton_append, stringBody.eq_4, if_pos equal]
      · exact fun here => absurd here slash
      · exact fun _ _ here => absurd here slash
  | case5 c rest other other' differs body after ended found ih =>
    have slash : c ≠ '\\' := by
      rintro rfl
      cases rest with
      | nil => exact other rfl rfl
      | cons d rest => exact other' d rest rfl rfl
    rw [found] at ih
    rw [List.cons_append, stringBody.eq_4, if_neg differs, ih closed]
    · exact fun here => absurd here slash
    · exact fun _ _ here => absurd here slash

theorem readString_stable (delimiter : Char) (text : List Char) :
    StableAt (readString delimiter) text := by
  intro rest' head
  cases closed : (stringBody delimiter text).2.2 with
  | true =>
    have stable := stringBody_stable closed rest'
    simp only [readString, closed, ↓reduceIte, stable]
  | false =>
    have all := stringBody_open closed
    simp only [readString, closed, Bool.false_eq_true, ↓reduceIte, all] at head ⊢
    have whole := stringBody_append delimiter text
    rw [all, List.append_nil] at whole
    rw [List.head?_eq_none_iff.mp head, List.append_nil, whole]
    simp only [closed, Bool.false_eq_true, ↓reduceIte, all]
    rw [whole]

theorem readString_reads (delimiter : Char) (text : List Char) :
    (readString delimiter text).chars ++ (readString delimiter text).rest = text ∧
      ((readString delimiter text).mode = .normal ∨ (readString delimiter text).rest = []) := by
  have whole := stringBody_append delimiter text
  simp only [readString]
  split
  case isTrue => exact ⟨whole, .inl rfl⟩
  case isFalse unclosed => exact ⟨whole, .inr (stringBody_open (Bool.eq_false_iff.mpr unclosed))⟩

/-- A reader of lexemes that begin with `c` splits the text, and finds the same lexeme when the text
after it changes further on; behind a number, two characters matter. -/
structure Settles (reader : List Char → Lexeme) (c : Char) (rest more : List Char) : Prop where
  chars : (reader rest).chars = c :: more
  split : more ++ (reader rest).rest = rest
  mode : (reader rest).mode = .normal ∨ (reader rest).rest = []
  stable (rest' : List Char) : rest'.head? = (reader rest).rest.head? →
    (c.isDigit = true → Follows (reader rest).rest rest') →
      reader (more ++ rest') = { reader rest with rest := rest' }

theorem Settles.of_stable {reader : List Char → Lexeme} {c : Char} {rest : List Char}
    (stable : StableAt reader (c :: rest))
    (starts : ∃ more, (reader (c :: rest)).chars = c :: more ∧
      more ++ (reader (c :: rest)).rest = rest)
    (mode : (reader (c :: rest)).mode = .normal) :
    ∃ more, Settles (fun rest => reader (c :: rest)) c rest more := by
  obtain ⟨more, chars, split⟩ := starts
  refine ⟨more, chars, split, .inl mode, fun rest' head _ => ?_⟩
  rw [← List.cons_append, ← chars]
  exact stable rest' head

theorem Settles.prepend {reader : List Char → Lexeme} {rest : List Char} (c : Char)
    (stable : StableAt reader rest) (split : (reader rest).chars ++ (reader rest).rest = rest)
    (mode : (reader rest).mode = .normal ∨ (reader rest).rest = []) :
    Settles (fun rest => (reader rest).prepend [c]) c rest (reader rest).chars :=
  ⟨rfl, split, mode, fun rest' head _ => congrArg (Lexeme.prepend [c]) (stable rest' head)⟩

theorem readSymbol_settles (limit : Nat) {c : Char} (rest : List Char)
    (operator : isOperator c = true) :
    ∃ more, Settles (fun rest => readSymbol limit (c :: rest)) c rest more := by
  refine Settles.of_stable (readSymbol_stable limit _) ?_ rfl
  obtain ⟨count, limited⟩ : ∃ count, max 1 limit = count + 1 := ⟨max 1 limit - 1, by omega⟩
  have whole := take_symbol limit (c :: rest)
  simp only [readSymbol, limited, List.take_succ_cons, List.takeWhile_cons_of_pos operator,
    List.cons_append] at whole ⊢
  exact ⟨_, rfl, List.cons.inj whole |>.2⟩

/-- A comment that begins with a hash. -/
def readHash (rest : List Char) : Lexeme :=
  match rest with
  | '/' :: body => (readComment body).prepend ['#', '/']
  | _ => (readRun .comment (fun d => !isLineEnd d) rest).prepend ['#']

theorem readHash_line {rest : List Char} (line : ∀ body, rest ≠ '/' :: body) :
    readHash rest = (readRun .comment (fun d => !isLineEnd d) rest).prepend ['#'] := by
  rw [readHash]
  exact line

theorem readHash_settles (rest : List Char) : ∃ more, Settles readHash '#' rest more := by
  by_cases opens : ∃ body, rest = '/' :: body
  · obtain ⟨body, rfl⟩ := opens
    obtain ⟨split, mode⟩ := readComment_reads body
    refine ⟨'/' :: (readComment body).chars, rfl, congrArg ('/' :: ·) split, mode, ?_⟩
    intro rest' head _
    exact congrArg (prepend ['#', '/']) (readComment_stable body rest' head)
  · have line := readHash_line fun body here => opens ⟨body, here⟩
    refine ⟨rest.takeWhile fun d => !isLineEnd d, ?_, ?_, ?_, fun rest' head _ => ?_⟩
    all_goals rw [line] at *
    · rfl
    · exact List.takeWhile_append_dropWhile
    · exact .inl rfl
    · have stable := readRun_stable .comment (fun d => !isLineEnd d) rest rest' head
      have head := head_append (rest.takeWhile fun d => !isLineEnd d) head
      have whole := List.takeWhile_append_dropWhile (p := fun d => !isLineEnd d) (l := rest)
      simp only [prepend, readRun, whole] at head
      rw [readHash_line]
      · exact congrArg (prepend ['#']) stable
      · intro body slash
        rw [slash] at head
        obtain ⟨body, here⟩ := List.head?_eq_some_iff.mp head.symm
        exact opens ⟨body, here⟩

theorem readAnnotation_settles (rest : List Char) :
    ∃ more, Settles readAnnotationMark '@' rest more := by
  cases named : rest.head?.any isWordPart with
  | true =>
    have named' {text : List Char} (head : text.head? = rest.head?) :
        readAnnotationMark text = (readRun .annotationMark isWordPart text).prepend ['@'] := by
      rw [readAnnotationMark, head, if_pos named]
    refine ⟨rest.takeWhile isWordPart, ?_, ?_, ?_, fun rest' head _ => ?_⟩
    all_goals rw [named' rfl] at *
    · rfl
    · exact List.takeWhile_append_dropWhile
    · exact .inl rfl
    · have stable := readRun_stable .annotationMark isWordPart rest rest' head
      have head := head_append (rest.takeWhile isWordPart) head
      simp only [prepend, readRun, List.takeWhile_append_dropWhile] at head
      rw [named' head]
      exact congrArg (prepend ['@']) stable
  | false =>
    have nameless {text : List Char} (head : text.head? = rest.head?) :
        readAnnotationMark text = ⟨.error, ['@'], text, .normal, some .missingName⟩ := by
      rw [readAnnotationMark, head, named, if_neg Bool.false_ne_true]
    refine ⟨[], ?_, ?_, ?_, fun rest' head _ => ?_⟩
    all_goals rw [nameless rfl] at *
    · rfl
    · exact .inl rfl
    · exact nameless head

theorem readNormal_settles (limit : Nat) (c : Char) (rest : List Char) :
    ∃ more, Settles (readNormal limit c) c rest more := by
  have branch {reader : List Char → Lexeme} (same : ∀ rest, readNormal limit c rest = reader rest)
      (settles : ∃ more, Settles reader c rest more) :
      ∃ more, Settles (readNormal limit c) c rest more := by
    rwa [show readNormal limit c = reader from funext same]
  by_cases blank : isBlank c = true
  · refine branch (fun rest => by rw [readNormal.eq_def, if_pos blank]) ?_
    exact Settles.of_stable (readRun_stable _ _ _) (readRun_starts _ _ blank) rfl
  by_cases hash : (c == '#') = true
  · obtain rfl := beq_iff_eq.mp hash
    exact branch (fun rest => by rw [readNormal.eq_def, if_neg blank, if_pos hash]; rfl) (readHash_settles rest)
  by_cases word : isWordStart c = true
  · refine branch (fun rest => by rw [readNormal.eq_def, if_neg blank, if_neg hash, if_pos word]) ?_
    have here : isWordPart c = true := by
      rw [isWordStart, Bool.or_eq_true] at word
      rw [isWordPart, Bool.or_eq_true, Bool.or_eq_true]
      exact word.imp_left .inl
    obtain ⟨more, chars, split⟩ := readRun_starts .ident (p := isWordPart) rest here
    exact Settles.of_stable (readWord_stable _) ⟨more, chars, split⟩ rfl
  by_cases digit : c.isDigit = true
  · refine branch (fun rest => by rw [readNormal.eq_def, if_neg blank, if_neg hash, if_neg word,
      if_pos digit]) ?_
    obtain ⟨more, chars, split⟩ := readNumber_starts rest digit
    refine ⟨more, chars, split, .inl ?_, fun rest' _ follows => ?_⟩
    · rcases readNumber_cases (c :: rest) with ⟨d, others, point, digit'⟩ | plain
      · rw [readNumber_point point digit']
        rfl
      · rw [readNumber_plain plain]
        rfl
    · rw [← List.cons_append, ← chars]
      exact readNumber_stable _ (follows digit)
  by_cases at' : (c == '@') = true
  · obtain rfl := beq_iff_eq.mp at'
    exact branch (fun rest => by rw [readNormal.eq_def, if_neg blank, if_neg hash, if_neg word,
      if_neg digit, if_pos at']) (readAnnotation_settles rest)
  by_cases quote : isQuote c = true
  · refine branch (fun rest => by rw [readNormal.eq_def, if_neg blank, if_neg hash, if_neg word,
      if_neg digit, if_neg at', if_pos quote]) ?_
    obtain ⟨split, mode⟩ := readString_reads c rest
    exact ⟨_, .prepend c (readString_stable c rest) split mode⟩
  cases mark : punctuation.lookup c with
  | some kind =>
    refine @branch (fun rest => ⟨kind, [c], rest, .normal, none⟩) (fun rest => by
      rw [readNormal.eq_def, if_neg blank, if_neg hash, if_neg word, if_neg digit, if_neg at',
        if_neg quote, mark]) ⟨[], rfl, rfl, .inl rfl, fun _ _ _ => rfl⟩
  | none =>
    by_cases operator : isOperator c = true
    · refine branch (fun rest => ?_) (readSymbol_settles limit rest operator)
      rw [readNormal.eq_def, if_neg blank, if_neg hash, if_neg word, if_neg digit, if_neg at',
        if_neg quote, mark]
      exact if_pos operator
    · refine @branch (readUnexpected c) (fun rest => ?_) ?_
      · rw [readNormal.eq_def, if_neg blank, if_neg hash, if_neg word, if_neg digit, if_neg at',
          if_neg quote, mark]
        exact if_neg operator
      · have run := readRun_stable .error (fun d => !startsToken d) rest
        refine ⟨rest.takeWhile fun d => !startsToken d, rfl, List.takeWhile_append_dropWhile,
          .inl rfl, fun rest' head _ => ?_⟩
        exact congrArg (fun lexeme : Lexeme => { lexeme.prepend [c] with
          fault? := some .unexpectedCharacter }) (run rest' head)

theorem readNormal_quote {limit : Nat} {c : Char} (quote : isQuote c = true) (rest : List Char) :
    isBlank c = false ∧ readNormal limit c rest = (readString c rest).prepend [c] := by
  simp only [isQuote, Bool.or_eq_true, beq_iff_eq] at quote
  rcases quote with (rfl | rfl) | rfl <;> exact ⟨rfl, rfl⟩

/-- Only block comments and strings can be left open; nothing else is wrong for this reason. -/
theorem readNormal_plain_or_open (limit : Nat) (c : Char) (rest : List Char) :
    ((readNormal limit c rest).mode = .normal ∧
      (readNormal limit c rest).fault? ∈ [none, some .unexpectedCharacter, some .missingName]) ∨
    (c = '#' ∧ ∃ body, rest = '/' :: body) ∨ isQuote c = true := by
  rw [readNormal.eq_def]
  split
  case isTrue => exact .inl ⟨rfl, .head _⟩
  split
  case isTrue hash =>
    split
    case h_1 body => exact .inr (.inl ⟨beq_iff_eq.mp hash, body, rfl⟩)
    case h_2 => exact .inl ⟨rfl, .head _⟩
  split
  case isTrue => exact .inl ⟨rfl, .head _⟩
  split
  case isTrue =>
    rcases readNumber_cases (c :: rest) with ⟨d, others, point, digit⟩ | plain
    · rw [readNumber_point point digit]
      exact .inl ⟨rfl, .head _⟩
    · rw [readNumber_plain plain]
      exact .inl ⟨rfl, .head _⟩
  split
  case isTrue =>
    rw [readAnnotationMark]
    split
    · exact .inl ⟨rfl, .head _⟩
    · exact .inl ⟨rfl, show some LexicalFault.missingName ∈ _ by decide⟩
  split
  case isTrue quote => exact .inr (.inr quote)
  split
  case h_1 => exact .inl ⟨rfl, .head _⟩
  case h_2 =>
    split
    · exact .inl ⟨rfl, .head _⟩
    · exact .inl ⟨rfl, show some LexicalFault.unexpectedCharacter ∈ _ by decide⟩

/-- A construct without its end takes the rest of the text. -/
theorem rest_of_unterminated {limit : Nat} {c : Char} {rest : List Char} {fault : LexicalFault}
    (found : (readNormal limit c rest).fault? = some fault)
    (ends : fault = .unterminatedString ∨ fault = .unterminatedComment) :
    (readNormal limit c rest).rest = [] := by
  rcases readNormal_plain_or_open limit c rest with ⟨-, plain⟩ | ⟨rfl, body, rfl⟩ | quote
  · rw [found] at plain
    rcases ends with rfl | rfl <;> exact absurd plain (by decide)
  · change (readComment body).fault? = _ at found
    change (readComment body).rest = []
    cases closed : (commentBody body).2.2 with
    | true => simp [readComment, closed] at found
    | false => simpa [readComment, closed] using commentBody_open closed
  · rw [(readNormal_quote quote rest).2] at found ⊢
    change (readString c rest).fault? = _ at found
    change (readString c rest).rest = []
    cases closed : (stringBody c rest).2.2 with
    | true => simp [readString, closed] at found
    | false => simpa [readString, closed] using stringBody_open closed

/-- Only comments are reported as unterminated comments. -/
theorem kind_of_unterminatedComment {limit : Nat} {c : Char} {rest : List Char}
    (found : (readNormal limit c rest).fault? = some .unterminatedComment) :
    (readNormal limit c rest).kind = .comment := by
  rcases readNormal_plain_or_open limit c rest with ⟨-, plain⟩ | ⟨rfl, body, rfl⟩ | quote
  · rw [found] at plain
    exact absurd plain (by decide)
  · change (readComment body).kind = _
    rw [readComment]
    dsimp only
    split <;> rfl
  · rw [(readNormal_quote quote rest).2] at found
    change (readString c rest).fault? = _ at found
    rw [readString] at found
    dsimp only at found
    split at found <;> exact nomatch found

/-- Whitespace goes on up to the first character that is none. -/
theorem readNormal_blanks (limit : Nat) {c : Char} {more rest : List Char}
    (blank : ∀ d ∈ c :: more, isBlank d = true)
    (stops : ∀ d, rest.head? = some d → isBlank d = false) :
    readNormal limit c (more ++ rest) = ⟨.whitespace, c :: more, rest, .normal, none⟩ := by
  obtain ⟨taken, left⟩ := takeWhile_of_stops blank stops
  rw [readNormal.eq_def, if_pos (blank c List.mem_cons_self), readRun, ← List.cons_append, taken,
    left]

theorem not_isWordStart_of_isDigit {c : Char} (digit : c.isDigit = true) :
    isWordStart c = false := by
  simp only [Char.isDigit, Bool.and_eq_true, decide_eq_true_eq, UInt32.le_iff_toNat_le,
    show '9'.val.toNat = 57 from rfl] at digit
  have low : c.toNat < 128 := Nat.lt_of_le_of_lt digit.2 (by decide)
  have other : c ≠ '_' := fun here => absurd digit.2 (here ▸ by decide)
  have alpha : c.isAlpha = (decide (c.val ≥ 'A'.val ∧ c.val ≤ 'Z'.val) ||
      decide (c.val ≥ 'a'.val) && decide (c.val ≤ 'z'.val)) := rfl
  simp only [isWordStart, Unicode.isAlphabetic, low, ↓reduceIte, alpha, ge_iff_le,
    UInt32.le_iff_toNat_le, show 'A'.val.toNat = 65 from rfl, show 'a'.val.toNat = 97 from rfl, Bool.or_eq_false_iff, beq_eq_false_iff_ne, ne_eq, other,
    not_false_eq_true, and_true, Bool.and_eq_false_iff, decide_eq_false_iff_not]
  exact ⟨fun upper => by omega, .inl (by omega)⟩

theorem not_blank_of_isWordStart {c : Char} (word : isWordStart c = true) :
    isBlank c = false ∧ (c == '#') = false := by
  refine ⟨Bool.eq_false_iff.mpr fun blank => ?_, Bool.eq_false_iff.mpr fun hash => ?_⟩
  · simp only [isBlank, Bool.or_eq_true, beq_iff_eq] at blank
    rcases blank with ((rfl | rfl) | rfl) | rfl <;> exact absurd word (by decide)
  · obtain rfl := beq_iff_eq.mp hash
    exact absurd word (by decide)

theorem not_blank_of_isDigit {c : Char} (digit : c.isDigit = true) :
    isBlank c = false ∧ (c == '#') = false := by
  refine ⟨Bool.eq_false_iff.mpr fun blank => ?_, Bool.eq_false_iff.mpr fun hash => ?_⟩
  · simp only [isBlank, Bool.or_eq_true, beq_iff_eq] at blank
    rcases blank with ((rfl | rfl) | rfl) | rfl <;> exact absurd digit (by decide)
  · obtain rfl := beq_iff_eq.mp hash
    exact absurd digit (by decide)

theorem readNormal_word {limit : Nat} {c : Char} (word : isWordStart c = true) (rest : List Char) :
    readNormal limit c rest = readWord (c :: rest) := by
  obtain ⟨blank, hash⟩ := not_blank_of_isWordStart word
  rw [readNormal.eq_def, if_neg (Bool.eq_false_iff.mp blank), if_neg (Bool.eq_false_iff.mp hash),
    if_pos word]

theorem readNormal_digit {limit : Nat} {c : Char} (digit : c.isDigit = true) (rest : List Char) :
    readNormal limit c rest = readNumber (c :: rest) := by
  obtain ⟨blank, hash⟩ := not_blank_of_isDigit digit
  rw [readNormal.eq_def, if_neg (Bool.eq_false_iff.mp blank), if_neg (Bool.eq_false_iff.mp hash),
    if_neg (Bool.eq_false_iff.mp (not_isWordStart_of_isDigit digit)), if_pos digit]

theorem readNormal_operator {limit : Nat} {c : Char} (operator : isOperator c = true)
    (rest : List Char) :
    isBlank c = false ∧ readNormal limit c rest = readSymbol limit (c :: rest) := by
  have others : operatorChars.all (fun c => !isBlank c && !(c == '#') && !isWordStart c &&
      !c.isDigit && !(c == '@') && !isQuote c && (punctuation.lookup c).isNone) = true := by
    decide
  have here := List.all_eq_true.mp others c (List.contains_iff_mem.mp operator)
  simp only [Bool.and_eq_true, Bool.not_eq_true', Option.isNone_iff_eq_none] at here
  obtain ⟨⟨⟨⟨⟨⟨blank, hash⟩, word⟩, digit⟩, mark⟩, quote⟩, single⟩ := here
  refine ⟨blank, ?_⟩
  rw [readNormal.eq_def, blank, hash, word, digit, mark, quote, single, operator]
  rfl

theorem mem_of_lookup {α β : Type} [BEq α] [LawfulBEq α] {key : α} {value : β}
    {entries : List (α × β)} (found : entries.lookup key = some value) : (key, value) ∈ entries := by
  obtain ⟨front, back, rfl, -⟩ := List.lookup_eq_some_iff.mp found
  exact List.mem_append_right front List.mem_cons_self

/-- The kinds of lexemes that are neither numbers nor punctuation marks nor unrecognised. -/
def runKinds : List TokenKind :=
  [.whitespace, .comment, .annotationMark, .string, .interpolatedString, .ident, .baseType, .dot,
    .colon, .arrow, .symbol] ++ TokenKind.keywords.map (·.2)

/-- What a lexeme may be: a number, which begins with a digit; something that is no token, and wrong;
a punctuation mark, which is a single character; or something else. -/
inductive Sorted (c : Char) (rest : List Char) (lexeme : Lexeme) : Prop where
  | number (kind : lexeme.kind = .number) (digit : c.isDigit = true)
  | error (kind : lexeme.kind = .error) (fault : lexeme.fault? ≠ none) (other : c.isDigit ≠ true)
  | mark (kind : TokenKind) (found : punctuation.lookup c = some kind)
    (whole : lexeme = ⟨kind, [c], rest, .normal, none⟩) (other : c.isDigit ≠ true)
  | run (kind : lexeme.kind ∈ runKinds) (other : c.isDigit ≠ true)

theorem sorted_readNormal (limit : Nat) (c : Char) (rest : List Char) :
    Sorted c rest (readNormal limit c rest) := by
  rw [readNormal.eq_def]
  split
  case isTrue blank =>
    refine .run (show TokenKind.whitespace ∈ runKinds by decide) fun digit => ?_
    simp only [isBlank, Bool.or_eq_true, beq_iff_eq] at blank
    rcases blank with ((rfl | rfl) | rfl) | rfl <;> exact absurd digit (by decide)
  split
  case isTrue hash =>
    obtain rfl := beq_iff_eq.mp hash
    have comment : (readHash rest).kind = .comment := by
      rw [readHash.eq_def]
      split
      · simp only [prepend, readComment]
        split <;> rfl
      · rfl
    refine .run ?_ (by decide)
    change (readHash rest).kind ∈ runKinds
    rw [comment]
    decide
  split
  case isTrue word =>
    refine .run ?_ fun digit => ?_
    · have named : ∀ entry ∈ TokenKind.keywords, entry.2 ∈ runKinds := fun entry member =>
        List.mem_append_right _ (List.mem_map_of_mem member)
      simp only [readWord, TokenKind.ofKeyword?]
      split
      · decide
      · cases found : TokenKind.keywords.lookup (String.ofList ((c :: rest).takeWhile isWordPart)) with
        | none => decide
        | some kind => exact named _ (mem_of_lookup found)
    · rw [not_isWordStart_of_isDigit digit] at word
      exact nomatch word
  split
  case isTrue digit =>
    refine .number ?_ digit
    rcases readNumber_cases (c :: rest) with ⟨d, others, point, digit'⟩ | plain
    · rw [readNumber_point point digit']
      rfl
    · rw [readNumber_plain plain]
      rfl
  case isFalse other =>
  split
  · rw [readAnnotationMark]
    split
    · exact .run (show TokenKind.annotationMark ∈ runKinds by decide) other
    · exact .error rfl (by simp) other
  split
  · have string : (readString c rest).kind = stringKind c := by
      simp only [readString]
      split <;> rfl
    refine .run ?_ other
    change (readString c rest).kind ∈ runKinds
    rw [string, stringKind]
    split <;> decide
  split
  case h_1 kind found => exact .mark kind found rfl other
  case h_2 =>
    split
    · refine .run ?_ other
      simp only [readSymbol, TokenKind.ofReservedSymbol?]
      repeat' split
      all_goals decide
    · exact .error rfl (by simp [readUnexpected]) other

/-- Numbers are the lexemes that begin with a digit, and no lexeme is the end of the text. -/
theorem kind_readNormal (limit : Nat) (c : Char) (rest : List Char) :
    ((readNormal limit c rest).kind = .number ↔ c.isDigit = true) ∧
      (readNormal limit c rest).kind ≠ .eof := by
  cases sorted_readNormal limit c rest with
  | number kind digit =>
    rw [kind]
    exact ⟨iff_of_true rfl digit, by decide⟩
  | error kind fault other =>
    rw [kind]
    exact ⟨iff_of_false (by decide) other, by decide⟩
  | mark kind found whole other =>
    have listed : ∀ entry ∈ punctuation, entry.2 ≠ .number ∧ entry.2 ≠ .eof := by decide
    obtain ⟨number, ending⟩ := listed _ (mem_of_lookup found)
    rw [whole]
    exact ⟨iff_of_false number other, ending⟩
  | run kind other =>
    have listed : ∀ kind ∈ runKinds, kind ≠ .number ∧ kind ≠ .eof := by decide
    exact ⟨iff_of_false (listed _ kind).1 other, (listed _ kind).2⟩

/-- Something is wrong with every lexeme that is no token. -/
theorem fault_readNormal {limit : Nat} {c : Char} {rest : List Char}
    (error : (readNormal limit c rest).kind = .error) :
    (readNormal limit c rest).fault? ≠ none := by
  cases sorted_readNormal limit c rest with
  | number kind digit => exact absurd (kind.symm.trans error) (by decide)
  | error kind fault other => exact fault
  | mark kind found whole other =>
    have listed : ∀ entry ∈ punctuation, entry.2 ≠ .error := by decide
    rw [whole] at error
    exact absurd error (listed _ (mem_of_lookup found))
  | run kind other =>
    have listed : ∀ kind ∈ runKinds, kind ≠ .error := by decide
    exact absurd error (listed _ kind)

/-- A punctuation mark is a single character, and nothing is wrong with it. -/
theorem readNormal_of_punctuation {limit : Nat} {c : Char} {rest : List Char} {kind : TokenKind}
    (same : (readNormal limit c rest).kind = kind) (mark : kind ∈ punctuation.map Prod.snd) :
    punctuation.lookup c = some kind ∧
      readNormal limit c rest = ⟨kind, [c], rest, .normal, none⟩ := by
  have listed : ∀ kind ∈ punctuation.map Prod.snd, kind ≠ .number ∧ kind ≠ .error ∧ kind ∉ runKinds := by
    decide
  obtain ⟨number, error, run⟩ := listed kind mark
  cases sorted_readNormal limit c rest with
  | number kind' digit => exact absurd (same.symm.trans kind') number
  | error kind' fault other => exact absurd (same.symm.trans kind') error
  | mark kind' found whole other =>
    obtain rfl : kind' = kind := by rw [← same, whole]
    exact ⟨found, whole⟩
  | run kind' other => exact absurd (same ▸ kind') run

end Lexeme

end LosslessSyntax
