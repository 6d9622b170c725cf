import LosslessSyntax.Proofs.Scanner.Restart

/-! # The lexical grammar

What the tokens of the language are can be said without a scanner: which characters a token of a
kind consists of, and what may follow them (`Prescribed`). Whitespace, words, numbers, marks,
operators and unrecognised characters are as long as they can be (`Longest`), and strings and block
comments end where they are closed first. A scanner between two tokens yields the one token that is
prescribed for the text there (`prescribed_iff`).
-/

namespace LosslessSyntax

namespace Lexeme

open CharClass

/-- Some characters of a class. -/
def Run (inClass : Char → Bool) (chars : List Char) : Prop :=
  chars ≠ [] ∧ ∀ c ∈ chars, inClass c = true

/-- A word: a character that begins words, and others that continue them. -/
def Word (chars : List Char) : Prop :=
  ∃ c more, chars = c :: more ∧ isWordStart c = true ∧ ∀ d ∈ more, isWordPart d = true

/-- Digits, or digits on both sides of a point. -/
def Number (chars : List Char) : Prop :=
  Run Char.isDigit chars ∨ ∃ whole fraction, chars = whole ++ '.' :: fraction ∧
    Run Char.isDigit whole ∧ Run Char.isDigit fraction

/-- An at sign with a name. -/
def Mark (chars : List Char) : Prop := ∃ name, chars = '@' :: name ∧ Run isWordPart name

/-- Operator characters, of which only so many belong together. -/
def Operator (limit : Nat) (chars : List Char) : Prop :=
  Run isOperator chars ∧ chars.length ≤ max 1 limit

/-- A hash with the rest of its line. -/
def LineComment (chars : List Char) : Prop :=
  ∃ body, chars = '#' :: body ∧ ∀ c ∈ body, isLineEnd c = false

/-- Characters of a form that are not the beginning of longer ones in the text that follows. -/
def Longest (form : List Char → Prop) (chars rest : List Char) : Prop :=
  form chars ∧ ∀ more left, rest = more ++ left → form (chars ++ more) → more = []

/-- The kinds of the words that the language reserves. -/
def wordKinds : List (String × TokenKind) :=
  TokenKind.baseTypeNames.map (·, .baseType) ++ TokenKind.keywords

/-- The kinds of the operators that the language reserves. -/
def symbolKinds : List (String × TokenKind) := [(".", .dot), (":", .colon), ("->", .arrow)]

/-- The kind of a text is the one that a table gives it, or another one if the table has none. -/
def Listed (table : List (String × TokenKind)) (other : TokenKind) (text : String)
    (kind : TokenKind) : Prop :=
  (text, kind) ∈ table ∨ (∀ entry ∈ table, entry.1 ≠ text) ∧ kind = other

/-- What the lexical grammar prescribes: the characters of a token of a kind, and what may follow. -/
inductive Prescribed (limit : Nat) : TokenKind → List Char → List Char → Prop where
  /-- Nothing follows the end. -/
  | ending : Prescribed limit .eof [] []
  | whitespace {chars rest : List Char} : Longest (Run isBlank) chars rest →
    Prescribed limit .whitespace chars rest
  | word {chars rest : List Char} {kind : TokenKind} : Longest Word chars rest →
    Listed wordKinds .ident (String.ofList chars) kind → Prescribed limit kind chars rest
  | number {chars rest : List Char} : Longest Number chars rest →
    Prescribed limit .number chars rest
  | mark {chars rest : List Char} : Longest Mark chars rest →
    Prescribed limit .annotationMark chars rest
  /-- An at sign without a name. -/
  | nameless {rest : List Char} : rest.head?.any isWordPart = false →
    Prescribed limit .error ['@'] rest
  | operator {chars rest : List Char} {kind : TokenKind} : Longest (Operator limit) chars rest →
    Listed symbolKinds .symbol (String.ofList chars) kind → Prescribed limit kind chars rest
  | punctuation {c : Char} {kind : TokenKind} (rest : List Char) :
    (c, kind) ∈ punctuation → Prescribed limit kind [c] rest
  /-- A comment up to the end of its line, unless it begins a block. -/
  | line {chars rest : List Char} : Longest LineComment chars rest →
    (chars ++ rest)[1]? ≠ some '/' → Prescribed limit .comment chars rest
  /-- A comment up to the first mark that ends it. -/
  | block {body : List Char} (rest : List Char) : ¬ ['/', '#'] <:+: body ++ ['/'] →
    Prescribed limit .comment ('#' :: '/' :: body ++ ['/', '#']) rest
  /-- A comment that nothing ends. -/
  | openBlock {body : List Char} : ¬ ['/', '#'] <:+: body →
    Prescribed limit .comment ('#' :: '/' :: body) []
  /-- A string up to the first delimiter without a backslash before it. -/
  | string {quote : Char} {body : List Char} (rest : List Char) : isQuote quote = true →
    Quoted quote body → Prescribed limit (stringKind quote) (quote :: body) rest
  /-- A string that nothing ends. -/
  | openString {quote : Char} {body : List Char} : isQuote quote = true →
    (∀ front back, body = front ++ back → ¬ Quoted quote front) →
    Prescribed limit (stringKind quote) (quote :: body) []
  /-- Characters with which no token begins. -/
  | unexpected {chars rest : List Char} : Longest (Run fun c => !startsToken c) chars rest →
    Prescribed limit .error chars rest

section Runs

variable {inClass : Char → Bool} {form : List Char → Prop} {chars rest : List Char}

theorem longest_of_stops (here : form chars) (stops : Stops inClass rest)
    (onward : ∀ c more, form (chars ++ c :: more) → inClass c = true) :
    Longest form chars rest := by
  refine ⟨here, fun more left split longer => ?_⟩
  cases more with
  | nil => rfl
  | cons c more =>
    have inside := onward c more longer
    rw [stops c (by rw [split]; rfl)] at inside
    exact nomatch inside

theorem Longest.stops (longest : Longest form chars rest)
    (onward : ∀ c, inClass c = true → form (chars ++ [c])) : Stops inClass rest := by
  intro c head
  obtain ⟨left, rfl⟩ := List.head?_eq_some_iff.mp head
  refine Bool.eq_false_iff.mpr fun inside => ?_
  exact absurd (longest.2 [c] left rfl (onward c inside)) (List.cons_ne_nil c [])

/-- A run that is shorter than it may be stops where its class does. -/
theorem stops_drop {count : Nat} {text : List Char}
    (shorter : ((text.take count).takeWhile inClass).length ≠ count) :
    Stops inClass (text.drop ((text.take count).takeWhile inClass).length) := by
  induction count generalizing text with
  | zero => exact absurd rfl shorter
  | succ count ih =>
    cases text with
    | nil => exact fun c head => nomatch head
    | cons d text =>
      rw [List.take_succ_cons] at shorter ⊢
      cases here : inClass d with
      | true =>
        rw [List.takeWhile_cons_of_pos here, List.length_cons] at shorter ⊢
        exact ih fun same => shorter (congrArg Nat.succ same)
      | false =>
        rw [List.takeWhile_cons_of_neg (Bool.eq_false_iff.mp here)]
        exact fun c head => Option.some.inj head ▸ here

theorem Run.concat {c : Char} (run : Run inClass chars) (here : inClass c = true) :
    Run inClass (chars ++ [c]) := by
  refine ⟨List.append_ne_nil_of_left_ne_nil run.1 _, fun d member => ?_⟩
  rcases List.mem_append.mp member with member | member
  · exact run.2 d member
  · rw [List.mem_singleton.mp member]
    exact here

theorem run_takeWhile {c : Char} (here : inClass c = true) (rest : List Char) :
    Run inClass ((c :: rest).takeWhile inClass) := by
  refine ⟨?_, List.all_eq_true.mp List.all_takeWhile⟩
  rw [List.takeWhile_cons_of_pos here]
  exact List.cons_ne_nil _ _

theorem Run.longest (run : Run inClass chars) (stops : Stops inClass rest) :
    Longest (Run inClass) chars rest :=
  longest_of_stops run stops fun c _ longer => longer.2 c (by simp)

/-- The longest runs are the runs that are not followed by a character of their class. -/
theorem longest_run_iff :
    Longest (Run inClass) chars rest ↔ Run inClass chars ∧ Stops inClass rest :=
  ⟨fun longest => ⟨longest.1, longest.stops fun _ here => longest.1.concat here⟩,
    fun run => run.1.longest run.2⟩

end Runs

section Forms

variable {limit : Nat} {c : Char} {chars rest : List Char}

theorem isWordPart_of_isWordStart (start : isWordStart c = true) : isWordPart c = true := by
  rw [isWordStart, Bool.or_eq_true] at start
  rw [isWordPart, Bool.or_eq_true, Bool.or_eq_true]
  exact start.imp_left .inl

theorem longest_word_iff :
    Longest Word chars rest ↔ Word chars ∧ Stops isWordPart rest := by
  constructor
  · rintro ⟨⟨c, more, rfl, start, part⟩, longest⟩
    refine ⟨⟨c, more, rfl, start, part⟩, Longest.stops ⟨⟨c, more, rfl, start, part⟩, longest⟩ ?_⟩
    intro d here
    refine ⟨c, more ++ [d], rfl, start, fun e member => ?_⟩
    rcases List.mem_append.mp member with member | member
    · exact part e member
    · exact List.mem_singleton.mp member ▸ here
  · rintro ⟨word, stops⟩
    refine longest_of_stops word stops fun d more longer => ?_
    obtain ⟨c, others, same, -, part⟩ := longer
    obtain ⟨d', others', rfl, -, -⟩ := word
    exact part d ((List.cons.inj same).2 ▸ by simp)

theorem longest_mark_iff :
    Longest Mark chars rest ↔ Mark chars ∧ Stops isWordPart rest := by
  constructor
  · intro longest
    refine ⟨longest.1, longest.stops fun d here => ?_⟩
    obtain ⟨name, rfl, run⟩ := longest.1
    exact ⟨name ++ [d], rfl, run.concat here⟩
  · rintro ⟨mark, stops⟩
    refine longest_of_stops mark stops fun d more longer => ?_
    obtain ⟨name, rfl, -⟩ := mark
    obtain ⟨longer, same, run⟩ := longer
    exact run.2 d ((List.cons.inj same).2 ▸ by simp)

theorem longest_lineComment_iff :
    Longest LineComment chars rest ↔
      LineComment chars ∧ Stops (fun d => !isLineEnd d) rest := by
  constructor
  · intro longest
    refine ⟨longest.1, longest.stops fun d here => ?_⟩
    obtain ⟨body, rfl, inside⟩ := longest.1
    refine ⟨body ++ [d], rfl, fun e member => ?_⟩
    rcases List.mem_append.mp member with member | member
    · exact inside e member
    · rw [List.mem_singleton.mp member]
      simpa using here
  · rintro ⟨comment, stops⟩
    refine longest_of_stops comment stops fun d more longer => ?_
    obtain ⟨body, rfl, -⟩ := comment
    obtain ⟨longer, same, inside⟩ := longer
    rw [inside d ((List.cons.inj same).2 ▸ by simp)]
    rfl

/-- An operator is the longest one if it is as long as operators may be, or no operator character
follows. -/
theorem longest_operator_iff :
    Longest (Operator limit) chars rest ↔
      Operator limit chars ∧ (chars.length = max 1 limit ∨ Stops isOperator rest) := by
  constructor
  · rintro ⟨operator, longest⟩
    refine ⟨operator, or_iff_not_imp_left.mpr fun shorter d head => ?_⟩
    obtain ⟨left, rfl⟩ := List.head?_eq_some_iff.mp head
    refine Bool.eq_false_iff.mpr fun here => ?_
    have room : (chars ++ [d]).length ≤ max 1 limit := by
      have := operator.2
      rw [List.length_append, List.length_singleton]
      omega
    exact absurd (longest [d] left rfl ⟨operator.1.concat here, room⟩) (List.cons_ne_nil d [])
  · rintro ⟨operator, full | stops⟩
    · refine ⟨operator, fun more left split longer => ?_⟩
      have room := longer.2
      rw [List.length_append] at room
      exact List.eq_nil_of_length_eq_zero (by omega)
    · exact longest_of_stops operator stops fun d more longer => longer.1.2 d (by simp)

theorem Number.starts (number : Number chars) : ∃ d more, chars = d :: more ∧ d.isDigit = true := by
  rcases number with run | ⟨whole, fraction, rfl, run, -⟩
  · obtain ⟨d, more, rfl⟩ := List.exists_cons_of_ne_nil run.1
    exact ⟨d, more, rfl, run.2 d List.mem_cons_self⟩
  · obtain ⟨d, more, rfl⟩ := List.exists_cons_of_ne_nil run.1
    exact ⟨d, more ++ '.' :: fraction, rfl, run.2 d List.mem_cons_self⟩

/-- Whether a fraction follows: a point with a digit after it. -/
def fractionFollows (rest : List Char) : Prop := ∃ d more, rest = '.' :: d :: more ∧ d.isDigit = true

theorem not_isDigit_point : ('.' : Char).isDigit = false := rfl

/-- Digits are the longest number if neither a digit nor a fraction follows. -/
theorem longest_whole (run : Run Char.isDigit chars) (stops : Stops Char.isDigit rest)
    (plain : ¬ fractionFollows rest) : Longest Number chars rest := by
  refine ⟨.inl run, fun more left split longer => ?_⟩
  cases more with
  | nil => rfl
  | cons d more =>
    have outside : d.isDigit = false := stops d (by rw [split]; rfl)
    rcases longer with run' | ⟨whole, fraction, same, digits, digits'⟩
    · exact absurd (run'.2 d (by simp)) (Bool.eq_false_iff.mp outside)
    · have here := @takeWhile_of_stops _ _ (d :: more) run.2 fun e head =>
        Option.some.inj head ▸ outside
      have there := @takeWhile_of_stops _ _ ('.' :: fraction) digits.2 fun e head =>
        Option.some.inj head ▸ not_isDigit_point
      rw [same, there.1, there.2] at here
      obtain ⟨rfl, rfl⟩ := List.cons.inj here.2
      obtain ⟨e, others, rfl⟩ := List.exists_cons_of_ne_nil digits'.1
      exact absurd ⟨e, others ++ left, split, digits'.2 e List.mem_cons_self⟩ plain

/-- A number with a fraction is the longest one if no digit follows. -/
theorem longest_fraction {whole fraction : List Char} (digits : Run Char.isDigit whole)
    (digits' : Run Char.isDigit fraction) (stops : Stops Char.isDigit rest) :
    Longest Number (whole ++ '.' :: fraction) rest := by
  refine longest_of_stops (.inr ⟨whole, fraction, rfl, digits, digits'⟩) stops fun d more longer => ?_
  rcases longer with run | ⟨whole', fraction', same, run, run'⟩
  · exact absurd (run.2 '.' (by simp)) (by decide)
  · have here := @takeWhile_of_stops _ _ ('.' :: (fraction ++ d :: more)) digits.2 fun e head =>
      Option.some.inj head ▸ not_isDigit_point
    have there := @takeWhile_of_stops _ _ ('.' :: fraction') run.2 fun e head =>
      Option.some.inj head ▸ not_isDigit_point
    rw [List.append_assoc, List.cons_append] at same
    rw [same, there.2] at here
    have same' : fraction' = fraction ++ d :: more := (List.cons.inj here.2).2
    exact run'.2 d (by rw [same']; simp)

/-- The two sorts of longest numbers. -/
theorem longest_number_cases (longest : Longest Number chars rest) :
    (Run Char.isDigit chars ∧ Stops Char.isDigit rest ∧ ¬ fractionFollows rest) ∨
      ∃ whole fraction, chars = whole ++ '.' :: fraction ∧ Run Char.isDigit whole ∧
        Run Char.isDigit fraction ∧ Stops Char.isDigit rest := by
  rcases longest.1 with run | ⟨whole, fraction, rfl, digits, digits'⟩
  · refine .inl ⟨run, longest.stops fun d here => .inl (run.concat here), ?_⟩
    rintro ⟨d, more, rfl, digit⟩
    have longer : Number (chars ++ ['.', d]) :=
      .inr ⟨chars, [d], rfl, run, List.cons_ne_nil _ _, by simpa using digit⟩
    exact absurd (longest.2 ['.', d] more rfl longer) (by simp)
  · refine .inr ⟨whole, fraction, rfl, digits, digits', longest.stops fun d here => ?_⟩
    exact .inr ⟨whole, fraction ++ [d], by simp, digits, digits'.concat here⟩

end Forms

theorem lookup_append {table table' : List (String × TokenKind)} (text : String) :
    (table ++ table').lookup text = (table.lookup text).or (table'.lookup text) := by
  induction table with
  | nil => rfl
  | cons entry table ih =>
    rw [List.cons_append, List.lookup_cons, List.lookup_cons, ih]
    split <;> rfl

theorem ofKeyword?_eq_lookup (text : String) :
    TokenKind.ofKeyword? text = wordKinds.lookup text := by
  have names : (TokenKind.baseTypeNames.map (·, TokenKind.baseType)).lookup text =
      if TokenKind.baseTypeNames.contains text then some .baseType else none := by
    induction TokenKind.baseTypeNames with
    | nil => rfl
    | cons name names ih =>
      rw [List.map_cons, List.lookup_cons, ih, List.contains_cons]
      cases text == name <;> rfl
  rw [TokenKind.ofKeyword?, wordKinds, lookup_append, names]
  split <;> rfl

theorem ofReservedSymbol?_eq_lookup (text : String) :
    TokenKind.ofReservedSymbol? text = symbolKinds.lookup text := by
  simp only [TokenKind.ofReservedSymbol?, symbolKinds, List.lookup_cons, List.lookup_nil]
  cases text == "." <;> cases text == ":" <;> cases text == "->" <;> rfl

/-- In a table that gives a text one kind, the kind of a text is what is looked up there. -/
theorem listed_iff {table : List (String × TokenKind)} (single : (table.map (·.1)).Nodup)
    {other kind : TokenKind} {text : String} :
    Listed table other text kind ↔ (table.lookup text).getD other = kind := by
  cases found : table.lookup text with
  | none =>
    have missing : ∀ entry ∈ table, entry.1 ≠ text := fun entry member same => by
      have := List.lookup_eq_none_iff.mp found entry member
      simp [same] at this
    constructor
    · rintro (member | ⟨-, rfl⟩)
      · exact absurd rfl (missing _ member)
      · rfl
    · rintro rfl
      exact .inr ⟨missing, rfl⟩
  | some value =>
    have member := mem_of_lookup found
    constructor
    · rintro (member' | ⟨missing, -⟩)
      · exact congrArg Prod.snd (List.inj_on_of_nodup_map single member member' rfl)
      · exact absurd rfl (missing _ member)
    · rintro rfl
      exact .inl member

theorem listed_word {text : String} {kind : TokenKind} :
    Listed wordKinds .ident text kind ↔ (TokenKind.ofKeyword? text).getD .ident = kind := by
  rw [ofKeyword?_eq_lookup]
  exact listed_iff (by decide)

theorem listed_symbol {text : String} {kind : TokenKind} :
    Listed symbolKinds .symbol text kind ↔
      (TokenKind.ofReservedSymbol? text).getD .symbol = kind := by
  rw [ofReservedSymbol?_eq_lookup]
  exact listed_iff (by decide)

theorem infix_mark_cons {c : Char} {text : List Char} :
    ['/', '#'] <:+: c :: text ↔ (c = '/' ∧ text.head? = some '#') ∨ ['/', '#'] <:+: text := by
  rw [List.infix_cons_iff, List.cons_prefix_cons, eq_comm]
  refine or_congr_left (and_congr_right fun _ => ?_)
  cases text with
  | nil => simp
  | cons d text => simp [List.cons_prefix_cons, eq_comm]

/-- A mark in a text has a first place. -/
theorem exists_first_mark {text : List Char} (mark : ['/', '#'] <:+: text) :
    ∃ body rest, text = body ++ '/' :: '#' :: rest ∧ ¬ ['/', '#'] <:+: body ++ ['/'] := by
  induction text with
  | nil => simp at mark
  | cons c text ih =>
    by_cases here : c = '/' ∧ text.head? = some '#'
    · obtain ⟨rfl, head⟩ := here
      obtain ⟨rest, rfl⟩ := List.head?_eq_some_iff.mp head
      exact ⟨[], rest, rfl, by simp [infix_mark_cons]⟩
    · obtain ⟨body, rest, rfl, first⟩ := ih ((infix_mark_cons.mp mark).resolve_left here)
      refine ⟨c :: body, rest, rfl, fun mark' => ?_⟩
      rcases infix_mark_cons.mp mark' with ⟨slash, head⟩ | later
      · cases body with
        | nil => exact absurd head (by decide)
        | cons d body => exact here ⟨slash, head⟩
      · exact first later

theorem commentBody_of_first {body : List Char} (first : ¬ ['/', '#'] <:+: body ++ ['/'])
    (rest : List Char) :
    commentBody (body ++ '/' :: '#' :: rest) = (body ++ ['/', '#'], rest, true) := by
  induction body with
  | nil => rfl
  | cons c body ih =>
    rw [List.cons_append, infix_mark_cons, not_or] at first
    rw [List.cons_append, commentBody.eq_3, ih first.2]
    · rfl
    · rintro more rfl hash
      cases body with
      | nil => exact absurd (List.cons.inj hash).1 (by decide)
      | cons d body => exact first.1 ⟨rfl, congrArg List.head? hash⟩

theorem commentBody_of_none {text : List Char} (none : ¬ ['/', '#'] <:+: text) :
    commentBody text = (text, [], false) := by
  induction text with
  | nil => rfl
  | cons c text ih =>
    rw [infix_mark_cons, not_or] at none
    rw [commentBody.eq_3, ih none.2]
    rintro more rfl rfl
    exact none.1 ⟨rfl, rfl⟩

theorem stringBody_of_none {delimiter : Char} {text : List Char}
    (none : ∀ front back, text = front ++ back → ¬ Quoted delimiter front) :
    stringBody delimiter text = (text, [], false) := by
  fun_induction stringBody delimiter text with
  | case1 => rfl
  | case2 => rfl
  | case3 c rest body after closed found ih =>
    have onward : ∀ front back, rest = front ++ back → ¬ Quoted delimiter front :=
      fun front back split quoted => none _ back (split ▸ rfl) (.escape c quoted)
    obtain ⟨rfl, rfl, rfl⟩ := Prod.mk.inj (found.symm.trans (ih onward))
    rfl
  | case4 c rest single escape equal =>
    exact absurd (beq_iff_eq.mp equal ▸ .close) (none [c] rest rfl)
  | case5 c rest single escape differs body after closed found ih =>
    have slash : c ≠ '\\' := by
      rintro rfl
      cases rest with
      | nil => exact single rfl rfl
      | cons d rest => exact escape d rest rfl rfl
    have onward : ∀ front back, rest = front ++ back → ¬ Quoted delimiter front :=
      fun front back split quoted =>
        none _ back (split ▸ rfl) (.plain slash (by simpa using differs) quoted)
    obtain ⟨rfl, rfl, rfl⟩ := Prod.mk.inj (found.symm.trans (ih onward))
    rfl

section Readers

variable {limit : Nat} {c : Char}

theorem prescribed_readHash (rest : List Char) :
    Prescribed limit (readHash rest).kind (readHash rest).chars (readHash rest).rest := by
  by_cases opens : ∃ text, rest = '/' :: text
  · obtain ⟨text, rfl⟩ := opens
    rw [readHash, readComment]
    by_cases mark : ['/', '#'] <:+: text
    · obtain ⟨body, rest, rfl, first⟩ := exists_first_mark mark
      rw [commentBody_of_first first]
      exact .block rest first
    · rw [commentBody_of_none mark]
      exact .openBlock mark
  · have line := readHash_line fun text here => opens ⟨text, here⟩
    rw [line]
    have split : rest.takeWhile (fun d => !isLineEnd d) ++ rest.dropWhile (fun d => !isLineEnd d) =
        rest := List.takeWhile_append_dropWhile
    refine .line (longest_lineComment_iff.mpr ⟨⟨_, rfl, fun d member => ?_⟩, ?_⟩) fun slash => ?_
    · simpa using List.all_eq_true.mp List.all_takeWhile d member
    · exact stops_dropWhile _ rest
    · change ('#' :: (rest.takeWhile _ ++ rest.dropWhile _))[1]? = _ at slash
      rw [split, List.getElem?_cons_succ, ← List.head?_eq_getElem?] at slash
      exact opens (List.head?_eq_some_iff.mp slash)

theorem prescribed_readNumber (digit : c.isDigit = true) (rest : List Char) :
    let lexeme := readNumber (c :: rest)
    Prescribed limit lexeme.kind lexeme.chars lexeme.rest := by
  have whole := @run_takeWhile Char.isDigit c digit rest
  dsimp only
  rcases readNumber_cases (c :: rest) with ⟨d, others, point, digit'⟩ | plain
  · rw [readNumber_point point digit']
    have form : (readRun .number Char.isDigit (d :: others)).prepend
        ((c :: rest).takeWhile Char.isDigit ++ ['.']) =
          ⟨.number, (c :: rest).takeWhile Char.isDigit ++ '.' :: (d :: others).takeWhile Char.isDigit,
            (d :: others).dropWhile Char.isDigit, .normal, none⟩ := by
      simp [prepend, readRun]
    rw [form]
    exact .number (longest_fraction whole (run_takeWhile digit' others) (stops_dropWhile _ _))
  · rw [readNumber_plain plain]
    refine .number (longest_whole whole (stops_dropWhile _ _) ?_)
    rintro ⟨d, more, follows, digit'⟩
    rw [plain d more follows] at digit'
    exact absurd digit' Bool.false_ne_true

theorem prescribed_readAnnotationMark (rest : List Char) :
    let lexeme := readAnnotationMark rest
    Prescribed limit lexeme.kind lexeme.chars lexeme.rest := by
  dsimp only
  rw [readAnnotationMark]
  split
  case isTrue named =>
    cases rest with
    | nil => exact absurd named Bool.false_ne_true
    | cons d rest =>
      refine .mark (longest_mark_iff.mpr ⟨⟨_, rfl, run_takeWhile named rest⟩, ?_⟩)
      exact stops_dropWhile _ (d :: rest)
  case isFalse named => exact .nameless (Bool.eq_false_iff.mpr named)

theorem prescribed_readString (quote : isQuote c = true) (rest : List Char) :
    let lexeme := (readString c rest).prepend [c]
    Prescribed limit lexeme.kind lexeme.chars lexeme.rest := by
  dsimp only
  by_cases closed : ∃ body rest', rest = body ++ rest' ∧ Quoted c body
  · obtain ⟨body, rest, rfl, quoted⟩ := closed
    rw [readString, stringBody_quoted quote quoted]
    exact .string rest quote quoted
  · have none : ∀ front back, rest = front ++ back → ¬ Quoted c front :=
      fun front back split quoted => closed ⟨front, back, split, quoted⟩
    rw [readString, stringBody_of_none none]
    exact .openString quote none

theorem prescribed_readSymbol (operator : isOperator c = true) (rest : List Char) :
    let lexeme := readSymbol limit (c :: rest)
    Prescribed limit lexeme.kind lexeme.chars lexeme.rest := by
  obtain ⟨count, limited⟩ : ∃ count, max 1 limit = count + 1 := ⟨max 1 limit - 1, by omega⟩
  have run : Run isOperator (((c :: rest).take (max 1 limit)).takeWhile isOperator) := by
    rw [limited, List.take_succ_cons]
    exact run_takeWhile operator _
  have room : (((c :: rest).take (max 1 limit)).takeWhile isOperator).length ≤ max 1 limit :=
    (List.takeWhile_sublist _).length_le.trans (List.length_take_le _ _)
  exact .operator (longest_operator_iff.mpr ⟨⟨run, room⟩, or_iff_not_imp_left.mpr stops_drop⟩)
    (listed_symbol.mpr rfl)

theorem prescribed_readNormal (limit : Nat) (c : Char) (rest : List Char) :
    let lexeme := readNormal limit c rest
    Prescribed limit lexeme.kind lexeme.chars lexeme.rest := by
  dsimp only
  rw [readNormal.eq_def]
  split
  case isTrue blank =>
    exact .whitespace ((run_takeWhile blank rest).longest (stops_dropWhile _ _))
  split
  case isTrue hash =>
    obtain rfl := beq_iff_eq.mp hash
    exact prescribed_readHash rest
  split
  case isTrue start =>
    have part := isWordPart_of_isWordStart start
    refine .word (longest_word_iff.mpr ⟨⟨c, rest.takeWhile isWordPart, ?_, start, ?_⟩, ?_⟩)
      (listed_word.mpr rfl)
    · exact List.takeWhile_cons_of_pos part
    · exact List.all_eq_true.mp List.all_takeWhile
    · exact stops_dropWhile _ _
  split
  case isTrue digit => exact prescribed_readNumber digit rest
  split
  case isTrue => exact prescribed_readAnnotationMark rest
  split
  case isTrue quote => exact prescribed_readString quote rest
  case isFalse blank hash start digit at' quote =>
  split
  case h_1 kind found => exact .punctuation rest (mem_of_lookup found)
  case h_2 none =>
    split
    case isTrue operator => exact prescribed_readSymbol operator rest
    case isFalse operator =>
      have other : (!startsToken c) = true := by
        simp only [startsToken, none, blank, hash, start, digit, at', quote, operator]
        rfl
      refine .unexpected (Run.longest ⟨List.cons_ne_nil _ _, ?_⟩ (stops_dropWhile _ _))
      exact List.forall_mem_cons.mpr ⟨other, List.all_eq_true.mp List.all_takeWhile⟩

end Readers

section Readers

variable {limit : Nat} {c : Char}

theorem readNormal_punctuation {kind : TokenKind} (member : (c, kind) ∈ punctuation)
    (rest : List Char) : readNormal limit c rest = ⟨kind, [c], rest, .normal, none⟩ := by
  simp only [punctuation, List.mem_cons, List.not_mem_nil, or_false, Prod.mk.injEq] at member
  rcases member with
    ⟨rfl, rfl⟩ | ⟨rfl, rfl⟩ | ⟨rfl, rfl⟩ | ⟨rfl, rfl⟩ | ⟨rfl, rfl⟩ | ⟨rfl, rfl⟩ | ⟨rfl, rfl⟩ |
      ⟨rfl, rfl⟩ <;> rfl

theorem readNormal_unexpected (other : startsToken c = false) (rest : List Char) :
    readNormal limit c rest = readUnexpected c rest := by
  simp only [startsToken, Bool.or_eq_false_iff, Option.isSome_eq_false_iff,
    Option.isNone_iff_eq_none] at other
  obtain ⟨⟨⟨⟨⟨⟨⟨blank, start⟩, operator⟩, digit⟩, hash⟩, at'⟩, quote⟩, mark⟩ := other
  simp only [readNormal, blank, hash, start, digit, at', quote, mark, operator, ↓reduceIte,
    Bool.false_eq_true]

theorem readWord_of_longest {kind : TokenKind} {chars rest : List Char}
    (longest : Longest Word chars rest) (listed : Listed wordKinds .ident (String.ofList chars) kind) :
    readWord (chars ++ rest) = ⟨kind, chars, rest, .normal, none⟩ := by
  obtain ⟨⟨c, more, rfl, start, part⟩, stops⟩ := longest_word_iff.mp longest
  have inside : ∀ d ∈ c :: more, isWordPart d = true :=
    List.forall_mem_cons.mpr ⟨isWordPart_of_isWordStart start, part⟩
  obtain ⟨taken, left⟩ := takeWhile_of_stops inside stops
  rw [readWord, taken, left, listed_word.mp listed]

theorem readNumber_of_longest {chars rest : List Char} (longest : Longest Number chars rest) :
    readNumber (chars ++ rest) = ⟨.number, chars, rest, .normal, none⟩ := by
  rcases longest_number_cases longest with
    ⟨run, stops, plain⟩ | ⟨whole, fraction, rfl, run, run', stops⟩
  · obtain ⟨taken, left⟩ := takeWhile_of_stops run.2 stops
    rw [readNumber_plain, readRun, taken, left]
    intro d more follows
    rw [left] at follows
    exact Bool.eq_false_iff.mpr fun digit => plain ⟨d, more, follows, digit⟩
  · obtain ⟨d, more, rfl⟩ := List.exists_cons_of_ne_nil run'.1
    have point : Stops Char.isDigit ('.' :: d :: (more ++ rest)) :=
      fun _ head => Option.some.inj head ▸ not_isDigit_point
    obtain ⟨taken, left⟩ := takeWhile_of_stops run.2 point
    obtain ⟨taken', left'⟩ := takeWhile_of_stops run'.2 stops
    rw [List.append_assoc, List.cons_append, List.cons_append,
      readNumber_point left (run'.2 d List.mem_cons_self), readRun, taken, ← List.cons_append,
      taken', left', prepend, List.append_assoc]
    rfl

theorem readAnnotation_of_run {name rest : List Char} (run : Run isWordPart name)
    (stops : Stops isWordPart rest) :
    readAnnotationMark (name ++ rest) = ⟨.annotationMark, '@' :: name, rest, .normal, none⟩ := by
  obtain ⟨c, more, rfl⟩ := List.exists_cons_of_ne_nil run.1
  obtain ⟨taken, left⟩ := takeWhile_of_stops run.2 stops
  have named : (c :: more ++ rest).head?.any isWordPart = true := run.2 c List.mem_cons_self
  rw [readAnnotationMark, if_pos named, readRun, taken, left]
  rfl

theorem readSymbol_of_longest {kind : TokenKind} {chars rest : List Char}
    (longest : Longest (Operator limit) chars rest)
    (listed : Listed symbolKinds .symbol (String.ofList chars) kind) :
    readSymbol limit (chars ++ rest) = ⟨kind, chars, rest, .normal, none⟩ := by
  obtain ⟨⟨run, room⟩, full⟩ := longest_operator_iff.mp longest
  have taken : ((chars ++ rest).take (max 1 limit)).takeWhile isOperator = chars := by
    rw [List.take_append, List.take_of_length_le room]
    refine (takeWhile_of_stops run.2 ?_).1
    rcases full with full | stops
    · rw [full, Nat.sub_self, List.take_zero]
      exact fun c head => nomatch head
    · intro c head
      rw [List.head?_take] at head
      split at head
      · exact nomatch head
      · exact stops c head
  rw [readSymbol, taken, List.drop_left, listed_symbol.mp listed]

theorem readHash_of_line {body rest : List Char} (inside : ∀ c ∈ body, isLineEnd c = false)
    (stops : Stops (fun c => !isLineEnd c) rest) (line : (body ++ rest).head? ≠ some '/') :
    readHash (body ++ rest) = ⟨.comment, '#' :: body, rest, .normal, none⟩ := by
  have inside' : ∀ c ∈ body, (!isLineEnd c) = true := fun c member => by rw [inside c member]; rfl
  obtain ⟨taken, left⟩ := takeWhile_of_stops inside' stops
  rw [readHash_line fun more slash => line (by rw [slash]; rfl), readRun, taken, left]
  rfl

/-- The characters that are prescribed at the front of a text are what is read there. -/
theorem Prescribed.readNormal_eq {kind : TokenKind} {chars rest text : List Char}
    (prescribed : Prescribed limit kind chars rest) (whole : chars ++ rest = c :: text) :
    ∃ mode fault?, readNormal limit c text = ⟨kind, chars, rest, mode, fault?⟩ := by
  cases prescribed with
  | ending => exact absurd whole.symm (List.cons_ne_nil c text)
  | whitespace longest =>
    obtain ⟨run, stops⟩ := longest_run_iff.mp longest
    obtain ⟨d, more, rfl⟩ := List.exists_cons_of_ne_nil run.1
    obtain ⟨rfl, rfl⟩ := List.cons.inj whole
    exact ⟨_, _, readNormal_blanks limit run.2 stops⟩
  | word longest listed =>
    have read := readWord_of_longest longest listed
    obtain ⟨⟨d, more, rfl, start, -⟩, -⟩ := longest
    obtain ⟨rfl, rfl⟩ := List.cons.inj whole
    exact ⟨_, _, (readNormal_word start _).trans read⟩
  | number longest =>
    have read := readNumber_of_longest longest
    obtain ⟨d, more, rfl, digit⟩ := longest.1.starts
    obtain ⟨rfl, rfl⟩ := List.cons.inj whole
    exact ⟨_, _, (readNormal_digit digit _).trans read⟩
  | mark longest =>
    obtain ⟨⟨name, rfl, run⟩, stops⟩ := longest_mark_iff.mp longest
    obtain ⟨rfl, rfl⟩ := List.cons.inj whole
    exact ⟨_, _, readAnnotation_of_run run stops⟩
  | nameless none =>
    obtain ⟨rfl, rfl⟩ := List.cons.inj whole
    exact ⟨_, _, if_neg (Bool.eq_false_iff.mp none)⟩
  | operator longest listed =>
    have read := readSymbol_of_longest longest listed
    obtain ⟨d, more, rfl⟩ := List.exists_cons_of_ne_nil longest.1.1.1
    obtain ⟨rfl, rfl⟩ := List.cons.inj whole
    exact ⟨_, _, (readNormal_operator (longest.1.1.2 d List.mem_cons_self) _).2.trans read⟩
  | punctuation _ member =>
    obtain ⟨rfl, rfl⟩ := List.cons.inj whole
    exact ⟨_, _, readNormal_punctuation member _⟩
  | line longest other =>
    obtain ⟨⟨body, rfl, inside⟩, stops⟩ := longest_lineComment_iff.mp longest
    obtain ⟨rfl, rfl⟩ := List.cons.inj whole
    rw [List.cons_append, List.getElem?_cons_succ, ← List.head?_eq_getElem?] at other
    exact ⟨_, _, readHash_of_line inside stops other⟩
  | @block body _ first =>
    rw [List.append_assoc] at whole
    obtain ⟨rfl, rfl⟩ := List.cons.inj whole
    have read : readNormal limit '#' ('/' :: (body ++ '/' :: '#' :: rest)) =
        (readComment (body ++ '/' :: '#' :: rest)).prepend ['#', '/'] := rfl
    rw [readComment, commentBody_of_first first] at read
    exact ⟨_, _, read⟩
  | @openBlock body none =>
    rw [List.append_nil] at whole
    obtain ⟨rfl, rfl⟩ := List.cons.inj whole
    have read : readNormal limit '#' ('/' :: body) = (readComment body).prepend ['#', '/'] := rfl
    rw [readComment, commentBody_of_none none] at read
    exact ⟨_, _, read⟩
  | @string quote body _ opens quoted =>
    obtain ⟨rfl, rfl⟩ := List.cons.inj whole
    have read := (@readNormal_quote limit _ opens (body ++ rest)).2
    rw [readString, stringBody_quoted opens quoted] at read
    exact ⟨_, _, read⟩
  | @openString quote body opens none =>
    rw [List.append_nil] at whole
    obtain ⟨rfl, rfl⟩ := List.cons.inj whole
    have read := (@readNormal_quote limit _ opens body).2
    rw [readString, stringBody_of_none none] at read
    exact ⟨_, _, read⟩
  | unexpected longest =>
    obtain ⟨run, stops⟩ := longest_run_iff.mp longest
    obtain ⟨d, more, rfl⟩ := List.exists_cons_of_ne_nil run.1
    obtain ⟨rfl, rfl⟩ := List.cons.inj whole
    obtain ⟨here, inside⟩ := List.forall_mem_cons.mp run.2
    obtain ⟨taken, left⟩ := takeWhile_of_stops inside stops
    have read := @readNormal_unexpected limit _ (by simpa using here) (more ++ rest)
    rw [readUnexpected, readRun, taken, left] at read
    exact ⟨_, _, read⟩

end Readers

/-- Only the end of the text has no characters. -/
theorem Prescribed.eq_eof {limit : Nat} {kind : TokenKind} {chars rest : List Char}
    (prescribed : Prescribed limit kind chars rest) (none : chars ++ rest = []) : kind = .eof := by
  obtain ⟨rfl, rfl⟩ := List.append_eq_nil_iff.mp none
  cases prescribed with
  | ending => rfl
  | whitespace longest => exact absurd rfl longest.1.1
  | word longest _ =>
    obtain ⟨⟨_, _, same, _⟩, _⟩ := longest
    exact nomatch same
  | number longest =>
    obtain ⟨_, _, same, _⟩ := longest.1.starts
    exact nomatch same
  | mark longest =>
    obtain ⟨⟨_, same, _⟩, _⟩ := longest
    exact nomatch same
  | operator longest _ => exact absurd rfl longest.1.1.1
  | line longest _ =>
    obtain ⟨⟨_, same, _⟩, _⟩ := longest
    exact nomatch same
  | unexpected longest => exact absurd rfl longest.1.1

end Lexeme

namespace Scanner

open Lexeme Text

variable {s next : Scanner} {token : Token}

/-- A scanner between two tokens yields the one token that is prescribed for the text after it. -/
theorem prescribed_next? (between : s.mode = .normal) (found : s.next? = some (token, next)) :
    s.rest = token.text.toList ++ next.rest ∧ token.position = s.position ∧
      ∀ kind chars rest, chars ++ rest = s.rest →
        (Prescribed s.operatorLimit kind chars rest ↔
          kind = token.kind ∧ chars = token.text.toList) := by
  rw [next?] at found
  split at found
  case isTrue => cases found
  case isFalse unfinished =>
  rw [between] at found
  cases text : s.rest with
  | nil =>
    rw [text] at found
    obtain ⟨rfl, rfl⟩ := Prod.mk.inj (Option.some.inj found)
    refine ⟨rfl, rfl, fun kind chars rest none => ⟨fun prescribed => ?_, ?_⟩⟩
    · exact ⟨prescribed.eq_eof none, (List.append_eq_nil_iff.mp none).1⟩
    · rintro ⟨rfl, rfl⟩
      exact (List.append_eq_nil_iff.mp none).2 ▸ .ending
  | cons c more =>
    rw [text] at found
    obtain ⟨rfl, rfl⟩ := Prod.mk.inj (Option.some.inj found)
    obtain ⟨lexeme, read, split, -⟩ := read_splits s.operatorLimit .normal c more
    obtain rfl := Option.some.inj read
    have chars_eq : (s.token (readNormal s.operatorLimit c more)).text.toList =
        (readNormal s.operatorLimit c more).chars := String.toList_ofList
    rw [chars_eq]
    refine ⟨split.symm, rfl, fun kind chars rest whole => ⟨fun prescribed => ?_, ?_⟩⟩
    · obtain ⟨mode, fault?, read⟩ := prescribed.readNormal_eq whole
      exact ⟨(congrArg Lexeme.kind read).symm, (congrArg Lexeme.chars read).symm⟩
    · rintro ⟨rfl, rfl⟩
      have prescribed := prescribed_readNormal s.operatorLimit c more
      rw [List.append_cancel_left (whole.trans split.symm)]
      exact prescribed

/-- Tokens follow the lexical grammar. Whatever text a scanner is started in, at whatever offset and
inside whatever construct, and however many tokens it has yielded: if it then is between two tokens
and yields another one, that token stands at its place in the text, and among all ways to cut a
token off the text there, it is the only one that the grammar prescribes. -/
theorem prescribed_iff (text : String) (offset : Nat) (mode : Mode) (limit count : Nat)
    (reached : ((resume text offset mode limit).take count).2 = s) (between : s.mode = .normal)
    (found : s.next? = some (token, next)) :
    ∃ before, text.toList = before ++ (token.text.toList ++ next.rest) ∧
      byteLength before = token.start ∧
      ∀ kind chars rest, chars ++ rest = token.text.toList ++ next.rest →
        (Prescribed limit kind chars rest ↔
          kind = token.kind ∧ chars = token.text.toList) := by
  obtain ⟨split, position, only⟩ := prescribed_next? between found
  have unfinished : s.finished = false := by
    refine Bool.eq_false_iff.mpr fun finished => ?_
    rw [next?, if_pos finished] at found
    cases found
  subst reached
  obtain ⟨before, whole, place⟩ := ((arrived_resume text offset mode limit).take unfinished).place
  rw [operatorLimit_take] at only
  refine ⟨before, split ▸ whole, ?_, split ▸ only⟩
  rw [Token.start, position, place, Position.offset_after_start]

/-- After a number, a point that no digit follows begins an operator of its own. -/
theorem prescribed_after_number :
    ∃ s next token, ((resume "1..2" 0 .normal 3).take 1).2 = s ∧ s.mode = .normal ∧
      s.next? = some (token, next) ∧ token.text = ".." ∧
      ∀ kind chars rest, chars ++ rest = token.text.toList ++ next.rest →
        (Prescribed 3 kind chars rest ↔ kind = token.kind ∧ chars = token.text.toList) := by
  have reached : ((resume "1..2" 0 .normal 3).take 1).2 =
      ⟨['.', '.', '2'], ⟨1, 1, 2⟩, .normal, 3, false, .empty⟩ := rfl
  have found : (⟨['.', '.', '2'], ⟨1, 1, 2⟩, .normal, 3, false, .empty⟩ : Scanner).next? =
      some (⟨.symbol, "..", ⟨1, 1, 2⟩⟩, ⟨['2'], ⟨3, 1, 4⟩, .normal, 3, false, .empty⟩) := rfl
  obtain ⟨_, _, _, only⟩ := prescribed_iff "1..2" 0 .normal 3 1 reached rfl found
  exact ⟨_, _, _, reached, rfl, found, rfl, only⟩

end Scanner

end LosslessSyntax
