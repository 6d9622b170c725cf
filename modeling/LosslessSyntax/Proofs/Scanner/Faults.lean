import LosslessSyntax.Proofs.Diagnostic.Addition
import LosslessSyntax.Proofs.Scanner.Interrupted
import LosslessSyntax.Proofs.Scanner.Prescribed

/-! # Faulty tokens

Which tokens are faulty can be seen on the tokens: those without a kind of their own, and the last
one if it is a string or a block comment that nothing ends (`Token.Unended`). A scanner reports each of
them once, where it stands, and nothing else (`Scanner.faults_reported`).
-/

namespace LosslessSyntax

open Lexeme CharClass

/-- Characters that do not end a string: none of them is its delimiter, but for those that a backslash
takes with it. -/
inductive Unquoted (delimiter : Char) : List Char → Prop where
  | nil : Unquoted delimiter []
  | slash : Unquoted delimiter ['\\']
  | escape (c : Char) {rest : List Char} (more : Unquoted delimiter rest) :
      Unquoted delimiter ('\\' :: c :: rest)
  | plain {c : Char} {rest : List Char} (slash : c ≠ '\\') (inside : c ≠ delimiter)
      (more : Unquoted delimiter rest) : Unquoted delimiter (c :: rest)

namespace Token

/-- The report on characters with which no token begins, or on an at sign without a name. -/
def errorReport (token : Token) : Diagnostic :=
  .error .unexpectedCharacter
    (if token.text = "@" then "expected annotation name after `@`" else "unexpected character")
    token.span

/-- The report on a string without its end. -/
def stringReport (token : Token) : Diagnostic :=
  .error .unterminatedString "unterminated string literal" token.span

/-- The report on a block comment without its end. -/
def commentReport (token : Token) : Diagnostic :=
  .warning .unterminatedComment "unterminated block comment" token.span

/-- A token that begins inside a construct, or between tokens, gets into a construct: it is inside
already, or its first characters open one. -/
inductive Opens : Mode → List Char → Mode → Prop where
  | quote {c : Char} (quotes : isQuote c = true) : Opens .normal [c] (.string c)
  | mark : Opens .normal ['#', '/'] .blockComment
  | inside {mode : Mode} (inside : mode ≠ .normal) : Opens mode [] mode

/-- A token that begins inside a construct, or between tokens, is a string or a block comment that
nothing ends, with the report on it. -/
inductive Unended (token : Token) (mode : Mode) : Diagnostic → Prop where
  | string {opening body : List Char} {delimiter : Char} (opens : Opens mode opening (.string delimiter))
      (kind : token.kind = stringKind delimiter) (text : token.text.toList = opening ++ body)
      (unended : Unquoted delimiter body) : Unended token mode token.stringReport
  | comment {opening body : List Char} (opens : Opens mode opening .blockComment)
      (kind : token.kind = .comment) (text : token.text.toList = opening ++ body)
      (unended : ¬ ['/', '#'] <:+: body) : Unended token mode token.commentReport

/-- What is reported on tokens, the first of which begins inside a construct or between tokens, and all
others between tokens: each one without a kind of its own, in order, and then the last one if nothing
ends it. Only then is a construct open behind them. -/
def Reported (mode : Mode) (tokens : List Token) (reports : List Diagnostic) (ends : Mode) : Prop :=
  ∃ unended : Option Diagnostic,
    (∀ report, unended = some report ↔ ∃ last, tokens.getLast? = some last ∧
      last.Unended (if tokens.length = 1 then mode else .normal) report) ∧
    reports = (tokens.filter (·.kind == .error)).map errorReport ++ unended.toList ∧
    (ends = .normal ↔ unended = none)

theorem Unended.code {token : Token} {mode : Mode} {report : Diagnostic}
    (unended : token.Unended mode report) :
    report.code = .unterminatedString ∨ report.code = .unterminatedComment := by
  cases unended with
  | string => exact .inl rfl
  | comment => exact .inr rfl

/-- Whether a construct is open behind the tokens can be told from the codes of the reports. -/
theorem Reported.normal_iff {mode ends : Mode} {tokens : List Token} {reports : List Diagnostic}
    (reported : Reported mode tokens reports ends) :
    ends = .normal ↔ ∀ d ∈ reports, d.code ≠ .unterminatedString ∧ d.code ≠ .unterminatedComment := by
  obtain ⟨unended, final, rfl, ends⟩ := reported
  rw [ends]
  constructor
  · rintro rfl d member
    rw [Option.toList_none, List.append_nil] at member
    obtain ⟨token, -, rfl⟩ := List.mem_map.mp member
    exact ⟨nofun, nofun⟩
  · intro plain
    cases unended with
    | none => rfl
    | some report =>
      obtain ⟨last, -, open_⟩ := (final report).mp rfl
      obtain ⟨string, comment⟩ := plain report (by simp)
      exact absurd open_.code (not_or.mpr ⟨string, comment⟩)

/-- What a token opens is seen on its first characters. -/
theorem Opens.eq {mode inner inner' : Mode} {opening opening' body body' : List Char}
    (opens : Opens mode opening inner) (opens' : Opens mode opening' inner')
    (same : opening ++ body = opening' ++ body') : body = body' ∧ inner = inner' := by
  cases opens with
  | quote quotes =>
    cases opens' with
    | quote =>
      obtain ⟨rfl, rfl⟩ := List.cons.inj same
      exact ⟨rfl, rfl⟩
    | mark =>
      obtain ⟨rfl, -⟩ := List.cons.inj same
      exact absurd quotes (by decide)
    | inside inside => exact absurd rfl inside
  | mark =>
    cases opens' with
    | quote quotes =>
      obtain ⟨rfl, -⟩ := List.cons.inj same
      exact absurd quotes (by decide)
    | mark => exact ⟨(List.cons.inj (List.cons.inj same).2).2, rfl⟩
    | inside inside => exact absurd rfl inside
  | inside inside =>
    cases opens' with
    | quote => exact absurd rfl inside
    | mark => exact absurd rfl inside
    | inside => exact ⟨same, rfl⟩

end Token

namespace Lexeme

theorem ne_backslash {c : Char} {rest : List Char} (single : c = '\\' → rest = [] → False)
    (escape : ∀ d more, c = '\\' → rest = d :: more → False) : c ≠ '\\' := by
  intro slash
  cases rest with
  | nil => exact single slash rfl
  | cons d more => exact escape d more slash rfl

theorem unquoted_of_open {delimiter : Char} {text : List Char}
    (unclosed : (stringBody delimiter text).2.2 = false) : Unquoted delimiter text := by
  fun_induction stringBody delimiter text with
  | case1 => exact .nil
  | case2 => exact .slash
  | case3 c rest body after closed found ih => exact .escape c (ih (by rw [found]; exact unclosed))
  | case4 => cases unclosed
  | case5 c rest single escape differs body after closed found ih =>
    exact .plain (ne_backslash single escape) (by simpa using differs)
      (ih (by rw [found]; exact unclosed))

theorem not_unquoted_of_closed {delimiter : Char} {text : List Char}
    (closed : (stringBody delimiter text).2.2 = true) :
    ¬ Unquoted delimiter (stringBody delimiter text).1 := by
  fun_induction stringBody delimiter text with
  | case1 => cases closed
  | case2 => cases closed
  | case3 c rest body after ended found ih =>
    rw [found] at ih
    intro unended
    cases unended with
    | escape _ more => exact ih closed more
    | plain slash _ _ => exact slash rfl
  | case4 c rest single escape equal =>
    intro unended
    cases unended with
    | slash => exact ne_backslash single escape rfl
    | plain _ inside _ => exact inside (beq_iff_eq.mp equal)
  | case5 c rest single escape differs body after ended found ih =>
    rw [found] at ih
    intro unended
    cases unended with
    | slash => exact ne_backslash single escape rfl
    | escape _ _ => exact ne_backslash single escape rfl
    | plain _ _ more => exact ih closed more

/-- A block comment is closed exactly if it holds the mark that ends it. -/
theorem commentBody_closed_iff {text : List Char} :
    (commentBody text).2.2 = true ↔ ['/', '#'] <:+: (commentBody text).1 := by
  fun_induction commentBody text with
  | case1 => decide
  | case2 rest => exact iff_of_true rfl (List.infix_refl _)
  | case3 c rest other body after closed found ih =>
    have whole := commentBody_append rest
    rw [found] at ih whole
    rw [infix_mark_cons, or_iff_right]
    · exact ih
    · rintro ⟨rfl, head⟩
      obtain ⟨more, rfl⟩ := List.head?_eq_some_iff.mp head
      exact other (more ++ after) rfl whole.symm

/-- Apart from strings and block comments, a fault makes a token one without a kind of its own. -/
theorem readNormal_fault_cases (limit : Nat) (c : Char) (rest : List Char) :
    (readNormal limit c rest).fault? = none ∨
    ((readNormal limit c rest).fault? = some .missingName ∧
      (readNormal limit c rest).kind = .error ∧ (readNormal limit c rest).chars = ['@']) ∨
    ((readNormal limit c rest).fault? = some .unexpectedCharacter ∧
      (readNormal limit c rest).kind = .error ∧ c ≠ '@') ∨
    (c = '#' ∧ ∃ body, rest = '/' :: body) ∨ isQuote c = true := by
  rw [readNormal.eq_def]
  split
  case isTrue => exact .inl rfl
  split
  case isTrue hash =>
    split
    case h_1 body => exact .inr (.inr (.inr (.inl ⟨beq_iff_eq.mp hash, body, rfl⟩)))
    case h_2 => exact .inl rfl
  split
  case isTrue => exact .inl rfl
  split
  case isTrue =>
    rcases readNumber_cases (c :: rest) with ⟨d, others, point, digit⟩ | plain
    · rw [readNumber_point point digit]
      exact .inl rfl
    · rw [readNumber_plain plain]
      exact .inl rfl
  split
  case isTrue =>
    rw [readAnnotationMark]
    split
    · exact .inl rfl
    · exact .inr (.inl ⟨rfl, rfl, rfl⟩)
  case isFalse other =>
  split
  case isTrue quote => exact .inr (.inr (.inr (.inr quote)))
  split
  case h_1 => exact .inl rfl
  case h_2 =>
    split
    · exact .inl rfl
    · exact .inr (.inr (.inl ⟨rfl, rfl, by simpa using other⟩))

/-- What is reported on a lexeme that is read inside a construct, or between tokens: that its token has
no kind of its own, or that nothing ends it, which then takes the rest of the text. -/
inductive Told (position : Position) (mode : Mode) (lexeme : Lexeme) : Prop where
  | ended (ends : lexeme.mode = .normal)
      (told : faultAt position lexeme =
        if lexeme.kind == .error then [(tokenAt position lexeme).errorReport] else [])
      (ended : ∀ report, ¬ (tokenAt position lexeme).Unended mode report)
  | unended (kind : lexeme.kind ≠ .error) (inside : lexeme.mode ≠ .normal) (last : lexeme.rest = [])
      (report : Diagnostic) (told : faultAt position lexeme = [report])
      (unended : ∀ report', (tokenAt position lexeme).Unended mode report' ↔ report = report')

section Told

open Token

variable {position : Position} {mode : Mode} {opening : List Char}

theorem text_tokenAt (position : Position) (lexeme : Lexeme) :
    (tokenAt position lexeme).text.toList = lexeme.chars := String.toList_ofList

theorem told_string {delimiter : Char} (opens : Opens mode opening (.string delimiter))
    (text : List Char) : Told position mode ((readString delimiter text).prepend opening) := by
  have kinds : stringKind delimiter ≠ .error ∧ stringKind delimiter ≠ .comment := by
    rw [stringKind]
    split <;> decide
  cases closed : (stringBody delimiter text).2.2 with
  | true =>
    have read : readString delimiter text = ⟨stringKind delimiter, (stringBody delimiter text).1,
        (stringBody delimiter text).2.1, .normal, none⟩ := by
      simp only [readString, closed, ↓reduceIte]
    rw [read]
    refine .ended rfl (if_neg fun error => kinds.1 (beq_iff_eq.mp error)).symm fun report unended => ?_
    cases unended with
    | string opens' kind text' unended =>
      rw [text_tokenAt] at text'
      obtain ⟨rfl, same⟩ := opens.eq opens' text'
      exact not_unquoted_of_closed closed (Mode.string.inj same ▸ unended)
    | comment opens' kind => exact kinds.2 kind
  | false =>
    have whole := stringBody_append delimiter text
    rw [stringBody_open closed, List.append_nil] at whole
    have read : readString delimiter text = ⟨stringKind delimiter, text, [], .string delimiter,
        some .unterminatedString⟩ := by
      simp only [readString, closed, Bool.false_eq_true, ↓reduceIte, whole, stringBody_open closed]
    rw [read]
    refine .unended kinds.1 (by simp [prepend]) rfl _ rfl fun report => ⟨fun unended => ?_, ?_⟩
    · cases unended with
      | string => rfl
      | comment opens' kind => exact absurd kind kinds.2
    · rintro rfl
      exact .string opens rfl (text_tokenAt ..) (unquoted_of_open closed)

theorem told_comment (opens : Opens mode opening .blockComment) (text : List Char) :
    Told position mode ((readComment text).prepend opening) := by
  have kinds (delimiter : Char) : .comment ≠ stringKind delimiter := by
    rw [stringKind]
    split <;> decide
  cases closed : (commentBody text).2.2 with
  | true =>
    have read : readComment text = ⟨.comment, (commentBody text).1, (commentBody text).2.1, .normal,
        none⟩ := by
      simp only [readComment, closed, ↓reduceIte]
    rw [read]
    refine .ended rfl rfl fun report unended => ?_
    cases unended with
    | string opens' kind => exact kinds _ kind
    | comment opens' kind text' unended =>
      rw [text_tokenAt] at text'
      obtain ⟨rfl, -⟩ := opens.eq opens' text'
      exact unended (commentBody_closed_iff.mp closed)
  | false =>
    have whole := commentBody_append text
    rw [commentBody_open closed, List.append_nil] at whole
    have read : readComment text = ⟨.comment, text, [], .blockComment, some .unterminatedComment⟩ := by
      simp only [readComment, closed, Bool.false_eq_true, ↓reduceIte, whole, commentBody_open closed]
    have none : ¬ ['/', '#'] <:+: text := by
      rw [← whole, ← commentBody_closed_iff, closed]
      decide
    rw [read]
    refine .unended (show TokenKind.comment ≠ .error by decide) (by simp [prepend]) rfl _ rfl
      fun report => ⟨fun unended => ?_, ?_⟩
    · cases unended with
      | string opens' kind => exact absurd kind (kinds _)
      | comment => rfl
    · rintro rfl
      exact .comment opens rfl (text_tokenAt ..) none

theorem told_readNormal (limit : Nat) (c : Char) (rest : List Char) :
    Told position .normal (readNormal limit c rest) := by
  by_cases block : c = '#' ∧ ∃ body, rest = '/' :: body
  · obtain ⟨rfl, body, rfl⟩ := block
    exact told_comment .mark body
  by_cases quote : isQuote c = true
  · rw [(readNormal_quote quote rest).2]
    exact told_string (.quote quote) rest
  have other : ¬ ((c = '#' ∧ ∃ body, rest = '/' :: body) ∨ isQuote c = true) :=
    not_or.mpr ⟨block, quote⟩
  obtain ⟨more, chars, split, -⟩ := readNormal_settles limit c rest
  have ends : (readNormal limit c rest).mode = .normal :=
    ((readNormal_plain_or_open limit c rest).resolve_right other).1
  have ended (report : Diagnostic) :
      ¬ (tokenAt position (readNormal limit c rest)).Unended .normal report := by
    intro unended
    cases unended with
    | string opens kind text =>
      rw [text_tokenAt, chars] at text
      cases opens with
      | quote quotes => exact quote ((List.cons.inj text).1 ▸ quotes)
    | comment opens kind text =>
      rw [text_tokenAt, chars] at text
      cases opens with
      | mark =>
        obtain ⟨hash, slash⟩ := List.cons.inj text
        rw [slash] at split
        exact block ⟨hash, _, split.symm⟩
  rcases readNormal_fault_cases limit c rest with
    silent | ⟨fault, kind, single⟩ | ⟨fault, kind, at'⟩ | opens
  · have kind : (readNormal limit c rest).kind ≠ .error := fun error => fault_readNormal error silent
    refine .ended ends ?_ ended
    rw [if_neg (by simpa using kind), faultAt, silent]
    rfl
  · have text : (tokenAt position (readNormal limit c rest)).text = "@" :=
      congrArg String.ofList single
    refine .ended ends ?_ ended
    rw [kind, errorReport, text, faultAt, fault]
    rfl
  · have text : (tokenAt position (readNormal limit c rest)).text ≠ "@" := fun same => by
      have same := congrArg String.toList same
      rw [text_tokenAt, chars] at same
      exact at' (List.cons.inj same).1
    refine .ended ends ?_ ended
    rw [kind, errorReport, if_neg text, faultAt, fault]
    rfl
  · exact absurd opens other

theorem told_read {limit : Nat} {text : List Char} {lexeme : Lexeme}
    (read : Lexeme.read limit mode text = some lexeme) : Told position mode lexeme := by
  cases text with
  | nil => cases read
  | cons c rest =>
    cases mode with
    | normal =>
      obtain rfl := Option.some.inj read
      exact told_readNormal limit c rest
    | blockComment =>
      obtain rfl := Option.some.inj read
      exact told_comment (.inside (by decide)) (c :: rest)
    | string delimiter =>
      obtain rfl := Option.some.inj read
      exact told_string (.inside (by simp)) (c :: rest)

end Told

/-- What is reported on lexemes, and what is open behind them. -/
def Accounted (position : Position) (mode : Mode) (lexemes : List Lexeme) : Prop :=
  Token.Reported mode (tokensAt position lexemes) (faultsAt position lexemes)
    ((lexemes.getLast?.map (·.mode)).getD .normal)

theorem accounted_nil (position : Position) : Accounted position .normal [] :=
  ⟨none, by simp [tokensAt], rfl, by simp⟩

/-- One more lexeme in front of those of the text behind it. -/
theorem Told.accounted {position : Position} {mode : Mode} {first : Lexeme} {limit : Nat}
    (told : Told position mode first)
    (accounted : Accounted (position.after first.chars) .normal (lexemes limit first.rest)) :
    Accounted position mode (first.bare :: lexemes limit first.rest) := by
  cases told with
  | ended normal told ended =>
    generalize lexemes limit first.rest = others at *
    obtain ⟨unended, final, faults, ends⟩ := accounted
    have tokens : tokensAt position (first.bare :: others) =
        tokenAt position first :: tokensAt (position.after first.chars) others := rfl
    refine ⟨unended, fun report => ?_, ?_, ?_⟩
    · rw [final, tokens]
      cases others with
      | nil => simpa [tokensAt] using ended report
      | cons second more => simp [tokensAt, List.getLast?_cons_cons]
    · change faultAt position first ++ faultsAt (position.after first.chars) others = _
      rw [told, faults, tokens, List.filter_cons]
      change (if first.kind == .error then _ else _) ++ _ =
        (if first.kind == .error then _ else _ : List Token).map _ ++ _
      split <;> rfl
    · rw [← ends]
      cases others with
      | nil => simp [bare, normal]
      | cons second more => rw [List.getLast?_cons_cons]
  | unended kind inside last report told unended =>
    rw [last, lexemes_nil]
    have plain : ((tokenAt position first.bare).kind == .error) = false := by
      simpa [tokenAt, bare] using kind
    refine ⟨some report, fun report' => ?_, ?_, ?_⟩
    · rw [Option.some_inj, ← unended]
      simp [tokensAt, tokenAt, bare]
    · rw [tokensAt, tokensAt, List.filter_cons, plain]
      change faultAt position first ++ [] = _
      rw [told]
      rfl
    · simpa [bare] using inside

theorem accounted_lexemes (limit : Nat) (text : List Char) (position : Position) :
    Accounted position .normal (lexemes limit text) := by
  fun_induction lexemes limit text generalizing position with
  | case1 => exact accounted_nil position
  | case2 c rest ih => exact (told_readNormal limit c rest).accounted (ih _)

/-- What is wrong with lexemes is wrong at one place after the other. -/
theorem starts_faultsAt {position : Position} {lexemes : List Lexeme}
    (solid : ∀ lexeme ∈ lexemes, lexeme.chars ≠ []) :
    (faultsAt position lexemes).Pairwise fun d e => d.span.start < e.span.start := by
  induction lexemes generalizing position with
  | nil => exact .nil
  | cons first rest ih =>
    have solid' : ∀ lexeme ∈ rest, lexeme.chars ≠ [] :=
      fun lexeme member => solid lexeme (List.mem_cons_of_mem first member)
    refine List.pairwise_append.mpr ⟨?_, ih solid', fun d here e later => ?_⟩
    · rw [faultAt]
      cases first.fault? with
      | none => exact .nil
      | some fault => exact List.pairwise_singleton _ _
    · have start : d.span.start = position.offset := by
        obtain ⟨fault, -, rfl⟩ := List.mem_map.mp here
        cases fault <;> rfl
      have behind := (span_of_mem_faultsAt solid' later).1
      have := Text.byteLength_pos (solid first List.mem_cons_self)
      rw [Position.offset_after] at behind
      omega

end Lexeme

namespace Scanner

open Text

variable {s : Scanner}

/-- What a scanner yields and notes until it has ended, whatever construct it begins inside of. -/
theorem drain_lexemes (unfinished : s.finished = false) (inside : s.mode = .normal ∨ s.rest ≠ []) :
    ∃ lexemes, Accounted s.position s.mode lexemes ∧ (∀ lexeme ∈ lexemes, lexeme.chars ≠ []) ∧
      s.drain.1 = tokensAt s.position lexemes ++
        [⟨.eof, "", s.position.after (charsOf lexemes)⟩] ∧
      s.drain.2.diagnostics = s.diagnostics.extend (faultsAt s.position lexemes) ∧
      s.drain.2.mode = (lexemes.getLast?.map (·.mode)).getD .normal := by
  cases text : s.rest with
  | nil =>
    have between : s.Between := ⟨unfinished, .inr text⟩
    have normal := inside.resolve_right fun some => some text
    have none : s.ahead = [] := by rw [ahead, text, lexemes_nil]
    have mode := between.mode_take (Nat.lt_succ_of_le (length_lexemes_le s.operatorLimit s.rest))
    refine ⟨s.ahead, ?_, ?_, between.drain.1, between.drain.2, ?_⟩
    · rw [none, normal]
      exact accounted_nil _
    · exact chars_ne_nil
    · rw [← normal]
      exact mode
  | cons c rest =>
    obtain ⟨first, read, split, some, -⟩ := read_splits s.operatorLimit s.mode c rest
    have told : Told s.position s.mode first := told_read read
    have between : (s.skip first).Between := by
      refine ⟨unfinished, ?_⟩
      cases told with
      | ended ends => exact .inl ends
      | unended _ _ last => exact .inr last
    have found : s.next? = .some (tokenAt s.position first, s.skip first) := by
      rw [next?, unfinished, text, read]
      rfl
    have enough : (s.skip first).ahead.length < rest.length + 1 := by
      have shorter := congrArg List.length split
      have := List.length_pos_iff.mpr some
      have := length_lexemes_le s.operatorLimit first.rest
      rw [List.length_append, List.length_cons] at shorter
      change (lexemes s.operatorLimit first.rest).length < _
      omega
    obtain ⟨tokens, faults⟩ := between.take enough
    have mode := between.mode_take enough
    refine ⟨first.bare :: (s.skip first).ahead, told.accounted (accounted_lexemes ..), ?_, ?_, ?_, ?_⟩
    · exact List.forall_mem_cons.mpr ⟨some, chars_ne_nil⟩
    all_goals rw [drain, text, List.length_cons, take, found]
    · simp only [tokens, charsOf_cons, Position.after_append, tokensAt, List.cons_append]
      rfl
    · simp only [faults, diagnostics_skip, ← Diagnostics.extend_append, faultsAt]
      rfl
    · simp only [mode, List.getLast?_cons]
      cases (s.skip first).ahead.getLast? <;> rfl

/-- Lexical diagnostics and faulty tokens correspond one to one. Whatever text a scanner is started in,
at whatever offset, between tokens or, before the end of the text, inside a construct: it comes to an
end, and then it has noted, in order and without loss, one error for each token without a kind of its
own and one error or warning for the last token if that is a string or a block comment which nothing
ends, each at the span of its token. It is between tokens again exactly if no construct is reported to
be open. A scanner of the whole text is one that is started at its beginning. -/
theorem faults_reported (text : String) (offset : Nat) (mode : Mode) (limit : Nat)
    (inside : mode = .normal ∨ offset < text.utf8ByteSize) :
    ∃ tokens ending last, (resume text offset mode limit).drain = (tokens ++ [ending], last) ∧
      ending.kind = .eof ∧ last.next? = none ∧
      Token.Reported mode tokens last.diagnostics.items last.mode ∧
      (last.mode = .normal ↔ ∀ d ∈ last.diagnostics.items,
        d.code ≠ .unterminatedString ∧ d.code ≠ .unterminatedComment) ∧
      ofText text limit = resume text 0 .normal limit := by
  have unfinished : (resume text offset mode limit).finished = false := rfl
  have whole := splitWithin_append offset text.toList
  have some : mode = .normal ∨ (resume text offset mode limit).rest ≠ [] := by
    refine inside.imp_right fun before none => ?_
    change (splitWithin offset text.toList).2 = [] at none
    rw [none, List.append_nil] at whole
    have within := splitWithin_le offset text.toList
    rw [whole, byteLength_toList] at within
    omega
  obtain ⟨lexemes, accounted, solid, tokens, faults, ends⟩ := drain_lexemes unfinished some
  have items : (resume text offset mode limit).drain.2.diagnostics.items =
      faultsAt (resume text offset mode limit).position lexemes := by
    rw [faults]
    exact Diagnostics.items_ofList_of_starts (starts_faultsAt solid)
  have reported : Token.Reported mode (tokensAt (resume text offset mode limit).position lexemes)
      (resume text offset mode limit).drain.2.diagnostics.items
      (resume text offset mode limit).drain.2.mode := by
    rw [items, ends]
    exact accounted
  have finished : (resume text offset mode limit).drain.2.finished = true :=
    finished_take (Nat.lt_succ_self _)
  refine ⟨_, _, _, Prod.ext tokens rfl, rfl, ?_, reported, reported.normal_iff,
    ofText_eq_resume text limit⟩
  rw [next?, if_pos finished]

/-- What is left of a string, an at sign without a name, and a string that nothing ends. -/
theorem faults_reported_in_string :
    (Mode.string '"' = .normal ∨ 0 < "a\" @ \"b".utf8ByteSize) ∧
      ∃ tokens ending last,
        (resume "a\" @ \"b" 0 (.string '"') 3).drain = (tokens ++ [ending], last) ∧
        Token.Reported (.string '"') tokens last.diagnostics.items last.mode ∧
        last.diagnostics.items.map (fun d => (d.code, d.span)) =
          [(.unexpectedCharacter, ⟨3, 4⟩), (.unterminatedString, ⟨5, 7⟩)] := by
  have inside : Mode.string '"' = .normal ∨ 0 < "a\" @ \"b".utf8ByteSize := .inr (by decide)
  have noted : (resume "a\" @ \"b" 0 (.string '"') 3).drain.2.diagnostics.items.map
      (fun d => (d.code, d.span)) =
        [(.unexpectedCharacter, ⟨3, 4⟩), (.unterminatedString, ⟨5, 7⟩)] := by decide
  obtain ⟨tokens, ending, last, drained, -, -, reported, -⟩ :=
    faults_reported "a\" @ \"b" 0 (.string '"') 3 inside
  rw [drained] at noted
  exact ⟨inside, tokens, ending, last, drained, reported, noted⟩

end Scanner

end LosslessSyntax
