import LosslessSyntax.Proofs.Diagnostic.Collection
import LosslessSyntax.Proofs.Scanner.Lexeme
import LosslessSyntax.Proofs.Text.Bytes
import LosslessSyntax.Reparse.Block

/-! # The lexemes of a text

A text between tokens is a sequence of lexemes (`Lexeme.lexemes`), which make up the text. The last
of them stay the same when what comes before them is left out (`lexemes_back`), and the first of
them when what comes after them changes further on (`lexemes_front`). All that a scanner yields is
said by the lexemes and the place where they begin: its tokens (`tokensAt`), its diagnostics
(`faultsAt`), and what it has read when it stops somewhere.
-/

namespace LosslessSyntax

namespace Lexeme

/-- A lexeme without the text after it. -/
def bare (lexeme : Lexeme) : Lexeme := { lexeme with rest := [] }

theorem length_rest_readNormal (limit : Nat) (c : Char) (rest : List Char) :
    (readNormal limit c rest).rest.length ≤ rest.length := by
  obtain ⟨more, -, split, -⟩ := readNormal_settles limit c rest
  have length := congrArg List.length split
  rw [List.length_append] at length
  omega

/-- The lexemes of a text that begins between tokens. -/
def lexemes (limit : Nat) : List Char → List Lexeme
  | [] => []
  | c :: rest =>
    (readNormal limit c rest).bare :: lexemes limit (readNormal limit c rest).rest
termination_by text => text.length
decreasing_by exact Nat.lt_succ_of_le (length_rest_readNormal limit c rest)

/-- The text of some lexemes. -/
def charsOf (lexemes : List Lexeme) : List Char := lexemes.flatMap (·.chars)

@[simp] theorem charsOf_nil : charsOf [] = [] := rfl

@[simp] theorem charsOf_cons (first : Lexeme) (rest : List Lexeme) :
    charsOf (first :: rest) = first.chars ++ charsOf rest := rfl

@[simp] theorem charsOf_append (front back : List Lexeme) :
    charsOf (front ++ back) = charsOf front ++ charsOf back := List.flatMap_append

@[simp] theorem lexemes_nil (limit : Nat) : lexemes limit [] = [] := by rw [lexemes]

theorem lexemes_cons (limit : Nat) (c : Char) (rest : List Char) :
    lexemes limit (c :: rest) =
      (readNormal limit c rest).bare :: lexemes limit (readNormal limit c rest).rest := by
  rw [lexemes]

/-- The lexemes make up the text. -/
@[simp] theorem charsOf_lexemes (limit : Nat) (text : List Char) :
    charsOf (lexemes limit text) = text := by
  fun_induction lexemes limit text with
  | case1 => rfl
  | case2 c rest ih =>
    obtain ⟨more, chars, split, -⟩ := readNormal_settles limit c rest
    rw [charsOf_cons, ih]
    change (readNormal limit c rest).chars ++ _ = _
    rw [chars, List.cons_append, split]

theorem chars_ne_nil {limit : Nat} {text : List Char} :
    ∀ lexeme ∈ lexemes limit text, lexeme.chars ≠ [] := by
  fun_induction lexemes limit text with
  | case1 => exact fun _ member => nomatch member
  | case2 c rest ih =>
    intro lexeme member
    rcases List.mem_cons.mp member with rfl | member
    · obtain ⟨more, chars, -⟩ := readNormal_settles limit c rest
      exact fun none => List.cons_ne_nil c more (chars.symm.trans none)
    · exact ih lexeme member

theorem length_lexemes_le (limit : Nat) (text : List Char) :
    (lexemes limit text).length ≤ text.length := by
  fun_induction lexemes limit text with
  | case1 => exact Nat.le_refl 0
  | case2 c rest ih =>
    have := length_rest_readNormal limit c rest
    simp only [List.length_cons]
    omega

theorem lexemes_of_cons {limit : Nat} {text : List Char} {first : Lexeme} {others : List Lexeme}
    (split : lexemes limit text = first :: others) :
    ∃ c rest, text = c :: rest ∧ first = (readNormal limit c rest).bare ∧
      others = lexemes limit (readNormal limit c rest).rest := by
  cases text with
  | nil => simp at split
  | cons c rest =>
    rw [lexemes_cons] at split
    obtain ⟨first, others⟩ := List.cons.inj split
    exact ⟨c, rest, rfl, first.symm, others.symm⟩

/-- The last lexemes stay the same when the text before them is left out. -/
theorem lexemes_back {limit : Nat} {text : List Char} {front back : List Lexeme}
    (split : lexemes limit text = front ++ back) : lexemes limit (charsOf back) = back := by
  induction front generalizing text with
  | nil =>
    rw [List.nil_append] at split
    rw [← split, charsOf_lexemes]
  | cons first front ih =>
    obtain ⟨c, rest, -, -, others⟩ := lexemes_of_cons split
    exact ih others.symm

/-- The first lexemes stay the same when the text after them changes further on. -/
theorem lexemes_front {limit : Nat} {text rest' : List Char} {front back : List Lexeme}
    (split : lexemes limit text = front ++ back) (follows : Follows (charsOf back) rest') :
    lexemes limit (charsOf front ++ rest') = front ++ lexemes limit rest' := by
  induction front generalizing text with
  | nil => rfl
  | cons first front ih =>
    obtain ⟨c, rest, rfl, rfl, others⟩ := lexemes_of_cons split
    have left : (readNormal limit c rest).rest = charsOf front ++ charsOf back := by
      rw [← charsOf_append, show front ++ back = _ from others, charsOf_lexemes]
    obtain ⟨more, chars, -, -, stable⟩ := readNormal_settles limit c rest
    have follows := left ▸ follows.append (charsOf front)
    have same := stable _ follows.head fun _ => follows
    rw [charsOf_cons]
    change lexemes limit ((readNormal limit c rest).chars ++ charsOf front ++ rest') = _
    rw [chars, List.cons_append, List.cons_append, List.append_assoc, lexemes_cons, same]
    exact congrArg _ (ih others.symm)

/-- The first lexeme, if it is not a number, stays the same when the text after it changes behind its
first character. -/
theorem lexemes_first {limit : Nat} {text rest' : List Char} {first : Lexeme} {others : List Lexeme}
    (split : lexemes limit text = first :: others) (other : first.kind ≠ .number)
    (head : rest'.head? = (charsOf others).head?) :
    lexemes limit (first.chars ++ rest') = first :: lexemes limit rest' := by
  obtain ⟨c, rest, rfl, rfl, left⟩ := lexemes_of_cons split
  rw [left, charsOf_lexemes] at head
  obtain ⟨more, chars, -, -, stable⟩ := readNormal_settles limit c rest
  have same := stable rest' head fun digit => absurd ((kind_readNormal limit c rest).1.mpr digit) other
  change lexemes limit ((readNormal limit c rest).chars ++ rest') = _
  rw [chars, List.cons_append, lexemes_cons, same]
  rfl

/-- Numbers are the lexemes that begin with a digit. -/
theorem any_isDigit_head {limit : Nat} {text : List Char} :
    ∀ lexeme ∈ lexemes limit text,
      lexeme.chars.head?.any Char.isDigit = true ↔ lexeme.kind = .number := by
  fun_induction lexemes limit text with
  | case1 => exact fun _ member => nomatch member
  | case2 c rest ih =>
    intro lexeme member
    rcases List.mem_cons.mp member with rfl | member
    · obtain ⟨more, chars, -⟩ := readNormal_settles limit c rest
      change (readNormal limit c rest).chars.head?.any Char.isDigit = true ↔ _
      rw [chars]
      exact (kind_readNormal limit c rest).1.symm
    · exact ih lexeme member

/-- No lexeme is the end of the text. -/
theorem kind_ne_eof {limit : Nat} {text : List Char} :
    ∀ lexeme ∈ lexemes limit text, lexeme.kind ≠ .eof := by
  fun_induction lexemes limit text with
  | case1 => exact fun _ member => nomatch member
  | case2 c rest ih =>
    intro lexeme member
    rcases List.mem_cons.mp member with rfl | member
    · exact (kind_readNormal limit c rest).2
    · exact ih lexeme member

/-- The token of a lexeme at a place. -/
def tokenAt (position : Position) (lexeme : Lexeme) : Token :=
  ⟨lexeme.kind, String.ofList lexeme.chars, position⟩

/-- What is wrong with a lexeme at a place. -/
def faultAt (position : Position) (lexeme : Lexeme) : List Diagnostic :=
  lexeme.fault?.toList.map fun fault => fault.diagnostic (tokenAt position lexeme).span

/-- The tokens of lexemes from a place on. -/
def tokensAt (position : Position) : List Lexeme → List Token
  | [] => []
  | first :: rest => tokenAt position first :: tokensAt (position.after first.chars) rest

/-- What is wrong with lexemes from a place on. -/
def faultsAt (position : Position) : List Lexeme → List Diagnostic
  | [] => []
  | first :: rest => faultAt position first ++ faultsAt (position.after first.chars) rest

theorem tokensAt_append (position : Position) (front back : List Lexeme) :
    tokensAt position (front ++ back) =
      tokensAt position front ++ tokensAt (position.after (charsOf front)) back := by
  induction front generalizing position with
  | nil => rfl
  | cons first front ih =>
    rw [List.cons_append, tokensAt, ih, tokensAt, charsOf_cons, Position.after_append,
      List.cons_append]

theorem faultsAt_append (position : Position) (front back : List Lexeme) :
    faultsAt position (front ++ back) =
      faultsAt position front ++ faultsAt (position.after (charsOf front)) back := by
  induction front generalizing position with
  | nil => rfl
  | cons first front ih =>
    rw [List.cons_append, faultsAt, ih, faultsAt, charsOf_cons, Position.after_append,
      List.append_assoc]

/-- Nothing is wrong where nothing is wrong with any lexeme. -/
theorem faultsAt_eq_nil {position : Position} {lexemes : List Lexeme} :
    faultsAt position lexemes = [] ↔ ∀ lexeme ∈ lexemes, lexeme.fault? = none := by
  induction lexemes generalizing position with
  | nil => exact iff_of_true rfl fun _ member => absurd member List.not_mem_nil
  | cons first rest ih =>
    rw [faultsAt, List.append_eq_nil_iff, ih, faultAt, List.map_eq_nil_iff,
      Option.toList_eq_nil_iff, List.forall_mem_cons]

@[simp] theorem stop_tokenAt (position : Position) (lexeme : Lexeme) :
    (tokenAt position lexeme).stop = position.offset + Text.byteLength lexeme.chars := by
  rw [Token.stop, tokenAt, Text.utf8ByteSize_ofList]
  rfl

/-- The tokens lie one after the other, and none of them is empty. -/
theorem mem_tokensAt {position : Position} {lexemes : List Lexeme}
    (solid : ∀ lexeme ∈ lexemes, lexeme.chars ≠ []) {token : Token}
    (member : token ∈ tokensAt position lexemes) :
    position.offset ≤ token.start ∧ token.start < token.stop ∧
      token.stop ≤ position.offset + Text.byteLength (charsOf lexemes) := by
  induction lexemes generalizing position with
  | nil => exact nomatch member
  | cons first rest ih =>
    have := Text.byteLength_pos (solid first List.mem_cons_self)
    rw [charsOf_cons, Text.byteLength_append]
    rcases List.mem_cons.mp member with rfl | member
    · rw [stop_tokenAt]
      refine ⟨Nat.le_refl _, ?_, ?_⟩
      · change position.offset < _
        omega
      · omega
    · have inner := ih (fun lexeme member => solid lexeme (List.mem_cons_of_mem _ member)) member
      rw [Position.offset_after] at inner
      omega

/-- A token is that of a lexeme, behind the lexemes before it. -/
theorem exists_of_mem_tokensAt {position : Position} {lexemes : List Lexeme} {token : Token}
    (member : token ∈ tokensAt position lexemes) :
    ∃ front target back, lexemes = front ++ target :: back ∧
      token = tokenAt (position.after (charsOf front)) target := by
  induction lexemes generalizing position with
  | nil => exact nomatch member
  | cons first rest ih =>
    rcases List.mem_cons.mp member with rfl | later
    · exact ⟨[], first, rest, rfl, rfl⟩
    · obtain ⟨front, target, back, rfl, rfl⟩ := ih later
      refine ⟨first :: front, target, back, rfl, ?_⟩
      rw [charsOf_cons, Position.after_append]

/-- Whatever is wrong is wrong with a token. -/
theorem mem_faultsAt {position : Position} {lexemes : List Lexeme} {d : Diagnostic}
    (member : d ∈ faultsAt position lexemes) :
    ∃ token ∈ tokensAt position lexemes, d.span = token.span := by
  induction lexemes generalizing position with
  | nil => exact nomatch member
  | cons first rest ih =>
    rcases List.mem_append.mp member with member | member
    · obtain ⟨fault, -, rfl⟩ := List.mem_map.mp member
      refine ⟨_, List.mem_cons_self, ?_⟩
      cases fault <;> rfl
    · obtain ⟨token, member, span⟩ := ih member
      exact ⟨token, List.mem_cons_of_mem _ member, span⟩

/-- What is wrong with lexemes is wrong where they stand. -/
theorem span_of_mem_faultsAt {position : Position} {lexemes : List Lexeme}
    (solid : ∀ lexeme ∈ lexemes, lexeme.chars ≠ []) {d : Diagnostic}
    (member : d ∈ faultsAt position lexemes) :
    position.offset ≤ d.span.start ∧ d.span.start < d.span.stop ∧
      d.span.stop ≤ position.offset + Text.byteLength (charsOf lexemes) := by
  obtain ⟨token, member, span⟩ := mem_faultsAt member
  rw [span]
  exact mem_tokensAt solid member

/-- The tokens that start before a place are those of the lexemes before it. -/
theorem takeWhile_tokensAt {position : Position} {front : List Lexeme}
    (solid : ∀ lexeme ∈ front, lexeme.chars ≠ []) {offset : Nat}
    (place : offset = (position.after (charsOf front)).offset) {token : Token} (rest : List Token)
    (start : offset ≤ token.start) :
    (tokensAt position front ++ token :: rest).takeWhile (fun token => decide (token.start < offset)) =
      tokensAt position front := by
  have inside : ∀ token ∈ tokensAt position front, decide (token.start < offset) = true := by
    intro token member
    have := mem_tokensAt solid member
    rw [decide_eq_true_eq, place, Position.offset_after]
    omega
  have stops : (token :: rest).takeWhile (fun token => decide (token.start < offset)) = [] :=
    List.takeWhile_cons_of_neg fun here => Nat.not_lt.mpr start (of_decide_eq_true here)
  rw [List.takeWhile_append_of_pos inside, stops, List.append_nil]

/-- What is wrong before a place is wrong with the lexemes before it. -/
theorem filter_faultsAt {position : Position} {front back : List Lexeme}
    (solid : ∀ lexeme ∈ front ++ back, lexeme.chars ≠ []) {offset : Nat}
    (place : offset = (position.after (charsOf front)).offset) :
    (faultsAt position front ++ faultsAt (position.after (charsOf front)) back).filter
        (fun d => decide (d.span.start < offset)) = faultsAt position front := by
  have inside : ∀ d ∈ faultsAt position front, decide (d.span.start < offset) = true := by
    intro d member
    obtain ⟨token, member, span⟩ := mem_faultsAt member
    have := mem_tokensAt (fun lexeme member => solid lexeme (List.mem_append_left back member)) member
    rw [decide_eq_true_eq, place, Position.offset_after, span]
    change token.start < _
    omega
  have outside : ∀ d ∈ faultsAt (position.after (charsOf front)) back,
      ¬ decide (d.span.start < offset) = true := by
    intro d member
    obtain ⟨token, member, span⟩ := mem_faultsAt member
    have := mem_tokensAt (fun lexeme member => solid lexeme (List.mem_append_right front member)) member
    rw [decide_eq_true_eq, place, span]
    change ¬ token.start < _
    omega
  rw [List.filter_append, List.filter_eq_self.mpr inside, List.filter_eq_nil_iff.mpr outside,
    List.append_nil]

end Lexeme

namespace Scanner

open Lexeme

variable {s : Scanner}

/-- A scanner between tokens. -/
structure Between (s : Scanner) : Prop where
  unfinished : s.finished = false
  mode : s.mode = .normal ∨ s.rest = []

/-- The lexemes that a scanner has ahead. -/
def ahead (s : Scanner) : List Lexeme := lexemes s.operatorLimit s.rest

theorem between_ofText (text : String) (limit : Nat) : (ofText text limit).Between :=
  ⟨rfl, .inl rfl⟩

theorem resume_of_append {text : String} {front back : List Char}
    (split : text.toList = front ++ back) {mode : Mode} (limit : Nat) :
    resume text (Text.byteLength front) mode limit =
      ⟨back, Position.start.after front, mode, limit, false, .empty⟩ := by
  rw [resume, split, Text.splitWithin_of_append]

theorem Between.next_nil (between : s.Between) (none : s.rest = []) :
    s.next? = some (⟨.eof, "", s.position⟩, { s with finished := true }) := by
  rw [next?, between.unfinished, none]
  rfl

theorem Between.next_cons (between : s.Between) {c : Char} {rest : List Char}
    (text : s.rest = c :: rest) :
    s.next? = some (tokenAt s.position (readNormal s.operatorLimit c rest),
        s.skip (readNormal s.operatorLimit c rest)) ∧
      (s.skip (readNormal s.operatorLimit c rest)).Between := by
  have mode : s.mode = .normal :=
    between.mode.resolve_right (by rw [text]; exact List.cons_ne_nil c rest)
  obtain ⟨more, -, -, mode', -⟩ := readNormal_settles s.operatorLimit c rest
  refine ⟨?_, between.unfinished, mode'⟩
  rw [next?, between.unfinished, text, mode]
  rfl

theorem diagnostics_skip (s : Scanner) (lexeme : Lexeme) :
    (s.skip lexeme).diagnostics = s.diagnostics.extend (faultAt s.position lexeme) := by
  rw [skip, faultAt]
  cases lexeme.fault? <;> rfl

/-- A law of scanners holds if it holds at the end and before every lexeme. -/
theorem Between.induction {motive : (s : Scanner) → s.Between → Prop}
    (ends : ∀ (s : Scanner) (between : s.Between), s.ahead = [] →
      s.next? = some (⟨.eof, "", s.position⟩, { s with finished := true }) → motive s between)
    (step : ∀ (s next : Scanner) (first : Lexeme) (between : s.Between) (between' : next.Between),
      s.next? = some (tokenAt s.position first, next) → s.ahead = first :: next.ahead →
      next.position = s.position.after first.chars →
      next.diagnostics = s.diagnostics.extend (faultAt s.position first) →
      motive next between' → motive s between)
    (s : Scanner) (between : s.Between) : motive s between := by
  induction size : s.rest.length using Nat.strongRecOn generalizing s with
  | _ n ih =>
  cases text : s.rest with
  | nil => exact ends s between (by rw [ahead, text, lexemes_nil]) (between.next_nil text)
  | cons c rest =>
    obtain ⟨found, between'⟩ := between.next_cons text
    refine step s _ (readNormal s.operatorLimit c rest).bare between between' found ?_ rfl
      (diagnostics_skip ..) (ih _ ?_ _ between' rfl)
    · rw [ahead, text, lexemes_cons]
      rfl
    · have shorter := length_rest_readNormal s.operatorLimit c rest
      rw [← size, text, List.length_cons]
      exact Nat.lt_succ_of_le shorter

/-- A token that is not the end comes from the next lexeme. -/
theorem Between.of_next (between : s.Between) {token : Token} {next : Scanner}
    (found : s.next? = some (token, next)) (inside : token.kind ≠ .eof) :
    ∃ first, s.ahead = first :: next.ahead ∧ token = tokenAt s.position first ∧ next.Between ∧
      s.rest = first.chars ++ next.rest ∧ next.position = s.position.after first.chars ∧
      next.operatorLimit = s.operatorLimit ∧
      next.diagnostics = s.diagnostics.extend (faultAt s.position first) := by
  cases text : s.rest with
  | nil =>
    rw [between.next_nil text] at found
    rw [← (Prod.mk.inj (Option.some.inj found)).1] at inside
    exact absurd rfl inside
  | cons c rest =>
    obtain ⟨found', between'⟩ := between.next_cons text
    rw [found'] at found
    obtain ⟨rfl, rfl⟩ := Prod.mk.inj (Option.some.inj found)
    obtain ⟨more, chars, split, -⟩ := readNormal_settles s.operatorLimit c rest
    refine ⟨(readNormal s.operatorLimit c rest).bare, ?_, rfl, between', ?_, rfl, rfl,
      diagnostics_skip ..⟩
    · rw [ahead, text, lexemes_cons]
      rfl
    · change c :: rest = (readNormal s.operatorLimit c rest).chars ++
        (readNormal s.operatorLimit c rest).rest
      rw [chars, List.cons_append, split]

/-- All that a scanner yields: the tokens of the lexemes ahead and an empty one at the end. -/
theorem Between.take (between : s.Between) {count : Nat} (enough : s.ahead.length < count) :
    (s.take count).1 = tokensAt s.position s.ahead ++
        [⟨.eof, "", s.position.after (charsOf s.ahead)⟩] ∧
      (s.take count).2.diagnostics = s.diagnostics.extend (faultsAt s.position s.ahead) := by
  induction s, between using Between.induction generalizing count with
  | ends s between none found =>
    obtain ⟨count, rfl⟩ : ∃ more, count = more + 1 := ⟨count - 1, by omega⟩
    have finished : Scanner.take count { s with finished := true } =
        ([], { s with finished := true }) := by
      cases count <;> rfl
    rw [Scanner.take, found, none]
    simp only [finished]
    exact ⟨rfl, rfl⟩
  | step s next first between between' found split position diagnostics ih =>
    obtain ⟨count, rfl⟩ : ∃ more, count = more + 1 := ⟨count - 1, by omega⟩
    have enough' : next.ahead.length < count := by
      rw [split, List.length_cons] at enough
      omega
    obtain ⟨tokens, faults⟩ := ih enough'
    rw [Scanner.take, found, split]
    simp only [tokens, faults, position, diagnostics, tokensAt, faultsAt, charsOf_cons,
      Position.after_append, Diagnostics.extend_append]
    exact ⟨rfl, trivial⟩

theorem Between.drain (between : s.Between) :
    s.drain.1 = tokensAt s.position s.ahead ++
        [⟨.eof, "", s.position.after (charsOf s.ahead)⟩] ∧
      s.drain.2.diagnostics = s.diagnostics.extend (faultsAt s.position s.ahead) :=
  between.take (Nat.lt_succ_of_le (length_lexemes_le ..))

/-- The tokens that start before an offset are those of the first lexemes; what is wrong with the
next one has been noted too. -/
theorem Between.tokensBefore (between : s.Between) (offset : Nat) {count : Nat}
    (enough : s.ahead.length < count) :
    ∃ front back, s.ahead = front ++ back ∧
      (Reparse.tokensBefore offset count s).1 = tokensAt s.position front ∧
      (Reparse.tokensBefore offset count s).2.diagnostics =
        s.diagnostics.extend (faultsAt s.position front ++
          faultsAt (s.position.after (charsOf front)) (back.take 1)) := by
  induction s, between using Between.induction generalizing count with
  | ends s between none found =>
    obtain ⟨count, rfl⟩ : ∃ more, count = more + 1 := ⟨count - 1, by omega⟩
    refine ⟨[], [], none, ?_⟩
    rw [Reparse.tokensBefore, found]
    exact ⟨rfl, rfl⟩
  | step s next first between between' found split position diagnostics ih =>
    obtain ⟨count, rfl⟩ : ∃ more, count = more + 1 := ⟨count - 1, by omega⟩
    rw [Reparse.tokensBefore, found]
    simp only
    split
    case isTrue =>
      refine ⟨[], _, split, rfl, ?_⟩
      rw [diagnostics]
      simp [faultsAt]
    case isFalse =>
      have enough' : next.ahead.length < count := by
        rw [split, List.length_cons] at enough
        omega
      obtain ⟨front, back, ahead, tokens, faults⟩ := ih enough'
      refine ⟨first :: front, back, by rw [split, ahead, List.cons_append], ?_, ?_⟩
      · rw [tokens, tokensAt, position]
      · rw [faults, position, diagnostics, ← Diagnostics.extend_append, faultsAt, charsOf_cons,
          Position.after_append, List.append_assoc]

/-- Reading on to a significant token that starts at an offset stops with this token. -/
theorem Between.readThrough (between : s.Between) {front back : List Lexeme} {target : Lexeme}
    (split : s.ahead = front ++ target :: back) (significant : target.kind.isSignificant = true)
    {offset count : Nat} (place : offset = (s.position.after (charsOf front)).offset)
    (enough : s.ahead.length < count) :
    (TokenSource.readThrough offset count s).1 =
        tokensAt s.position front ++ [tokenAt (s.position.after (charsOf front)) target] ∧
      (TokenSource.readThrough offset count s).2.diagnostics =
        s.diagnostics.extend (faultsAt s.position front ++
          faultAt (s.position.after (charsOf front)) target) := by
  induction s, between using Between.induction generalizing count front with
  | ends s between none found => simp [none] at split
  | step s next first between between' found ahead position diagnostics ih =>
    obtain ⟨count, rfl⟩ : ∃ more, count = more + 1 := ⟨count - 1, by omega⟩
    have some : first.chars ≠ [] := chars_ne_nil first (show first ∈ s.ahead by simp [ahead])
    rw [TokenSource.readThrough, found]
    rw [ahead] at split
    cases front with
    | nil =>
      obtain ⟨rfl, -⟩ := List.cons.inj split
      have here : ((tokenAt s.position first).kind.isSignificant &&
          decide (offset ≤ (tokenAt s.position first).start)) = true := by
        rw [place]
        exact Bool.and_eq_true_iff.mpr ⟨significant, decide_eq_true (Nat.le_refl _)⟩
      simp only [here, ↓reduceIte, diagnostics]
      exact ⟨rfl, rfl⟩
    | cons other front =>
      obtain ⟨rfl, split'⟩ := List.cons.inj split
      have enough' : next.ahead.length < count := by
        rw [ahead, List.length_cons] at enough
        omega
      have early : ¬ offset ≤ (tokenAt s.position first).start := by
        have := Text.byteLength_pos some
        rw [place, Position.offset_after, charsOf_cons, Text.byteLength_append]
        change ¬ _ ≤ s.position.offset
        omega
      obtain ⟨tokens, faults⟩ := ih split'
        (by rw [place, position, charsOf_cons, Position.after_append]) enough'
      simp only [early, decide_false, Bool.and_false, Bool.false_eq_true, ↓reduceIte, tokens,
        faults, position, diagnostics, tokensAt, faultsAt, charsOf_cons, Position.after_append,
        Diagnostics.extend_append, List.cons_append]
      exact ⟨trivial, trivial⟩

end Scanner

end LosslessSyntax
