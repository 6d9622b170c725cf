import LosslessSyntax.Proofs.Grammar.Onward
import LosslessSyntax.Proofs.Scanner.Restart

/-! # Token buffers

The tokens that a parse has been asked about so far are kept in a buffer (`TokenBuffer`). A buffer
of a scanner is filled as far as a look-up needs, and takes over what the scanner has found wrong
when the end is read; a buffer of a list holds everything from the beginning. Between the two, a
buffer has read the first lexemes of a text, as many as it was asked for at least, or all of them
(`TokenBuffer.Filled`). So look-ups are answered alike however far a buffer has been filled
(`Filled.answers`), and what is kept when a parse halts is what is before the token it halts at
(`Filled.kept`).
-/

namespace LosslessSyntax

open Lexeme Lookahead

/-- The tokens of a source as far as they have been asked for. -/
structure TokenBuffer where
  /-- Where further tokens come from, unless all have been read. -/
  scanner? : Option Scanner
  /-- The tokens that have been read. -/
  tokens : List Token
  /-- The indices of the significant ones. -/
  significant : List Nat
  /-- For each significant token, whether a line break comes before it. -/
  breaks : List Bool
  /-- Whether a line break comes before the next significant token. -/
  pendingBreak : Bool
  /-- What was found wrong with the tokens, once the end has been read. -/
  diagnostics : Diagnostics

namespace TokenBuffer

/-- A buffer that no token has been read into. -/
def unread (scanner? : Option Scanner) (diagnostics : Diagnostics) : TokenBuffer :=
  ⟨scanner?, [], [], [], false, diagnostics⟩

/-- Takes over what the scanner has found wrong, and reads no further. -/
def stop (b : TokenBuffer) : TokenBuffer :=
  match b.scanner? with
  | none => b
  | some scanner =>
    { b with scanner? := none, diagnostics := b.diagnostics.extend scanner.diagnostics.items }

/-- Adds a token. -/
def add (b : TokenBuffer) (token : Token) : TokenBuffer :=
  if token.kind.isSignificant then
    { b with
      tokens := b.tokens ++ [token]
      significant := b.significant ++ [b.tokens.length]
      breaks := b.breaks ++ [b.pendingBreak]
      pendingBreak := false }
  else
    { b with
      tokens := b.tokens ++ [token]
      pendingBreak := b.pendingBreak || isBreak token }

/-- Adds a token, behind which nothing is read if it is the end. -/
def push (b : TokenBuffer) (token : Token) : TokenBuffer :=
  if token.kind == .eof then (b.add token).stop else b.add token

/-- Reads the next token of a scanner. -/
def pull (b : TokenBuffer) (scanner : Scanner) : TokenBuffer :=
  match scanner.next? with
  | none => b.stop
  | some (token, next) => push { b with scanner? := some next } token

/-- How many more times a buffer can be read into at most. -/
def left (b : TokenBuffer) : Nat :=
  b.scanner?.elim 0 fun scanner => if scanner.finished then 1 else scanner.rest.length + 2

theorem scanner?_stop (b : TokenBuffer) : b.stop.scanner? = none := by
  rw [stop]
  cases scanner : b.scanner? <;> simp [scanner]

theorem stop_of_none {b : TokenBuffer} (none : b.scanner? = none) : b.stop = b := by
  rw [stop, none]

theorem scanner?_add (b : TokenBuffer) (token : Token) :
    (b.add token).scanner? = b.scanner? := by
  rw [add]
  split <;> rfl

theorem diagnostics_add (b : TokenBuffer) (token : Token) :
    (b.add token).diagnostics = b.diagnostics := by
  rw [add]
  split <;> rfl

theorem scanner?_push (b : TokenBuffer) (token : Token) :
    (b.push token).scanner? = if token.kind == .eof then none else b.scanner? := by
  rw [push]
  split
  · exact scanner?_stop _
  · exact scanner?_add b token

theorem push_of_inside (b : TokenBuffer) {token : Token} (other : token.kind ≠ .eof) :
    b.push token = b.add token := by
  rw [push, if_neg (by simpa using other)]

theorem push_of_none {b : TokenBuffer} (none : b.scanner? = none) (token : Token) :
    b.push token = b.add token := by
  rw [push, stop_of_none ((scanner?_add b token).trans none), ite_self]

theorem left_pull {b : TokenBuffer} {scanner : Scanner} (more : b.scanner? = some scanner) :
    (b.pull scanner).left < b.left := by
  rw [left, left, more, pull, Option.elim_some]
  cases found : scanner.next? with
  | none =>
    rw [scanner?_stop, Option.elim_none]
    split <;> exact Nat.succ_pos _
  | some yielded =>
    have unfinished : scanner.finished = false := by
      by_contra finished
      rw [Scanner.next?, if_pos (by simpa using finished)] at found
      cases found
    simp only [scanner?_push, unfinished, Bool.false_eq_true, ↓reduceIte]
    split
    · exact Nat.succ_pos _
    rw [Option.elim_some]
    rcases Scanner.next?_cases found with ⟨lexeme, -, split, some⟩ | ended
    · have := List.length_pos_iff.mpr some
      rw [split, List.length_append]
      split <;> omega
    · rw [if_pos (congrArg Scanner.finished ended)]
      omega

/-- Reads tokens until more significant ones than some number have been read, or all. -/
def fill (n : Nat) (b : TokenBuffer) : TokenBuffer :=
  match _more : b.scanner? with
  | none => b
  | some scanner => if b.significant.length ≤ n then fill n (b.pull scanner) else b
termination_by b.left
decreasing_by exact left_pull _more

theorem fill_none {b : TokenBuffer} (none : b.scanner? = none) (n : Nat) : b.fill n = b := by
  rw [fill]
  split
  · rfl
  · case h_2 more => cases none.symm.trans more

theorem fill_some {b : TokenBuffer} {scanner : Scanner} (more : b.scanner? = some scanner)
    (n : Nat) :
    b.fill n = if b.significant.length ≤ n then (b.pull scanner).fill n else b := by
  rw [fill]
  split
  · case h_1 none => cases more.symm.trans none
  · case h_2 other more' =>
    obtain rfl := Option.some.inj (more'.symm.trans more)
    rfl

/-- A significant token of those that have been read; the last of them stands for those behind
it. -/
def tokenAt (textLength n : Nat) (b : TokenBuffer) : Token :=
  ((b.significant[n]?.or b.significant.getLast?).bind (b.tokens[·]?)).getD
    (TokenSource.endToken textLength)

/-- Whether a line break comes before a significant token. -/
def breakAt (n : Nat) (b : TokenBuffer) : Bool := b.breaks[n]?.getD false

/-- The index of a significant token among all tokens. -/
def indexOf (n : Nat) (b : TokenBuffer) : Nat := b.significant[n]?.getD b.tokens.length

/-- What a parse yields that has consumed so many significant tokens. A parse that halted takes the
tokens before the current one, and what was found wrong before it. -/
def finish (textLength consumed : Nat) (haltedAt : Option Nat) (state : Grammar.State)
    (b : TokenBuffer) : Grammar.Outcome :=
  let filled := b.fill consumed
  let current := filled.tokenAt textLength consumed
  { events := state.record.events.toList
    tokens :=
      if haltedAt.isSome then filled.tokens.take (filled.indexOf consumed) else filled.tokens
    diagnostics := state.reports.extend <| filled.stop.diagnostics.items.filter fun d =>
      haltedAt.isNone || d.span.start < current.start
    haltedAt := haltedAt
    reachedEnd := current.kind == .eof }

end TokenBuffer

/-- The buffer of a source, before anything has been asked for. -/
def TokenSource.buffer : TokenSource → TokenBuffer
  | onDemand scanner => .unread (some scanner) .empty
  | listed tokens diagnostics stop => (closed tokens stop).foldl .push (.unread none diagnostics)

/-- The indices of the significant tokens among some, counted from a number on. -/
def Lookahead.places (first : Nat) : List Token → List Nat
  | [] => []
  | token :: rest =>
    if token.kind.isSignificant then first :: places (first + 1) rest else places (first + 1) rest

namespace Lookahead

theorem places_append (first : Nat) (front back : List Token) :
    places first (front ++ back) = places first front ++ places (first + front.length) back := by
  induction front generalizing first with
  | nil => rfl
  | cons token front ih =>
    rw [List.cons_append, places, places, ih, List.length_cons, Nat.add_assoc first 1,
      Nat.add_comm 1]
    split <;> rfl

theorem length_places (first : Nat) (broken : Bool) (tokens : List Token) :
    (places first tokens).length = (ofTokens broken tokens).length := by
  induction tokens generalizing first broken with
  | nil => rfl
  | cons token rest ih =>
    rw [places, ofTokens]
    split
    · exact congrArg Nat.succ (ih _ _)
    · exact ih _ _

/-- The place of a significant token is the number of tokens before it. -/
theorem getElem?_places {front back : List Token} {token : Token}
    (significant : token.kind.isSignificant = true) :
    (places 0 (front ++ token :: back))[(ofTokens false front).length]? = some front.length := by
  rw [← length_places 0, places_append, List.getElem?_append_right (Nat.le_refl _), Nat.sub_self,
    places, if_pos significant, Nat.zero_add]
  rfl

end Lookahead

namespace TokenBuffer

/-- A buffer into which some tokens and no others have been read. -/
structure Holds (b : TokenBuffer) (read : List Token) : Prop where
  tokens : b.tokens = read
  significant : b.significant = places 0 read
  breaks : b.breaks = (ofTokens false read).map (·.afterBreak)
  pending : b.pendingBreak = breakAfter false read

namespace Holds

variable {b : TokenBuffer} {tokens : List Token}

theorem unread (scanner? : Option Scanner) (diagnostics : Diagnostics) :
    (TokenBuffer.unread scanner? diagnostics).Holds [] := ⟨rfl, rfl, rfl, rfl⟩

theorem stop (holds : b.Holds tokens) : b.stop.Holds tokens := by
  rw [TokenBuffer.stop]
  split
  · exact holds
  · exact ⟨holds.tokens, holds.significant, holds.breaks, holds.pending⟩

theorem add (holds : b.Holds tokens) (token : Token) :
    (b.add token).Holds (tokens ++ [token]) := by
  have pending : breakAfter false (tokens ++ [token]) =
      if token.kind.isSignificant then false else breakAfter false tokens || isBreak token :=
    Grammar.breakAfter_append false tokens [token]
  rw [TokenBuffer.add]
  split
  case isTrue significant =>
    rw [if_pos significant] at pending
    refine ⟨by rw [holds.tokens], ?_, ?_, pending.symm⟩
    · rw [holds.significant, holds.tokens, places_append, places, if_pos significant,
        Nat.zero_add]
      rfl
    · rw [holds.breaks, holds.pending, ofTokens_append, ofTokens, if_pos significant,
        List.map_append]
      rfl
  case isFalse insignificant =>
    rw [if_neg insignificant] at pending
    refine ⟨by rw [holds.tokens], ?_, ?_, by rw [pending, holds.pending]⟩
    · rw [holds.significant, places_append, places, if_neg insignificant]
      exact (List.append_nil _).symm
    · rw [holds.breaks, ofTokens_append, ofTokens, if_neg insignificant]
      exact congrArg _ (List.append_nil _).symm

theorem push (holds : b.Holds tokens) (token : Token) :
    (b.push token).Holds (tokens ++ [token]) := by
  rw [TokenBuffer.push]
  split
  · exact (holds.add token).stop
  · exact holds.add token

theorem foldl_push (holds : b.Holds tokens) (more : List Token) :
    (more.foldl TokenBuffer.push b).Holds (tokens ++ more) := by
  induction more generalizing b tokens with
  | nil => rwa [List.append_nil]
  | cons token more ih =>
    have rest := ih (holds.push token)
    rwa [List.append_assoc] at rest

variable {read : List Token}

/-- A buffer knows the significant tokens among those it has read. -/
theorem lookup (holds : b.Holds read) {n : Nat} {a : Lookahead}
    (here : (ofTokens false read)[n]? = some a) (textLength : Nat) :
    b.tokenAt textLength n = a.token ∧ b.breakAt n = a.afterBreak := by
  have split : ofTokens false read =
      (ofTokens false read).take n ++ a :: (ofTokens false read).drop (n + 1) := by
    obtain ⟨inside, same⟩ := List.getElem?_eq_some_iff.mp here
    rw [← same, List.getElem_cons_drop, List.take_append_drop]
  obtain ⟨front, back, tokens, passed, -, -⟩ := ofTokens_cut split
  have significant : a.token.kind.isSignificant = true :=
    (mem_ofTokens (List.mem_of_getElem? here)).2
  have length : (ofTokens false front).length = n := by
    obtain ⟨inside, -⟩ := List.getElem?_eq_some_iff.mp here
    rw [← passed, List.length_take, Nat.min_eq_left (Nat.le_of_lt inside)]
  have place : b.significant[n]? = some front.length := by
    rw [holds.significant, tokens, ← length, getElem?_places significant]
  refine ⟨?_, ?_⟩
  · rw [TokenBuffer.tokenAt, place, holds.tokens, tokens]
    simp
  · rw [TokenBuffer.breakAt, holds.breaks, List.getElem?_map, here]
    rfl

theorem length_significant (holds : b.Holds read) :
    b.significant.length = (ofTokens false read).length := by
  rw [holds.significant, length_places 0 false]

end Holds

/-- All tokens of a text that a scanner reads. -/
def wholeOf (s : Scanner) : List Token := tokensAt s.position s.ahead ++ [(Grammar.ending s).token]

theorem ofTokens_wholeOf (s : Scanner) :
    ofTokens false (wholeOf s) =
      Grammar.lookaheads false s.position s.ahead ++ [Grammar.ending s] := by
  rw [wholeOf, ofTokens_append]
  rfl

/-- A buffer into which the first lexemes of a text have been read, or all of them. -/
inductive Filled (s : Scanner) (b : TokenBuffer) : Prop where
  /-- There may be more to read. -/
  | partly {front : List Lexeme} {next : Scanner} : b.scanner? = some next → next.Between →
    s.ahead = front ++ next.ahead → next.position = s.position.after (charsOf front) →
    next.diagnostics = .ofList (faultsAt s.position front) →
    b.Holds (tokensAt s.position front) → b.diagnostics = .empty → Filled s b
  /-- The end has been read. -/
  | wholly : b.scanner? = none → b.Holds (wholeOf s) →
    b.diagnostics = .ofList (faultsAt s.position s.ahead) → Filled s b

namespace Filled

variable {s : Scanner} {b : TokenBuffer}

theorem unread (between : s.Between) (fresh : s.diagnostics = .empty) :
    Filled s (TokenBuffer.unread (some s) .empty) :=
  @partly s _ [] s rfl between rfl rfl fresh (.unread _ _) rfl

theorem extend_empty (list : List Diagnostic) :
    Diagnostics.empty.extend (Diagnostics.ofList list).items = .ofList list :=
  Diagnostics.extend_items_ofList Diagnostics.ordered_empty list

/-- Reading the end, or a lexeme. -/
theorem pull (filled : Filled s b) {scanner : Scanner} (more : b.scanner? = some scanner) :
    Filled s (b.pull scanner) := by
  cases filled with
  | wholly none => cases none.symm.trans more
  | @partly front next reads between ahead position diagnostics holds unknown =>
    obtain rfl : next = scanner := Option.some.inj (reads.symm.trans more)
    have holds' (scanner? : Option Scanner) : Holds { b with scanner? := scanner? } _ :=
      ⟨holds.tokens, holds.significant, holds.breaks, holds.pending⟩
    rw [TokenBuffer.pull]
    cases text : next.rest with
    | nil =>
      have none : next.ahead = [] := by rw [Scanner.ahead, text, lexemes_nil]
      rw [none, List.append_nil] at ahead
      have last : (⟨.eof, "", next.position⟩ : Token) = (Grammar.ending s).token := by
        rw [position, ← ahead]
        rfl
      rw [between.next_nil text, last]
      rw [← ahead] at holds' diagnostics
      refine .wholly ?_ ((holds' _).push _) ?_
      · rw [scanner?_push]
        rfl
      · change b.diagnostics.extend next.diagnostics.items = _
        rw [unknown, diagnostics, extend_empty]
    | cons c rest =>
      obtain ⟨found, -⟩ := between.next_cons text
      have inside := (kind_readNormal next.operatorLimit c rest).2
      obtain ⟨first, split, token, between', -, position', -, diagnostics'⟩ :=
        between.of_next found inside
      have other : (Lexeme.tokenAt next.position first).kind ≠ .eof := token ▸ inside
      rw [found, token]
      dsimp only
      rw [push_of_inside _ other]
      refine @partly s _ (front ++ [first]) (next.skip (readNormal next.operatorLimit c rest))
        ?_ between' ?_ ?_ ?_ ?_ ?_
      · exact scanner?_add ..
      · rw [ahead, split, List.append_assoc, List.singleton_append]
      · rw [position', position, charsOf_append, Position.after_append, charsOf_cons, charsOf_nil,
          List.append_nil]
      · rw [diagnostics', diagnostics, Diagnostics.ofList_extend, faultsAt_append, ← position,
          faultsAt, faultsAt, List.append_nil]
      · rw [tokensAt_append, ← position]
        exact (holds' _).add _
      · exact (diagnostics_add ..).trans unknown

/-- Filling a buffer goes on until a significant token has been read, or all. -/
theorem fill (filled : Filled s b) (n : Nat) :
    Filled s (b.fill n) ∧
      ((b.fill n).scanner? = none ∨ n < (b.fill n).significant.length) := by
  induction b using TokenBuffer.fill.induct n with
  | case1 b none =>
    rw [fill_none none]
    exact ⟨filled, .inl none⟩
  | case2 b scanner more short ih =>
    rw [fill_some more, if_pos short]
    exact ih (filled.pull more)
  | case3 b scanner more long =>
    rw [fill_some more, if_neg long]
    exact ⟨filled, .inr (Nat.not_le.mp long)⟩

/-- A buffer of a source, after some look-ups. -/
theorem foldl_fill (filled : Filled s b) (lookups : List Nat) :
    Filled s (lookups.foldl (fun b n => b.fill n) b) := by
  induction lookups generalizing b with
  | nil => exact filled
  | cons n lookups ih => exact ih (filled.fill n).1

/-- What a buffer has read, and what is left to be read. -/
theorem exists_read (filled : Filled s b) :
    ∃ front tail more, b.Holds (tokensAt s.position front ++ tail) ∧
      tokensAt s.position front ++ tail ++ more = wholeOf s ∧ front <+: s.ahead ∧
      b.stop.diagnostics = .ofList (faultsAt s.position front) ∧
      (b.scanner? = none ∧ front = s.ahead ∧ more = [] ∨ b.scanner? ≠ none ∧ tail = []) := by
  cases filled with
  | wholly none holds diagnostics =>
    refine ⟨s.ahead, [(Grammar.ending s).token], [], holds, List.append_nil _, List.prefix_rfl, ?_,
      .inl ⟨none, rfl, rfl⟩⟩
    rw [TokenBuffer.stop, none]
    exact diagnostics
  | @partly front next reads between ahead position diagnostics holds unknown =>
    refine ⟨front, [], tokensAt next.position next.ahead ++ [(Grammar.ending s).token], ?_, ?_,
      ⟨_, ahead.symm⟩, ?_, .inr ⟨by simp [reads], rfl⟩⟩
    · rwa [List.append_nil]
    · rw [List.append_nil, wholeOf, ahead, tokensAt_append, position, List.append_assoc]
    · rw [TokenBuffer.stop, reads]
      change b.diagnostics.extend next.diagnostics.items = _
      rw [unknown, diagnostics, extend_empty]

theorem length_of_prefix {front : List Lexeme} (start : front <+: s.ahead) :
    (ofTokens false (tokensAt s.position front)).length ≤
      (Grammar.lookaheads false s.position s.ahead).length := by
  obtain ⟨back, split⟩ := start
  rw [Grammar.lookaheads, ← split, tokensAt_append, ofTokens_append, List.length_append]
  exact Nat.le_add_right ..

theorem headD_drop {ahead : List Lookahead} {finish a : Lookahead} {n : Nat}
    (here : (ahead ++ [finish])[n]? = some a) : (ahead.drop n).headD finish = a := by
  rw [List.headD_eq_head?_getD, List.head?_drop]
  by_cases inside : n < ahead.length
  · rw [List.getElem?_append_left inside] at here
    rw [here]
    rfl
  · have past := Nat.not_lt.mp inside
    rw [List.getElem?_append_right past] at here
    rw [List.getElem?_eq_none past]
    have last : n - ahead.length = 0 := by
      by_contra other
      rw [List.getElem?_eq_none (by rw [List.length_singleton]; omega)] at here
      cases here
    rw [last] at here
    exact Option.some.inj here

/-- Look-ups are answered with the tokens of the text, whatever has been read. Where the end is
looked up all has been read. -/
theorem answers (filled : Filled s b) {n : Nat}
    (ready : b.scanner? = none ∨ n < b.significant.length) (textLength : Nat) :
    let ahead := Grammar.lookaheads false s.position s.ahead
    let next := (ahead.drop n).headD (Grammar.ending s)
    b.tokenAt textLength n = next.token ∧ (n ≤ ahead.length → b.breakAt n = next.afterBreak) ∧
      (ahead.length ≤ n → b.scanner? = none) := by
  obtain ⟨front, tail, more, holds, whole, start, -, rest⟩ := filled.exists_read
  intro ahead next
  have all : ofTokens false (tokensAt s.position front ++ tail) ++
      ofTokens (breakAfter false (tokensAt s.position front ++ tail)) more =
        ahead ++ [Grammar.ending s] := by
    rw [← ofTokens_append, whole, ofTokens_wholeOf]
  by_cases short : n < b.significant.length
  · have length := holds.length_significant
    have here := List.getElem?_eq_getElem (length ▸ short)
    have same : next = _ := headD_drop (by
      rw [← all, List.getElem?_append_left (length ▸ short)]
      exact here)
    obtain ⟨token, afterBreak⟩ := holds.lookup here textLength
    refine ⟨same ▸ token, fun _ => same ▸ afterBreak, fun past => ?_⟩
    rcases rest with ⟨none, -⟩ | ⟨-, rfl⟩
    · exact none
    · rw [List.append_nil] at length
      have fewer := length_of_prefix start
      exact absurd (Nat.lt_of_lt_of_le (length ▸ short) (Nat.le_trans fewer past)) (Nat.lt_irrefl n)
  · have none := ready.resolve_right short
    obtain ⟨-, rfl, rfl⟩ | ⟨open', -⟩ := rest
    · rw [List.append_nil] at whole
      rw [whole] at holds
      have length := holds.length_significant
      rw [ofTokens_wholeOf, List.length_append, List.length_singleton] at length
      change _ = ahead.length + 1 at length
      have past : ahead.length < n := by omega
      have same : next = Grammar.ending s := by
        simp only [next, List.drop_eq_nil_of_le (Nat.le_of_lt past), List.headD_nil]
      refine ⟨?_, fun inside => absurd (Nat.lt_of_lt_of_le past inside) (Nat.lt_irrefl _),
        fun _ => none⟩
      have last : b.significant.getLast? = some (tokensAt s.position s.ahead).length := by
        rw [holds.significant, wholeOf, places_append, Nat.zero_add]
        exact List.getLast?_concat
      rw [TokenBuffer.tokenAt, List.getElem?_eq_none (Nat.not_lt.mp short), Option.none_or, last,
        holds.tokens, wholeOf, same]
      simp
    · exact absurd none open'

/-- Where the end is the current token everything has been read. -/
theorem ended (filled : Filled s b) (none : b.scanner? = none) :
    b.tokens = wholeOf s ∧ b.stop.diagnostics = .ofList (faultsAt s.position s.ahead) := by
  obtain ⟨front, tail, more, holds, whole, -, diagnostics, rest⟩ := filled.exists_read
  obtain ⟨-, rfl, rfl⟩ | ⟨open', -⟩ := rest
  · rw [List.append_nil] at whole
    exact ⟨holds.tokens.trans whole, diagnostics⟩
  · exact absurd none open'

/-- Of what has been read only what is before the current token is kept, which is the same whatever
has been read. -/
theorem kept (filled : Filled s b) {before after : List Lexeme} {target : Lexeme}
    (split : s.ahead = before ++ target :: after)
    (significant : target.kind.isSignificant = true)
    (ready : b.scanner? = none ∨
      (ofTokens false (tokensAt s.position before)).length < b.significant.length) :
    b.tokens.take (b.indexOf (ofTokens false (tokensAt s.position before)).length) =
        tokensAt s.position before ∧
      b.stop.diagnostics.items.filter
          (fun d => decide (d.span.start < (s.position.after (charsOf before)).offset)) =
        (Diagnostics.ofList (faultsAt s.position before)).items := by
  obtain ⟨front, tail, more, holds, -, ⟨back, start⟩, diagnostics, rest⟩ := filled.exists_read
  have reaches : ∃ others, front = before ++ target :: others := by
    rcases rest with ⟨-, rfl, -⟩ | ⟨open', rfl⟩
    · exact ⟨after, split⟩
    have long := ready.resolve_left open'
    rw [holds.length_significant, List.append_nil] at long
    rcases List.append_eq_append_iff.mp (start.trans split) with ⟨more, rfl, -⟩ | ⟨more, rfl, same⟩
    · rw [tokensAt_append, ofTokens_append, List.length_append] at long
      omega
    · cases more with
      | nil =>
        rw [List.append_nil] at long
        exact absurd long (Nat.lt_irrefl _)
      | cons first others => exact ⟨others, by rw [(List.cons.inj same).1]⟩
  obtain ⟨others, rfl⟩ := reaches
  constructor
  · have place := @getElem?_places (tokensAt s.position before)
      (tokensAt ((s.position.after (charsOf before)).after target.chars) others ++ tail)
      (Lexeme.tokenAt (s.position.after (charsOf before)) target) significant
    have tokens : tokensAt s.position (before ++ target :: others) ++ tail =
        tokensAt s.position before ++ Lexeme.tokenAt (s.position.after (charsOf before)) target ::
          (tokensAt ((s.position.after (charsOf before)).after target.chars) others ++ tail) := by
      rw [tokensAt_append, List.append_assoc]
      rfl
    rw [tokens] at holds
    rw [TokenBuffer.indexOf, holds.significant, place, Option.getD_some, holds.tokens,
      List.take_left' rfl]
  · have solid : ∀ lexeme ∈ before ++ target :: others, lexeme.chars ≠ [] := by
      refine fun lexeme member => chars_ne_nil lexeme (show lexeme ∈ s.ahead from ?_)
      rw [← start]
      exact List.mem_append_left back member
    have filtered := Diagnostics.ofList_filter
      (fun span => decide (span.start < (s.position.after (charsOf before)).offset))
      (faultsAt s.position (before ++ target :: others))
    rw [faultsAt_append, filter_faultsAt solid rfl, ← faultsAt_append, ← diagnostics] at filtered
    exact filtered

end Filled

end TokenBuffer

end LosslessSyntax
