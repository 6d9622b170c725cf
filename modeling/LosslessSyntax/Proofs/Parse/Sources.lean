import LosslessSyntax.Proofs.Grammar.Buffer

/-! # Sources of tokens

A program reads its tokens from a scanner, as they are needed, or from a list of all of them. Either
way it begins in the same state (`Offers.initial_eq`), and what it yields is cut off at the same
place (`Offers.runProgram_of_ended`, `Offers.runProgram_of_halted`). The same is what a buffer of
the source yields in the end, however far look-ups have filled it (`finish_of_ended`,
`finish_of_halted`). So the two sources are interchangeable (`Parse.sources_interchangeable`).
-/

namespace LosslessSyntax

open Lexeme Lookahead Grammar State TokenBuffer

/-- The sources of what a scanner has ahead: the scanner itself, or the tokens that it yields. -/
inductive Scanner.Offers (s : Scanner) : TokenSource → Prop where
  | onDemand : Offers s (.onDemand s)
  | listed (stop : Nat) : Offers s (.listed s.drain.1 s.drain.2.diagnostics stop)

variable {s : Scanner} {source : TokenSource}

section Offers

theorem drain_eq (between : s.Between) (fresh : s.diagnostics = .empty) :
    s.drain.1 = wholeOf s ∧ s.drain.2.diagnostics = .ofList (faultsAt s.position s.ahead) := by
  obtain ⟨tokens, faults⟩ := between.drain
  rw [fresh] at faults
  exact ⟨tokens, faults⟩

theorem closed_wholeOf (s : Scanner) (stop : Nat) :
    TokenSource.closed (wholeOf s) stop = wholeOf s := by
  have last : (wholeOf s).getLast? = some (ending s).token := List.getLast?_concat
  rw [TokenSource.closed, last]
  rfl

theorem Scanner.Offers.tokens_eq (offers : s.Offers source) (between : s.Between)
    (fresh : s.diagnostics = .empty) :
    source.tokens = wholeOf s ∧ source.diagnostics = .ofList (faultsAt s.position s.ahead) := by
  obtain ⟨tokens, faults⟩ := drain_eq between fresh
  cases offers with
  | onDemand => exact ⟨tokens, faults⟩
  | listed stop =>
    refine ⟨?_, faults⟩
    rw [TokenSource.tokens, tokens, closed_wholeOf]

/-- A parse begins in the same state, whatever the source. -/
theorem Scanner.Offers.initial_eq (offers : s.Offers source) (between : s.Between)
    (fresh : s.diagnostics = .empty) (length depth : Nat) :
    State.initial source length depth = State.initial (.onDemand s) length depth := by
  obtain ⟨tokens, diagnostics⟩ := offers.tokens_eq between fresh
  obtain ⟨tokens', diagnostics'⟩ := Scanner.Offers.onDemand.tokens_eq between fresh
  simp only [State.initial, tokens, diagnostics, tokens', diagnostics']

/-- Everything is read where a parse comes to the end. -/
theorem Scanner.Offers.read_none (offers : s.Offers source) (between : s.Between)
    (fresh : s.diagnostics = .empty) :
    source.read none = (wholeOf s, .ofList (faultsAt s.position s.ahead)) := by
  obtain ⟨tokens, faults⟩ := drain_eq between fresh
  cases offers with
  | onDemand => rw [TokenSource.read, tokens, faults]
  | listed stop => rw [TokenSource.read, tokens, faults, closed_wholeOf]

/-- Of what is read where a parse halts only what comes before that is kept. -/
theorem Scanner.Offers.kept_read (offers : s.Offers source) (between : s.Between)
    (fresh : s.diagnostics = .empty) {before after : List Lexeme} {target : Lexeme}
    (split : s.ahead = before ++ target :: after)
    (significant : target.kind.isSignificant = true) {offset : Nat}
    (place : offset = (s.position.after (charsOf before)).offset) :
    (source.read (some offset)).1.takeWhile (fun token => decide (token.start < offset)) =
        tokensAt s.position before ∧
      (source.read (some offset)).2.items.filter (fun d => decide (d.span.start < offset)) =
        (Diagnostics.ofList (faultsAt s.position before)).items := by
  cases offers with
  | onDemand => exact kept_readThrough between fresh split significant place
  | listed stop =>
    obtain ⟨tokens, faults⟩ := drain_eq between fresh
    have solid : ∀ lexeme ∈ before ++ target :: after, lexeme.chars ≠ [] :=
      fun lexeme member => chars_ne_nil lexeme (show lexeme ∈ s.ahead from split ▸ member)
    rw [TokenSource.read, tokens, faults, closed_wholeOf, wholeOf, split]
    constructor
    · rw [tokensAt_append, List.append_assoc]
      exact takeWhile_tokensAt (fun lexeme member => solid lexeme (List.mem_append_left _ member))
        place _ (Nat.le_of_eq place)
    · have filtered := Diagnostics.ofList_filter (fun span => decide (span.start < offset))
        (faultsAt s.position (before ++ target :: after))
      rwa [faultsAt_append, filter_faultsAt solid place, ← faultsAt_append] at filtered

theorem foldl_push_none {b : TokenBuffer} (none : b.scanner? = none) (tokens : List Token) :
    (tokens.foldl TokenBuffer.push b).scanner? = Option.none ∧
      (tokens.foldl TokenBuffer.push b).diagnostics = b.diagnostics := by
  induction tokens generalizing b with
  | nil => exact ⟨none, rfl⟩
  | cons token tokens ih =>
    rw [List.foldl_cons, push_of_none none]
    obtain ⟨stays, diagnostics⟩ := ih ((scanner?_add b token).trans none)
    exact ⟨stays, diagnostics.trans (diagnostics_add b token)⟩

/-- The buffer of a source is one of the text, however look-ups fill it. -/
theorem Scanner.Offers.filled (offers : s.Offers source) (between : s.Between)
    (fresh : s.diagnostics = .empty) (lookups : List Nat) :
    Filled s (lookups.foldl (fun b n => b.fill n) source.buffer) := by
  refine Filled.foldl_fill ?_ lookups
  cases offers with
  | onDemand => exact .unread between fresh
  | listed stop =>
    obtain ⟨tokens, faults⟩ := drain_eq between fresh
    rw [TokenSource.buffer, tokens, closed_wholeOf]
    obtain ⟨none, diagnostics⟩ :=
      @foldl_push_none (.unread none s.drain.2.diagnostics) rfl (wholeOf s)
    exact .wholly none ((Holds.unread _ _).foldl_push (wholeOf s)) (diagnostics.trans faults)

end Offers

section Outcome

variable (config : Config) (halts : Nat → Bool) (length : Nat) {b : TokenBuffer}

/-- The last state of a program. -/
def lastState (s : Scanner) : State :=
  program config halts (State.initial (.onDemand s) length 0)

/-- What a program yields that comes to the end. -/
def endedOutcome (s : Scanner) : Outcome where
  events := (lastState config halts length s).record.events.toList
  tokens := wholeOf s
  diagnostics := (lastState config halts length s).reports.extend
    (Diagnostics.ofList (faultsAt s.position s.ahead)).items
  haltedAt := none
  reachedEnd := true

/-- What a program yields that halts behind some lexemes. -/
def haltedOutcome (s : Scanner) (before : List Lexeme) : Outcome where
  events := (lastState config halts length s).record.events.toList
  tokens := tokensAt s.position before
  diagnostics := (lastState config halts length s).reports.extend
    (Diagnostics.ofList (faultsAt s.position before)).items
  haltedAt := some (s.position.after (charsOf before)).offset
  reachedEnd := false

variable {config halts length}

theorem runProgram_lastState (offers : s.Offers source) (between : s.Between)
    (fresh : s.diagnostics = .empty) :
    runProgram config halts length source =
      .ofState source
        (if (lastState config halts length s).atEnd then none
          else some (lastState config halts length s).current.token.start)
        (lastState config halts length s) := by
  rw [runProgram, offers.initial_eq between fresh, lastState]

/-- A program that comes to the end takes all tokens, whatever the source. -/
theorem Scanner.Offers.runProgram_of_ended (offers : s.Offers source) (between : s.Between)
    (fresh : s.diagnostics = .empty) (ended : (lastState config halts length s).atEnd = true) :
    runProgram config halts length source = endedOutcome config halts length s := by
  have tokens : ((wholeOf s).takeWhile fun _ => true) = wholeOf s :=
    List.takeWhile_eq_self_iff.mpr fun _ _ => rfl
  have faults : ((Diagnostics.ofList (faultsAt s.position s.ahead)).items.filter fun _ => true) =
      (Diagnostics.ofList (faultsAt s.position s.ahead)).items :=
    List.filter_eq_self.mpr fun _ _ => rfl
  rw [runProgram_lastState offers between fresh, if_pos ended, Outcome.ofState,
    offers.read_none between fresh]
  simp only [Option.all_none, endedOutcome, ended, tokens, faults]

/-- A program that halts takes the tokens before the current one, whatever the source. -/
theorem Scanner.Offers.runProgram_of_halted (offers : s.Offers source) (between : s.Between)
    (fresh : s.diagnostics = .empty) (halted : (lastState config halts length s).atEnd = false)
    {before after : List Lexeme} {target : Lexeme} (split : s.ahead = before ++ target :: after)
    (significant : target.kind.isSignificant = true)
    (place : (lastState config halts length s).current.token.start =
      (s.position.after (charsOf before)).offset) :
    runProgram config halts length source = haltedOutcome config halts length s before := by
  obtain ⟨tokens, faults⟩ := offers.kept_read between fresh split significant rfl
  rw [runProgram_lastState offers between fresh, halted, if_neg Bool.false_ne_true, place,
    Outcome.ofState]
  simp only [Option.all_some, haltedOutcome, halted, tokens, faults]

/-- A program that does not come to the end halts before a significant lexeme. -/
theorem exists_halted (between : s.Between) (fresh : s.diagnostics = .empty)
    (halted : (lastState config halts length s).atEnd = false) :
    ∃ before target after, s.ahead = before ++ target :: after ∧
      target.kind.isSignificant = true ∧
      (lastState config halts length s).current.token =
        tokenAt (s.position.after (charsOf before)) target ∧
      (lookaheads false s.position s.ahead).length =
        (ofTokens false (tokensAt s.position before)).length +
          (lastState config halts length s).ahead.length := by
  obtain ⟨before, target, after, split, significant, ahead, -⟩ :=
    @Grammar.runProgram_of_halted config halts length s between fresh halted
  have ahead' : (lastState config halts length s).ahead = _ := ahead
  refine ⟨before, target, after, split, significant, ?_, ?_⟩
  · rw [current_of_ahead ahead']
  · rw [ahead', List.length_cons, length_lookaheads, length_lookaheads, split, leavesOf_append,
      Leaf.total_append, total_leavesOf_cons significant]
    have front := length_lookaheads false s.position before
    rw [lookaheads] at front
    omega

/-- The state of a program has consumed all significant tokens where it comes to the end. -/
theorem ahead_lastState (between : s.Between) (fresh : s.diagnostics = .empty)
    (ended : (lastState config halts length s).atEnd = true) :
    (lastState config halts length s).ahead = [] := by
  have run := runs_programRun config halts length between fresh
  exact ((proper_programStart length between fresh).of_runs run).atEnd_iff.mp ended

/-- What a buffer yields in the end, however far it has been filled. -/
theorem finish_of_ended (filled : Filled s b) :
    b.finish length (lookaheads false s.position s.ahead).length none
        (lastState config halts length s) = endedOutcome config halts length s := by
  obtain ⟨filled', ready⟩ := filled.fill (lookaheads false s.position s.ahead).length
  obtain ⟨token, -, all⟩ := filled'.answers ready length
  obtain ⟨tokens, faults⟩ := filled'.ended (all (Nat.le_refl _))
  have kept : ((Diagnostics.ofList (faultsAt s.position s.ahead)).items.filter fun _ => true) =
      (Diagnostics.ofList (faultsAt s.position s.ahead)).items :=
    List.filter_eq_self.mpr fun _ _ => rfl
  rw [TokenBuffer.finish, token]
  simp only [List.drop_length, List.headD_nil, tokens, faults, Option.isSome_none,
    Option.isNone_none, Bool.true_or, kept, endedOutcome, Bool.false_eq_true, ↓reduceIte]
  rfl

theorem finish_of_halted (filled : Filled s b) {before after : List Lexeme} {target : Lexeme}
    (split : s.ahead = before ++ target :: after)
    (significant : target.kind.isSignificant = true) :
    b.finish length (ofTokens false (tokensAt s.position before)).length
        (some (s.position.after (charsOf before)).offset) (lastState config halts length s) =
      haltedOutcome config halts length s before := by
  obtain ⟨filled', ready⟩ := filled.fill (ofTokens false (tokensAt s.position before)).length
  obtain ⟨token, -, -⟩ := filled'.answers ready length
  obtain ⟨tokens, faults⟩ := filled'.kept split significant ready
  have next : ((lookaheads false s.position s.ahead).drop
      (ofTokens false (tokensAt s.position before)).length).headD (ending s) =
        ⟨tokenAt (s.position.after (charsOf before)) target,
          breakAfter false (tokensAt s.position before)⟩ := by
    rw [lookaheads, split, tokensAt_append, ofTokens_append, List.drop_left' rfl, tokensAt,
      ofTokens, if_pos (show (tokenAt _ target).kind.isSignificant = true from significant)]
    rfl
  have inside : target.kind ≠ .eof :=
    kind_ne_eof target (show target ∈ s.ahead from split ▸ by simp)
  have other : ((tokenAt (s.position.after (charsOf before)) target).kind == .eof) = false :=
    beq_eq_false_iff_ne.mpr inside
  have faults : (b.fill _).stop.diagnostics.items.filter (fun d => decide
      (d.span.start < (tokenAt (s.position.after (charsOf before)) target).start)) = _ := faults
  rw [next] at token
  rw [TokenBuffer.finish, token]
  simp only [Option.isSome_some, Option.isNone_some, Bool.false_or, tokens, faults, other,
    haltedOutcome, ↓reduceIte]

/-- What the buffer of a source yields in the end is what the program yields. -/
theorem Scanner.Offers.finish_eq (offers : s.Offers source) (between : s.Between)
    (fresh : s.diagnostics = .empty) (filled : Filled s b) :
    b.finish length
        ((lookaheads false s.position s.ahead).length -
          (lastState config halts length s).ahead.length)
        (if (lastState config halts length s).atEnd then none
          else some (lastState config halts length s).current.token.start)
        (lastState config halts length s) = runProgram config halts length source := by
  cases ended : (lastState config halts length s).atEnd with
  | true =>
    rw [offers.runProgram_of_ended between fresh ended, ahead_lastState between fresh ended,
      List.length_nil, Nat.sub_zero]
    exact finish_of_ended filled
  | false =>
    obtain ⟨before, target, after, split, significant, token, length⟩ :=
      exists_halted between fresh ended
    have place : (lastState config halts _ s).current.token.start =
        (s.position.after (charsOf before)).offset := congrArg Token.start token
    rw [offers.runProgram_of_halted between fresh ended split significant place, length,
      Nat.add_sub_cancel, place]
    exact finish_of_halted filled split significant

/-- A look-up in the buffer of a source answers with what the grammar sees there, and where that is
the end everything that was found wrong is known. -/
theorem Scanner.Offers.lookup (offers : s.Offers source) (between : s.Between)
    (fresh : s.diagnostics = .empty) (filled : Filled s b) (n : Nat) :
    let ahead := lookaheads false s.position s.ahead
    let next := (ahead.drop n).headD (ending s)
    (b.fill n).tokenAt length n = next.token ∧
      (n ≤ ahead.length → (b.fill n).breakAt n = next.afterBreak) ∧
      (next.kind = .eof → (b.fill n).diagnostics = source.diagnostics) := by
  intro ahead next
  obtain ⟨filled', ready⟩ := filled.fill n
  obtain ⟨token, afterBreak, all⟩ := filled'.answers ready length
  refine ⟨token, afterBreak, fun ends => ?_⟩
  have past : ahead.length ≤ n := by
    by_contra early
    have inside : n < ahead.length := Nat.not_le.mp early
    have member : next ∈ ahead := by
      simp only [next, List.headD_eq_head?_getD, List.head?_drop, List.getElem?_eq_getElem inside,
        Option.getD_some, List.getElem_mem]
    exact lookaheads_ne_eof kind_ne_eof next member ends
  have none := all past
  rw [(offers.tokens_eq between fresh).2, ← (filled'.ended none).2, stop_of_none none]

end Outcome

namespace Parse

/-- A program yields the same from a scanner that reads each token when it is needed and from a list
of all tokens.

Both sources keep their tokens in buffers, which look-ups fill. However the look-ups before it
have filled the buffer, a look-up answers with the next token that the grammar sees and with the
line break before it, and where it answers with the end everything that was found wrong is known.
What is in the buffer in the end, cut off at the token at which the program stands, is what the
program yields. -/
theorem sources_interchangeable (config : Config) (halts : Nat → Bool) (text : String) :
    let length := text.utf8ByteSize
    let onDemand : TokenSource := .onDemand (.ofText text config.operatorLimit)
    let listed : TokenSource :=
      .listed (scan text config.operatorLimit).1 (scan text config.operatorLimit).2 length
    runProgram config halts length onDemand = runProgram config halts length listed ∧
    ∀ source, source = onDemand ∨ source = listed → ∀ lookups : List Nat,
      let start := State.initial source length 0
      let last := program config halts start
      let buffer := lookups.foldl (fun buffer n => buffer.fill n) source.buffer
      (∀ n, let next := (start.ahead.drop n).headD start.finish
        (buffer.fill n).tokenAt length n = next.token ∧
        (n ≤ start.ahead.length → (buffer.fill n).breakAt n = next.afterBreak) ∧
        (next.kind = .eof → (buffer.fill n).diagnostics = source.diagnostics)) ∧
      buffer.finish length (start.ahead.length - last.ahead.length)
          (if last.atEnd then none else some last.current.token.start) last =
        runProgram config halts length source := by
  intro length onDemand listed
  have between := Scanner.between_ofText text config.operatorLimit
  have offers (source : TokenSource) (either : source = onDemand ∨ source = listed) :
      (Scanner.ofText text config.operatorLimit).Offers source := by
    rcases either with rfl | rfl
    · exact .onDemand
    · exact .listed length
  refine ⟨?_, fun source either lookups => ?_⟩
  · have filled := Filled.unread between rfl
    exact ((offers _ (.inl rfl)).finish_eq between rfl filled).symm.trans
      ((offers _ (.inr rfl)).finish_eq between rfl filled)
  · have offers := offers source either
    have filled := offers.filled between rfl lookups
    obtain ⟨ahead, finish, -⟩ := programStart_eq length between rfl
    rw [offers.initial_eq between rfl length 0]
    intro start last buffer
    have ahead : start.ahead = _ := ahead
    have finish : start.finish = _ := finish
    rw [ahead, finish]
    exact ⟨offers.lookup between rfl filled, offers.finish_eq between rfl filled⟩

/-- Two names on lines of their own, where the program halts before the second one and everything
has been looked up before. -/
theorem sources_interchangeable_halting :
    let listed : TokenSource :=
      .listed (scan "a\nb" 3).1 (scan "a\nb" 3).2 "a\nb".utf8ByteSize
    let start := State.initial (.onDemand (.ofText "a\nb" 3)) "a\nb".utf8ByteSize 0
    let last := program ⟨3, .standard, 64⟩ (· == 2) start
    let buffer := (TokenSource.onDemand (.ofText "a\nb" 3)).buffer.fill 5
    (last.atEnd = false ∧ last.current.token.start = 2) ∧
      buffer.finish "a\nb".utf8ByteSize (start.ahead.length - last.ahead.length)
          (if last.atEnd then none else some last.current.token.start) last =
        runProgram ⟨3, .standard, 64⟩ (· == 2) "a\nb".utf8ByteSize listed := by
  obtain ⟨same, buffered⟩ := sources_interchangeable ⟨3, .standard, 64⟩ (· == 2) "a\nb"
  exact ⟨by decide +kernel, (buffered _ (.inl rfl) [5]).2.trans same⟩

end Parse

end LosslessSyntax
