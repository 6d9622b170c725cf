import LosslessSyntax.Proofs.Grammar.Alike

/-! # Going on from the same tokens

A parse that stands before a statement goes on in the same way wherever its tokens stand in the
text, and whatever came before them (`keeps_onward`). What it reports until it comes to a later
statement lies between the two, or at the beginning of that statement (`exists_log_between`).
-/

namespace LosslessSyntax.Grammar

open State Lexeme Lookahead

/-- A state before some tokens that go up to the end of a text. -/
structure Stands (s : State) (tokens : List Token) (stop : Nat) : Prop where
  ahead : ∃ broken, s.ahead = ofTokens broken tokens
  finish : s.finish.token.span = .empty stop
  broken : ∃ broken, s.finish.afterBreak = breakAfter broken tokens
  modes : s.breakModes = [true]
  proper : s.Proper

variable {s s' t : State} {tokens tokens' front back : List Token} {stop stop' : Nat}

theorem stands_programStart {scanner : Scanner} (length : Nat) (between : scanner.Between)
    (fresh : scanner.diagnostics = .empty) :
    Stands (programStart length scanner) (tokensAt scanner.position scanner.ahead)
      (scanner.position.offset + Text.byteLength scanner.rest) := by
  obtain ⟨ahead, finish, -⟩ := programStart_eq length between fresh
  refine ⟨⟨false, ahead⟩, ?_, ⟨false, by rw [finish]; rfl⟩, rfl,
    proper_programStart length between fresh⟩
  rw [finish, ← start_ending]
  rfl

theorem breakAfter_append (broken : Bool) (front back : List Token) :
    breakAfter broken (front ++ back) = breakAfter (breakAfter broken front) back := by
  induction front generalizing broken with
  | nil => rfl
  | cons first front ih => exact ih _

theorem Stands.length (stands : Stands s tokens stop) :
    s.ahead.length = Leaf.total (tokens.map Token.leaf) := by
  obtain ⟨broken, ahead⟩ := stands.ahead
  rw [ahead, length_ofTokens]

/-- A run that leaves as many tokens as there are in the last ones stands before these. -/
theorem Stands.of_runs (stands : Stands s (front ++ back) stop) (run : Runs s s')
    (left : s'.ahead.length = Leaf.total (back.map Token.leaf)) : Stands s' back stop := by
  obtain ⟨broken, ahead⟩ := stands.ahead
  obtain ⟨flag, afterBreak⟩ := stands.broken
  obtain ⟨passed, split, -⟩ := run.passed
  rw [ahead, ofTokens_append] at split
  have lengths : (ofTokens (breakAfter broken front) back).length = s'.ahead.length := by
    rw [length_ofTokens, left]
  refine ⟨⟨_, (List.append_inj' split lengths).2.symm⟩, ?_, ⟨breakAfter flag front, ?_⟩, ?_,
    stands.proper.of_runs run⟩
  · rw [run.finish]
    exact stands.finish
  · rw [run.finish, afterBreak, breakAfter_append]
  · rw [run.breakModes]
    exact stands.modes

theorem reports_reopen (broken : Bool) (last : Option Nat) (s : State) :
    (s.reopen broken last).reports = s.reports := by
  cases ahead : s.ahead <;> simp [reopen, ahead]

variable {L : Link} {config : Config} {room count : Nat}

/-- States before tokens that are alike are abreast, once the same is said to come before. -/
theorem Stands.abreast (stands : Stands s tokens stop) (stands' : Stands t tokens' stop')
    (alike : List.Forall₂ (Alike L) tokens tokens') (some : s.ahead ≠ [])
    (ends : L.span (.empty stop) (.empty stop')) (ended : L.reports → s.endReported = t.endReported) :
    Abreast L [] [] (s.reopen false none) (t.reopen false none) := by
  obtain ⟨broken, ahead⟩ := stands.ahead
  obtain ⟨broken', ahead'⟩ := stands'.ahead
  obtain ⟨flag, afterBreak⟩ := stands.broken
  obtain ⟨flag', afterBreak'⟩ := stands'.broken
  obtain ⟨a, b, x, y, rest, rest', split, split', first, matched, same⟩ :=
    alike_ofTokens alike broken broken' (ahead ▸ some)
  rw [reopen_cons _ _ (ahead.trans split), reopen_cons _ _ (ahead'.trans split')]
  refine ⟨⟨⟨a, false⟩ :: rest, ⟨b, false⟩ :: rest', (List.append_nil _).symm,
    (List.append_nil _).symm, .cons ?_ matched⟩, ⟨⟨?_, ?_, ?_⟩, ?_⟩, Iff.rfl, ?_, first.start, fun asked _ => ended asked⟩
  · exact ⟨⟨⟨first.kind, first.text, rfl⟩, first.span⟩, first.stop, first.inside⟩
  · exact stands.proper.finish.trans stands'.proper.finish.symm
  · intro symbol
    change s.finish.kind = .symbol at symbol
    rw [stands.proper.finish] at symbol
    exact nomatch symbol
  · change s.finish.afterBreak = t.finish.afterBreak
    rw [afterBreak, afterBreak']
    exact same flag flag'
  · rw [List.headD_nil, List.headD_nil]
    change L.span s.finish.token.span t.finish.token.span
    rw [stands.finish, stands'.finish]
    exact ends
  · change s.breakModes.headD true = t.breakModes.headD true
    rw [stands.modes, stands'.modes]

/-- A run that goes on from a state that is abreast once the same is said to come before. -/
theorem keeps_onward (proper : s.Proper) (proper' : t.Proper) (some : s.ahead ≠ [])
    (abreast : Abreast L [] [] (s.reopen false none) (t.reopen false none))
    (inside : ∀ k < count, (statements config room k s).ahead ≠ []) :
    ∃ added, (statements config room count s).outline = s.outline ++ added ∧
      (statements config room count t).outline = t.outline ++ added ∧ added.length = count ∧
      Logged L s t (statements config room count s) (statements config room count t) ∧
      (statements config room count t).ahead.length =
        (statements config room count s).ahead.length := by
  have same_length : s.ahead.length = t.ahead.length := by
    obtain ⟨length, first, second⟩ := abreast.length_eq
    rw [length_reopen] at first second
    exact first.trans second.symm
  have some' : t.ahead ≠ [] := by
    rw [← List.length_pos_iff] at some ⊢
    omega
  rcases Nat.eq_zero_or_pos count with rfl | positive
  · exact ⟨[], (List.append_nil _).symm, (List.append_nil _).symm, rfl, .refl s t,
      same_length.symm⟩
  obtain ⟨pieces, after, length, frame⟩ := statements_frame proper inside
  -- the statements are read with the shapes that come before them in the other run
  have framed : statements config room count s = { after with pieces := pieces ++ s.pieces } :=
    frame s.pieces
  have proper_framed : ({ s with pieces := t.pieces } : State).Proper := ⟨proper.finish, proper.inside⟩
  have opened : Abreast L [] [] (({ s with pieces := t.pieces } : State).reopen false none)
      (t.reopen false none) := by
    obtain ⟨next, rest, ahead, -⟩ := ahead_cons_of_inside some
    rw [reopen_cons false none (s := { s with pieces := t.pieces }) ahead]
    rw [reopen_cons false none ahead] at abreast
    exact ⟨abreast.ahead, abreast.next, abreast.empty, abreast.modes, abreast.gap, abreast.ended⟩
  have samePieces : (({ s with pieces := t.pieces } : State).reopen false none).pieces =
      (t.reopen false none).pieces := by
    rw [pieces_reopen, pieces_reopen]
  obtain ⟨keeps, same⟩ := @keeps_statements config room _ _ L [] [] opened samePieces count
    (Nat.zero_le _)
  rw [statements_reopen proper_framed some positive, statements_reopen proper' some' positive,
    frame] at keeps same
  have same : pieces ++ t.pieces = (statements config room count t).pieces := same
  refine ⟨Shape.outlineAll pieces.reverse, ?_, ?_, length, ?_, ?_⟩
  · rw [framed, State.outline, State.outline, List.reverse_append, Shape.outlineAll_append]
  · rw [State.outline, State.outline, ← same, List.reverse_append, Shape.outlineAll_append]
  · intro asked
    obtain ⟨log, log', made, made', logged⟩ := keeps.logged asked
    rw [reports_reopen] at made made'
    refine ⟨log, log', ?_, made', logged⟩
    rw [framed]
    exact made
  · obtain ⟨length, first, second⟩ := keeps.abreast.length_eq
    rw [framed]
    exact second.trans first.symm

/-- Places of reports from one place up to another: something there, or the token at the end. -/
def Amid (start stop : Nat) (span : Span) : Prop :=
  start ≤ span.start ∧ span.start ≤ stop ∧ start < span.stop ∧
    (span.stop ≤ stop ∨ span.start = stop)

section Amid

variable {position : Position} {lexemes others : List Lexeme}

theorem amid_of_mem_tokensAt (solid : ∀ lexeme ∈ lexemes, lexeme.chars ≠ []) {token : Token}
    (member : token ∈ tokensAt position lexemes) :
    Amid position.offset (position.offset + Text.byteLength (charsOf lexemes)) token.span ∧
      Amid position.offset (position.offset + Text.byteLength (charsOf lexemes))
        (.empty token.stop) := by
  have place := mem_tokensAt solid member
  refine ⟨⟨place.1, ?_, ?_, .inl place.2.2⟩, ?_, place.2.2, ?_, .inl place.2.2⟩
  · change token.start ≤ _
    omega
  · change _ < token.stop
    omega
  · change _ ≤ token.stop
    omega
  · change _ < token.stop
    omega

/-- The token at the end is the first one behind, or that of the end of the text. -/
theorem amid_headD {finish : Lookahead} (broken : Bool)
    (begins : 0 < Text.byteLength (charsOf lexemes))
    (solid : ∀ lexeme ∈ others, lexeme.chars ≠ []) (opens : Leaf.Opens (leavesOf others))
    (ends : finish.token.span =
      .empty (position.offset + Text.byteLength (charsOf (lexemes ++ others)))) :
    Amid position.offset (position.offset + Text.byteLength (charsOf lexemes))
      ((ofTokens broken (tokensAt (position.after (charsOf lexemes)) others)).headD
        finish).token.span := by
  cases others with
  | nil =>
    rw [tokensAt, ofTokens, List.headD_nil, ends, List.append_nil]
    exact ⟨Nat.le_add_right _ _, Nat.le_refl _, Nat.lt_add_of_pos_right begins, .inr rfl⟩
  | cons target rest =>
    have significant : target.kind.isSignificant = true := opens target.leaf rfl
    have some := Text.byteLength_pos (solid target List.mem_cons_self)
    rw [tokensAt, ofTokens, if_pos (by exact significant), List.headD_cons]
    have place : (tokenAt (position.after (charsOf lexemes)) target).start =
        position.offset + Text.byteLength (charsOf lexemes) := Position.offset_after _ _
    refine ⟨?_, Nat.le_of_eq place, ?_, .inr place⟩
    · change _ ≤ (tokenAt _ target).start
      omega
    · change _ < (tokenAt _ target).stop
      rw [stop_tokenAt, Position.offset_after]
      omega

/-- What is reported from one statement to another lies between them, or is about the token at which
the other begins. -/
theorem exists_log_between (stands : Stands s (tokensAt position (lexemes ++ others)) stop)
    (whole : stop = position.offset + Text.byteLength (charsOf (lexemes ++ others)))
    (solid : ∀ lexeme ∈ lexemes ++ others, lexeme.chars ≠ [])
    (opens : Leaf.Opens (leavesOf others)) (left' : s.ahead ≠ [])
    (left : Leaf.total (leavesOf others) ≤ (statements config room count s).ahead.length) :
    ∃ log, (statements config room count s).reports = s.reports.extend log ∧
      ∀ d ∈ log, Amid position.offset (position.offset + Text.byteLength (charsOf lexemes))
        d.span := by
  rcases Nat.eq_zero_or_pos count with rfl | positive
  · exact ⟨[], rfl, fun _ member => nomatch member⟩
  obtain ⟨broken, ahead⟩ := stands.ahead
  rw [tokensAt_append, ofTokens_append] at ahead
  obtain ⟨rest, rest_eq⟩ : ∃ rest, rest = ofTokens (breakAfter broken (tokensAt position lexemes))
      (tokensAt (position.after (charsOf lexemes)) others) := ⟨_, rfl⟩
  rw [← rest_eq] at ahead
  have rest_length : rest.length = Leaf.total (leavesOf others) := by
    rw [rest_eq, length_ofTokens, map_leaf_tokensAt]
  have shorter : (statements config room count s).ahead.length < s.ahead.length := by
    obtain ⟨count, rfl⟩ := Nat.exists_eq_succ_of_ne_zero (Nat.ne_of_gt positive)
    have first : (item config room s).ahead.length < s.ahead.length :=
      item_shorter stands.proper left'
    exact Nat.lt_of_le_of_lt (runs_statements count _).shrinks first
  -- the run begins at a token before the later statement
  obtain ⟨next, passed, split⟩ :
      ∃ next passed, ofTokens broken (tokensAt position lexemes) = next :: passed := by
    refine List.exists_cons_of_ne_nil fun none => ?_
    rw [none, List.nil_append] at ahead
    rw [ahead, rest_length] at shorter
    omega
  rw [split, List.cons_append] at ahead
  have amid {a : Lookahead} (member : a ∈ next :: passed) :=
    amid_of_mem_tokensAt (fun lexeme member => solid lexeme (List.mem_append_left others member))
      (mem_ofTokens (split ▸ member)).1
  have begins : 0 < Text.byteLength (charsOf lexemes) := by
    obtain ⟨⟨-, -, some, -⟩, -, reached, -⟩ := amid List.mem_cons_self
    exact Nat.pos_of_lt_add_right (Nat.lt_of_lt_of_le some reached)
  have abreast : Abreast (.within (Amid position.offset
      (position.offset + Text.byteLength (charsOf lexemes)))) rest rest
      (s.reopen false (some next.token.stop)) (s.reopen false (some next.token.stop)) := by
    rw [reopen_cons _ _ ahead]
    refine abreast_within (w := ⟨next.token, false⟩ :: passed) rfl (fun a member => ?_) ?_ ?_
    · obtain ⟨b, known, same⟩ : ∃ b ∈ next :: passed, a.token = b.token := by
        rcases List.mem_cons.mp member with rfl | member
        · exact ⟨next, List.mem_cons_self, rfl⟩
        · exact ⟨a, List.mem_cons_of_mem _ member, rfl⟩
      refine ⟨?_, ?_⟩
      · rw [Lookahead.kind, same]
        exact stands.proper.inside b (by
          rw [ahead, ← List.cons_append]
          exact List.mem_append_left _ known)
      · rw [same]
        exact amid known
    · rw [rest_eq]
      exact amid_headD _ begins (fun lexeme member => solid lexeme (List.mem_append_right _ member))
        opens (whole ▸ stands.finish)
    · exact (amid List.mem_cons_self).2
  rw [← statements_reopen stands.proper left' positive false (some next.token.stop)] at left ⊢
  obtain ⟨log, made, inside⟩ := exists_log_statements abreast (rest_length ▸ left)
  rw [reports_reopen] at made
  exact ⟨log, made, inside⟩

end Amid

end LosslessSyntax.Grammar
