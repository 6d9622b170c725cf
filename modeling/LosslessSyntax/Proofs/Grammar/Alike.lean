import LosslessSyntax.Proofs.Parse.Lossless

/-! # Texts that look alike

Two texts look alike to the grammar if their tokens do, one by one (`Alike`): what the grammar reads
is the same, and the places correspond. Lexemes that stand elsewhere look alike
(`alike_tokensAt`). Programs over texts that look alike are grouped in the same way, and make the
same reports at places that correspond (`keeps_programRun`).
-/

namespace LosslessSyntax.Grammar

open State Lexeme Lookahead

/-- The link of places, none of them before `least`, that a function carries to each other. -/
def Link.along (least : Nat) (carry : Nat → Nat) (reports : Prop) : Link :=
  ⟨fun a b => least ≤ a.start ∧ b.start = carry a.start ∧ b.stop = carry a.stop, reports⟩

/-- Two tokens that are alike, whatever comes before them. -/
structure Alike (L : Link) (a b : Token) : Prop where
  kind : a.kind = b.kind
  text : a.kind = .symbol → a.text = b.text
  isBreak : isBreak a = isBreak b
  span : L.span a.span b.span
  start : L.span (.empty a.start) (.empty b.start)
  stop : L.span (.empty a.stop) (.empty b.stop)
  inside : a.kind ≠ .eof

variable {L : Link} {tokens tokens' : List Token}

/-- Of tokens that are alike, the significant ones match. -/
theorem matched_ofTokens (alike : List.Forall₂ (Alike L) tokens tokens') (broken : Bool) :
    List.Forall₂
        (fun a b => Matched L a b ∧ L.span (.empty a.token.start) (.empty b.token.start))
        (ofTokens broken tokens) (ofTokens broken tokens') ∧
      breakAfter broken tokens = breakAfter broken tokens' := by
  induction alike generalizing broken with
  | nil => exact ⟨.nil, rfl⟩
  | @cons a b _ _ first _ ih =>
    simp only [ofTokens, breakAfter, ← first.kind, ← first.isBreak]
    split
    · obtain ⟨matched, flag⟩ := ih false
      refine ⟨.cons ⟨?_, first.start⟩ matched, flag⟩
      exact ⟨⟨⟨first.kind, first.text, rfl⟩, first.span⟩, first.stop, first.inside⟩
    · exact ih _

/-- Lexemes that stand elsewhere are alike. -/
theorem alike_tokensAt {least : Nat} {carry : Nat → Nat} {reports : Prop} {lexemes : List Lexeme}
    (inside : ∀ lexeme ∈ lexemes, lexeme.kind ≠ .eof) {position position' : Position}
    (reached : least ≤ position.offset)
    (moves : ∀ x, position.offset ≤ x → x ≤ position.offset + Text.byteLength (charsOf lexemes) →
      carry x = position'.offset + (x - position.offset)) :
    List.Forall₂ (Alike (.along least carry reports)) (tokensAt position lexemes)
      (tokensAt position' lexemes) := by
  induction lexemes generalizing position position' with
  | nil => exact .nil
  | cons first rest ih =>
    rw [charsOf_cons, Text.byteLength_append] at moves
    have start : carry position.offset = position'.offset := by
      rw [moves _ (Nat.le_refl _) (Nat.le_add_right _ _), Nat.sub_self, Nat.add_zero]
    have stop : carry (tokenAt position first).stop = (tokenAt position' first).stop := by
      rw [stop_tokenAt, stop_tokenAt, moves _ (by omega) (by omega), Nat.add_sub_cancel_left]
    have reached' : least ≤ (tokenAt position first).stop := by
      rw [stop_tokenAt]
      omega
    refine .cons ⟨rfl, fun _ => rfl, rfl, ⟨reached, start.symm, stop.symm⟩,
      ⟨reached, start.symm, start.symm⟩, ⟨reached', stop.symm, stop.symm⟩,
      inside first List.mem_cons_self⟩ (ih ?_ ?_ ?_)
    · exact fun lexeme member => inside lexeme (List.mem_cons_of_mem first member)
    · rw [Position.offset_after]
      omega
    · intro x reached within
      simp only [Position.offset_after] at reached within ⊢
      rw [moves x (by omega) (by omega)]
      omega

/-- The link of any two places. -/
def Link.any : Link := ⟨fun _ _ => True, False⟩

/-- The same problem at the place to which it is carried. -/
def carried (carry : Nat → Nat) (d : Diagnostic) : Diagnostic :=
  { d with span := ⟨carry d.span.start, carry d.span.stop⟩ }

theorem eq_carried {least : Nat} {carry : Nat → Nat} {reports : Prop} {d e : Diagnostic}
    (same : SameReport (.along least carry reports) d e) : e = carried carry d := by
  obtain ⟨severity, code, message, -, start, stop⟩ := same
  obtain ⟨severity', code', message', span'⟩ := e
  obtain ⟨start', stop'⟩ := span'
  simp only at severity code message start stop
  subst severity code message start stop
  rfl

theorem eq_map_carried {least : Nat} {carry : Nat → Nat} {reports : Prop}
    {log log' : List Diagnostic}
    (same : List.Forall₂ (SameReport (.along least carry reports)) log log') :
    log' = log.map (carried carry) ∧ ∀ d ∈ log, least ≤ d.span.start := by
  induction same with
  | nil => exact ⟨rfl, fun _ member => nomatch member⟩
  | cons first _ ih =>
    refine ⟨?_, fun d member => ?_⟩
    · rw [List.map_cons, eq_carried first, ih.1]
    · rcases List.mem_cons.mp member with rfl | member
      · exact first.span.1
      · exact ih.2 d member

/-- What is wrong with lexemes is carried with them. -/
theorem faultsAt_carried {carry : Nat → Nat} {lexemes : List Lexeme} {position position' : Position}
    (moves : ∀ x, position.offset ≤ x → x ≤ position.offset + Text.byteLength (charsOf lexemes) →
      carry x = position'.offset + (x - position.offset)) :
    faultsAt position' lexemes = (faultsAt position lexemes).map (carried carry) := by
  induction lexemes generalizing position position' with
  | nil => rfl
  | cons first rest ih =>
    rw [charsOf_cons, Text.byteLength_append] at moves
    have start : carry position.offset = position'.offset := by
      rw [moves _ (Nat.le_refl _) (Nat.le_add_right _ _), Nat.sub_self, Nat.add_zero]
    have stop : carry (tokenAt position first).stop = (tokenAt position' first).stop := by
      rw [stop_tokenAt, stop_tokenAt, moves _ (by omega) (by omega), Nat.add_sub_cancel_left]
    have span : (tokenAt position' first).span =
        ⟨carry (tokenAt position first).start, carry (tokenAt position first).stop⟩ := by
      rw [stop]
      exact congrArg (Span.mk · _) start.symm
    have here : faultAt position' first = (faultAt position first).map (carried carry) := by
      rw [faultAt, faultAt, List.map_map, span]
      refine List.map_congr_left fun fault _ => ?_
      cases fault <;> rfl
    rw [faultsAt, faultsAt, List.map_append, here, ih fun x reached within => ?_]
    rw [Position.offset_after] at reached within
    rw [moves x (by omega) (by omega), Position.offset_after, Position.offset_after]
    omega

/-- Lexemes are alike to themselves. -/
theorem alike_same {lexemes : List Lexeme} (inside : ∀ lexeme ∈ lexemes, lexeme.kind ≠ .eof)
    (position : Position) :
    List.Forall₂ (Alike .same) (tokensAt position lexemes) (tokensAt position lexemes) := by
  refine List.forall₂_same.mpr fun token member => ⟨rfl, fun _ => rfl, rfl, rfl, rfl, rfl, ?_⟩
  obtain ⟨lexeme, member, kind⟩ := kind_mem_tokensAt member
  exact fun ends => inside lexeme member (kind.symm.trans ends)

/-- Of tokens that are alike, the first significant ones are, and the others match. -/
theorem alike_ofTokens (alike : List.Forall₂ (Alike L) tokens tokens') (broken broken' : Bool)
    (some : ofTokens broken tokens ≠ []) :
    ∃ a b flag flag' rest rest', ofTokens broken tokens = ⟨a, flag⟩ :: rest ∧
      ofTokens broken' tokens' = ⟨b, flag'⟩ :: rest' ∧ Alike L a b ∧
      List.Forall₂ (Matched L) rest rest' ∧
      ∀ f f', breakAfter f tokens = breakAfter f' tokens' := by
  induction alike generalizing broken broken' with
  | nil => exact absurd rfl some
  | @cons a b _ _ first others ih =>
    simp only [ofTokens, breakAfter, ← first.kind] at some ⊢
    split
    case isTrue significant =>
      obtain ⟨matched, flag⟩ := matched_ofTokens others false
      exact ⟨a, b, _, _, _, _, rfl, rfl, first, matched.imp fun _ _ => And.left, fun _ _ => flag⟩
    case isFalse insignificant =>
      rw [if_neg insignificant] at some
      obtain ⟨a, b, flag, flag', rest, rest', split, split', here, matched, same⟩ :=
        ih _ (broken' || isBreak b) some
      exact ⟨a, b, flag, flag', rest, rest', split, split', here, matched, fun _ _ => same _ _⟩

section Programs

variable {config : Config} {length length' : Nat} {s s' : Scanner}

theorem abreast_programStart (between : s.Between) (between' : s'.Between)
    (fresh : s.diagnostics = .empty) (fresh' : s'.diagnostics = .empty)
    (alike : List.Forall₂ (Alike L) (tokensAt s.position s.ahead) (tokensAt s'.position s'.ahead))
    (span : L.span (ending s).token.span (ending s').token.span)
    (start : L.span (.empty (ending s).token.start) (.empty (ending s').token.start))
    (ended : L.reports →
      (programStart length s).endReported = (programStart length' s').endReported) :
    Abreast L [] [] (programStart length s) (programStart length' s') := by
  obtain ⟨ahead, finish, -⟩ := programStart_eq length between fresh
  obtain ⟨ahead', finish', -⟩ := programStart_eq length' between' fresh'
  obtain ⟨matched, flag⟩ := matched_ofTokens alike false
  refine ⟨⟨_, _, ?_, ?_, matched.imp fun _ _ => And.left⟩, ?_, Iff.rfl, rfl, ?_,
    fun asked _ => ended asked⟩
  · rw [List.append_nil]
    exact ahead
  · rw [List.append_nil]
    exact ahead'
  · rw [List.headD_nil, List.headD_nil, finish, finish']
    exact ⟨⟨rfl, fun _ => rfl, flag⟩, span⟩
  · change L.span (.empty ((programStart length s).ahead.headD _).token.start)
      (.empty ((programStart length' s').ahead.headD _).token.start)
    rw [ahead, ahead', finish, finish', lookaheads, lookaheads]
    revert matched
    generalize ofTokens false (tokensAt s.position s.ahead) = passed
    generalize ofTokens false (tokensAt s'.position s'.ahead) = passed'
    rintro (_ | ⟨first, _⟩)
    · exact start
    · exact first.2

theorem tested_endsProgram : Coupling.Tested (endsProgram fun _ => false) := by
  have same : endsProgram (fun _ => false) = State.atEnd := funext fun s => Bool.or_false s.atEnd
  rw [same]
  exact Coupling.tested_atEnd

/-- Programs over texts that are alike are grouped in the same way and make the same reports. -/
theorem keeps_programRun
    (abreast : Abreast L [] [] (programStart length s) (programStart length' s')) :
    Keeps L [] [] (programStart length s) (programStart length' s')
        (programRun config (fun _ => false) length s)
        (programRun config (fun _ => false) length' s') ∧
      (programRun config (fun _ => false) length s).pieces =
        (programRun config (fun _ => false) length' s').pieces :=
  (coupled_items config config.maxDepth (abreast_blockClosed L [] []) tested_endsProgram _ _).2
    abreast rfl (Nat.zero_le _)

end Programs

end LosslessSyntax.Grammar
