import LosslessSyntax.Proofs.Derivation.Clean
import LosslessSyntax.Proofs.Grammar.StatementEnds
import LosslessSyntax.Proofs.Parse.Seams
import LosslessSyntax.Proofs.Scanner.LineFeed

/-! # Lines in front of a text

Lines about which nothing is reported do not change what is read after them, unless the text goes on
with the last statement. Scanning starts afresh after the line feed (`lexemes_lines`), the run over
the lines alone and the run over the whole text are the same up to there (`Lines.prolonged_upTo`),
and what follows is read as the text on its own is (`Lines.follows`). So a text may be parsed in
parts (`ofText_append`).
-/

namespace LosslessSyntax

open Lexeme Leaf Outline Grammar Lookahead

namespace Lexeme

/-- A line break comes after a text that ends with a line feed, unless something is wrong there. -/
theorem breakAfter_lexemes {limit : Nat} {text : List Char} (position : Position)
    (sound : ∀ lexeme ∈ lexemes limit text, lexeme.fault? = none)
    (ends : text.getLast? = some '\n') :
    breakAfter false (tokensAt position (lexemes limit text)) = true := by
  obtain ⟨front, blanks, split, feed, -⟩ := exists_last_blank sound ends
  rw [split, tokensAt_append, breakAfter_append]
  have broken (place : Position) :
      isBreak (tokenAt place ⟨.whitespace, blanks, [], .normal, none⟩) = true := by
    rw [isBreak, tokenAt, String.toList_ofList, List.contains_iff_mem.mpr feed]
    rfl
  change (_ || isBreak _) = true
  rw [broken, Bool.or_true]

end Lexeme

namespace Grammar

/-- After a line break a text starts anew with its first significant token, or with its end. -/
theorem startsAnew_lookaheads {lexemes : List Lexeme} {position position' : Position}
    {finish : Lookahead}
    (anew : ∀ token, (tokensAt position' lexemes).find? (·.kind.isSignificant) = some token →
      token.kind ≠ .elseWord ∧ ¬ (token.kind = .symbol ∧ token.text = "<"))
    (atEnd : finish.kind = .eof)
    (broken : finish.afterBreak = breakAfter true (tokensAt position lexemes)) :
    StartsAnew ((lookaheads true position lexemes).headD finish) := by
  induction lexemes generalizing position position' with
  | nil =>
    change StartsAnew finish
    refine ⟨broken, ?_, fun symbol => ?_⟩
    · rw [atEnd]
      decide
    · exact absurd (atEnd.symm.trans symbol) (by decide)
  | cons first rest ih =>
    rw [lookaheads, tokensAt, ofTokens]
    rw [tokensAt, List.find?_cons] at anew
    rw [tokensAt, breakAfter] at broken
    split
    case isTrue significant =>
      have here : (tokenAt position' first).kind.isSignificant = true := significant
      rw [here] at anew
      obtain ⟨other, noAngle⟩ := anew _ rfl
      exact ⟨rfl, other, fun symbol angle => noAngle ⟨symbol, angle⟩⟩
    case isFalse insignificant =>
      have here : (tokenAt position' first).kind.isSignificant = false :=
        Bool.eq_false_iff.mpr insignificant
      rw [here] at anew
      rw [if_neg insignificant] at broken
      exact ih anew broken

end Grammar

namespace Parse

variable {config : Config} {front back : String}

/-- A text without significant tokens has no statements. -/
theorem run_of_total (none : total (leavesOf (lexemes config back)) = 0) :
    run config back = beginning config back := by
  have length := (stands_beginning config back).length
  rw [map_leaf_tokensAt, none] at length
  exact @run_eq_of_ended _ _ 0 (fun k earlier => absurd earlier (Nat.not_lt_zero k))
    (List.eq_nil_of_length_eq_zero length)

/-- Lexemes begin with insignificant ones, up to a significant one. -/
theorem exists_opens (lexemes : List Lexeme) :
    ∃ skip rest, lexemes = skip ++ rest ∧ total (leavesOf skip) = 0 ∧ Opens (leavesOf rest) := by
  obtain ⟨skip, rest, split, skipped_eq, unskipped_eq⟩ :=
    List.map_eq_append_iff.mp (skipped_append_unskipped (leavesOf lexemes)).symm
  refine ⟨skip, rest, split, ?_, ?_⟩
  · rw [leavesOf, skipped_eq, total_skipped]
  · rw [leavesOf, unskipped_eq]
    exact opens_unskipped _

/-- Lines in front of a text, about which nothing is reported, and which the text does not go on
with. -/
structure Lines (config : Config) (front back : String) : Prop where
  clean : (ofText config front).diagnostics.items = []
  ends : front.toList.getLast? = some '\n'
  stops : ∀ c, back.toList.head? = some c → CharClass.isBlank c = false
  anew : ∀ token, (scan back config.operatorLimit).1.find? (·.kind.isSignificant) = some token →
    token.kind ≠ .elseWord ∧ ¬ (token.kind = .symbol ∧ token.text = "<")

namespace Lines

/-- What is ahead after the lines. -/
def rest (config : Config) (front back : String) : List Lookahead :=
  lookaheads true (Position.start.after front.toList) (lexemes config back)

theorem lexemes_eq (lines : Lines config front back) :
    lexemes config (front ++ back) = lexemes config front ++ lexemes config back := by
  rw [lexemes, String.toList_append]
  exact lexemes_lines (sound_lexemes lines.clean) lines.ends lines.stops

theorem prolonged (lines : Lines config front back) :
    Prolonged (rest config front back) (beginning config front)
      (beginning config (front ++ back)) := by
  obtain ⟨ahead, -, reports, pieces, -⟩ := programStart_eq front.utf8ByteSize
    (Scanner.between_ofText front config.operatorLimit) rfl
  obtain ⟨ahead', finish', reports', pieces', -⟩ := programStart_eq (front ++ back).utf8ByteSize
    (Scanner.between_ofText (front ++ back) config.operatorLimit) rfl
  have split : tokensAt .start (lexemes config (front ++ back)) =
      tokensAt .start (lexemes config front) ++
        tokensAt (Position.start.after front.toList) (lexemes config back) := by
    rw [lines.lexemes_eq, tokensAt_append, charsOf_lexemes]
  have broken : breakAfter false (tokensAt .start (lexemes config front)) = true :=
    breakAfter_lexemes .start (sound_lexemes lines.clean) lines.ends
  have starts : StartsAnew
      ((rest config front back).headD (beginning config (front ++ back)).finish) := by
    refine @startsAnew_lookaheads _ _ .start _ (fun token found => lines.anew token ?_) ?_ ?_
    · rw [scan_eq, List.find?_append, found, Option.some_or]
    · rw [beginning, finish']
      rfl
    · rw [beginning, finish', ← broken, ← breakAfter_append, ← split]
      rfl
  refine ⟨proper_beginning config front, ?_, starts, rfl, rfl, rfl, reports'.trans reports.symm⟩
  rw [beginning, ahead', beginning, ahead, rest, ← broken]
  change ofTokens false (tokensAt .start (lexemes config (front ++ back))) = _
  rw [split, ofTokens_append]
  rfl

/-- The lines are read in the same way in front of the text as alone. -/
theorem prolonged_upTo (lines : Lines config front back) {count : Nat}
    (within : count ≤ (run config front).outline.length) :
    Prolonged (rest config front back) (upTo config front count)
      (upTo config (front ++ back) count) := by
  obtain ⟨clean, -⟩ := clean_run lines.clean
  obtain ⟨more, split⟩ := Nat.exists_eq_add_of_le within
  have same := (run_eq config front).1
  rw [split, upTo_add] at same
  rw [same] at clean
  exact prolonged_statements lines.prolonged (clean.of_runs (runs_statements more _))

/-- After the lines the text is still to be read. -/
theorem prolonged_run (lines : Lines config front back) :
    Prolonged (rest config front back) (run config front)
      (upTo config (front ++ back) (run config front).outline.length) := by
  have prolonged := lines.prolonged_upTo (Nat.le_refl _)
  rwa [← (run_eq config front).1] at prolonged

theorem inside (lines : Lines config front back) {k : Nat}
    (earlier : k < (run config front).outline.length) :
    (upTo config (front ++ back) k).ahead ≠ [] := by
  rw [(lines.prolonged_upTo (Nat.le_of_lt earlier)).ahead]
  exact List.append_ne_nil_of_left_ne_nil ((run_eq config front).2 k earlier) _

theorem outline_upTo (lines : Lines config front back) :
    (upTo config (front ++ back) (run config front).outline.length).outline =
      (run config front).outline := State.outline_congr lines.prolonged_run.pieces

theorem reports_upTo (lines : Lines config front back) :
    (upTo config (front ++ back) (run config front).outline.length).reports = .empty := by
  have none : (run config front).reports.items = [] := (clean_run lines.clean).1.reports
  rw [lines.prolonged_run.reports, Diagnostics.empty, ← none]

theorem ahead_upTo (lines : Lines config front back) :
    (upTo config (front ++ back) (run config front).outline.length).ahead =
      rest config front back := by
  rw [lines.prolonged_run.ahead, ahead_run, List.nil_append]

/-- What comes after the lines is read as it is read alone. -/
theorem follows (lines : Lines config front back) :
    (run config (front ++ back)).outline =
        (run config front).outline ++ (run config back).outline ∧
      ∃ log, (run config back).reports = (beginning config back).reports.extend log ∧
        (run config (front ++ back)).reports = (beginning config (front ++ back)).reports.extend
          (log.map (carried (· + front.utf8ByteSize))) := by
  have ahead := lines.ahead_upTo
  have length : (rest config front back).length = total (leavesOf (lexemes config back)) :=
    length_lookaheads _ _ _
  rcases Nat.eq_zero_or_pos (total (leavesOf (lexemes config back))) with none | some
  · have same := run_of_total none
    rw [none] at length
    have whole := run_eq_of_ended (fun k earlier => lines.inside earlier)
      (ahead.trans (List.eq_nil_of_length_eq_zero length))
    refine ⟨?_, [], congrArg State.reports same, ?_⟩
    · rw [whole, lines.outline_upTo, same, outline_beginning, List.append_nil]
    · rw [whole, lines.reports_upTo, reports_beginning]
      rfl
  obtain ⟨skip, others, split, skips, opens⟩ := exists_opens (lexemes config back)
  rw [split, leavesOf_append, total_append, skips, Nat.zero_add] at some length
  -- the first statement of the text begins in the same way in both parses
  have seam : Seam config back skip others [] (run config back).outline :=
    ⟨split, rfl, skips.symm, .inl opens⟩
  have whole : lexemes config (front ++ back) = lexemes config front ++ skip ++ others := by
    rw [lines.lexemes_eq, split, List.append_assoc]
  obtain ⟨after, seam', -⟩ := exists_seam_of_length whole opens
    (ahead ▸ List.length_pos_iff.mp (length ▸ some)) ((congrArg List.length ahead).trans length)
  rw [lines.outline_upTo] at seam'
  have left : (upTo config back ([] : List Outline).length).ahead ≠ [] := by
    rw [← List.length_pos_iff, seam.stands.length, map_leaf_tokensAt]
    exact some
  obtain ⟨rfl, logged⟩ := seam.follows seam' left
  obtain ⟨log, log', made, made', related⟩ := logged trivial
  obtain ⟨rfl, behind⟩ := eq_map_carried related
  refine ⟨seam'.outline, log, made, ?_⟩
  rw [made', lines.reports_upTo, reports_beginning]
  refine congrArg _ (List.map_congr_left fun d member => ?_)
  have reached := behind d member
  have ordered := (inside_of_log made d member).1
  have size : Text.byteLength (charsOf (lexemes config front ++ skip)) =
      front.utf8ByteSize + Text.byteLength (charsOf skip) := by
    rw [charsOf_append, Text.byteLength_append, charsOf_lexemes, Text.byteLength_toList]
  rw [carried, carried, size, shifted, shifted]
  refine congrArg (fun span => { d with span }) (congrArg₂ Span.mk ?_ ?_) <;> omega

end Lines

/-- No node that is read without a report is empty. -/
theorem solid_run (clean : (ofText config front).diagnostics.items = []) :
    ∀ outline ∈ (run config front).outline, outline.Solid := by
  obtain ⟨-, phrases, -, -, derived, -, -, outline, -⟩ := exists_phrases clean
  rw [outline, Phrase.outlineAll_eq]
  intro outline member
  obtain ⟨phrase, within, rfl⟩ := List.mem_map.mp member
  exact (derived phrase within).solid

theorem items_carried (count : Nat) (list : List Diagnostic) :
    (Diagnostics.ofList (list.map (carried (· + count)))).items =
      (Diagnostics.ofList list).items.map (carried (· + count)) := by
  refine Diagnostics.items_ofList_map (fun d _ e _ => ?_) fun d _ e _ => ?_
  · rw [Bool.eq_iff_iff, Diagnostic.sameProblem_iff, Diagnostic.sameProblem_iff]
    obtain ⟨severity, code, message, start, stop⟩ := d
    obtain ⟨severity', code', message', start', stop'⟩ := e
    simp only [carried, Span.mk.injEq, Nat.add_right_cancel_iff]
  · have shifted (a b : Nat) : Ord.compare (a + count) (b + count) = Ord.compare a b := by
      rw [Nat.compare_eq_ite_lt, Nat.compare_eq_ite_lt]
      simp only [Nat.add_lt_add_iff_right]
    simp only [Diagnostic.compare, Span.compare, carried, shifted]

/-- A text may be parsed in parts. -/
theorem ofText_append (clean : (ofText config front).diagnostics.items = [])
    (ends : front.toList.getLast? = some '\n')
    (begins : ∀ c, back.toList.head? = some c → CharClass.isBlank c = false)
    (anew : ∀ token, (scan back config.operatorLimit).1.find? (·.kind.isSignificant) = some token →
      token.kind ≠ .elseWord ∧ ¬ (token.kind = .symbol ∧ token.text = "<")) :
    (ofText config (front ++ back)).tree.children =
        (ofText config front).tree.children ++ (ofText config back).tree.children ∧
      (ofText config (front ++ back)).diagnostics.items =
        (ofText config back).diagnostics.items.map fun d =>
          { d with span := ⟨d.span.start + front.utf8ByteSize, d.span.stop + front.utf8ByteSize⟩ } := by
  have lines : Lines config front back := ⟨clean, ends, begins, anew⟩
  obtain ⟨outline, log, made, made'⟩ := lines.follows
  have size : (Position.start.after front.toList).offset = front.utf8ByteSize := by
    rw [Position.offset_after_start, Text.byteLength_toList]
  refine ⟨?_, ?_⟩
  · rw [tree_ofText, tree_ofText, tree_ofText, Tree.children, Tree.children, Tree.children,
      lines.lexemes_eq, leavesOf_append, outline]
    exact plant_append (.inr (solid_run clean)) countAll_run _
  · have faults : faultsAt .start (lexemes config (front ++ back)) =
        (faultsAt .start (lexemes config back)).map (carried (· + front.utf8ByteSize)) := by
      rw [lines.lexemes_eq, faultsAt_append, faultsAt_eq_nil.mpr (sound_lexemes clean),
        charsOf_lexemes, List.nil_append]
      refine faultsAt_carried fun x _ _ => ?_
      rw [size, Nat.add_comm]
      rfl
    rw [diagnostics_of_log made', diagnostics_of_log made, faults, ← List.map_append]
    exact items_carried _ _

/-- A binding, and a closing parenthesis on the next line. -/
theorem ofText_append_stray :
    (ofText ⟨3, .standard, 8⟩ "let a = 1\n").diagnostics.items = [] ∧
      (ofText ⟨3, .standard, 8⟩ ("let a = 1\n" ++ ") b")).tree.children =
        (ofText ⟨3, .standard, 8⟩ "let a = 1\n").tree.children ++
          (ofText ⟨3, .standard, 8⟩ ") b").tree.children ∧
      (ofText ⟨3, .standard, 8⟩ ("let a = 1\n" ++ ") b")).diagnostics.items =
        (ofText ⟨3, .standard, 8⟩ ") b").diagnostics.items.map fun d =>
          { d with span := ⟨d.span.start + 10, d.span.stop + 10⟩ } := by
  have clean : (ofText ⟨3, .standard, 8⟩ "let a = 1\n").diagnostics.items = [] := by
    decide +kernel
  have first : (scan ") b" 3).1.find? (·.kind.isSignificant) = some ⟨.rightParen, ")", .start⟩ := by
    decide +kernel
  refine ⟨clean, ofText_append clean (by decide) (fun c head => ?_) fun token found => ?_⟩
  · rw [← Option.some.inj head]
    decide
  · rw [← Option.some.inj (first.symm.trans found)]
    decide

end Parse

end LosslessSyntax
