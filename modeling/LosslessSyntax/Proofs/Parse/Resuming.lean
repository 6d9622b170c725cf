import LosslessSyntax.Proofs.Parse.Seams

/-! # Parsing from a seam on

A parse of the text from a seam on does what the parse of the whole text does there
(`Seam.alone`). It comes to the end with the rest of the outlines (`Seam.alone_ended`), or it
halts at another seam (`Seam.alone_halted`).
-/

namespace LosslessSyntax.Parse

open Lexeme Leaf Outline Grammar Lookahead

/-- The scanner that begins behind some lexemes of a text. -/
def scannerAt (config : Config) (text : String) (front : List Lexeme) : Scanner :=
  .resume text (Text.byteLength (charsOf front)) .normal config.operatorLimit

/-- The state before the first statement behind some lexemes of a text. -/
def alone (config : Config) (text : String) (front : List Lexeme) : State :=
  programStart text.utf8ByteSize (scannerAt config text front)

namespace Seam

variable {config : Config} {text : String} {front back : List Lexeme} {before after : List Outline}
  (seam : Seam config text front back before after)
include seam

theorem scannerAt_eq : scannerAt config text front =
    ⟨charsOf back, Position.start.after (charsOf front), .normal, config.operatorLimit, false,
      .empty⟩ :=
  Scanner.resume_of_append seam.chars config.operatorLimit

theorem between : (scannerAt config text front).Between := by
  rw [seam.scannerAt_eq]
  exact ⟨rfl, .inl rfl⟩

theorem fresh : (scannerAt config text front).diagnostics = .empty := by rw [seam.scannerAt_eq]

theorem position_scannerAt :
    (scannerAt config text front).position = Position.start.after (charsOf front) := by
  rw [seam.scannerAt_eq]

theorem ahead_scannerAt : (scannerAt config text front).ahead = back := by
  rw [seam.scannerAt_eq]
  exact lexemes_back seam.lexemes

theorem stands_alone :
    Stands (alone config text front) (tokensAt (Position.start.after (charsOf front)) back)
      text.utf8ByteSize := by
  have stands := stands_programStart text.utf8ByteSize seam.between seam.fresh
  have rest : (scannerAt config text front).rest = charsOf back := by rw [seam.scannerAt_eq]
  rw [seam.ahead_scannerAt, seam.position_scannerAt, rest, Position.offset_after] at stands
  have size : Position.start.offset + Text.byteLength (charsOf front) +
      Text.byteLength (charsOf back) = text.utf8ByteSize := by
    rw [seam.size]
    exact congrArg (· + _) (Nat.zero_add _)
  rwa [size] at stands

theorem reports_alone : (alone config text front).reports = .empty :=
  (programStart_eq text.utf8ByteSize seam.between seam.fresh).2.2.1

theorem endReported_alone :
    (alone config text front).endReported =
      (faultsAt (Position.start.after (charsOf front)) back).any fun d =>
        d.kind == .incomplete && d.span.stop == text.utf8ByteSize := by
  have ended := (programStart_eq text.utf8ByteSize seam.between seam.fresh).2.2.2.2
  rw [seam.ahead_scannerAt, seam.position_scannerAt] at ended
  refine ended.trans (Diagnostics.any_ofList _ fun d e span code => ?_)
  rw [Diagnostic.kind, Diagnostic.kind, span, code]

/-- A parse from a seam on does what the parse of the whole text does there. -/
theorem onward {count : Nat}
    (inside : ∀ k < count,
      (statements config config.maxDepth k (alone config text front)).ahead ≠ []) :
    ∃ log,
      (upTo config text (before.length + count)).outline =
        before ++ (statements config config.maxDepth count (alone config text front)).outline ∧
      (statements config config.maxDepth count (alone config text front)).reports = .ofList log ∧
      (upTo config text (before.length + count)).reports =
        (upTo config text before.length).reports.extend log ∧
      (upTo config text (before.length + count)).ahead.length =
        (statements config config.maxDepth count (alone config text front)).ahead.length := by
  have lengths := seam.stands.length.trans seam.stands_alone.length.symm
  by_cases left : (alone config text front).ahead = []
  · have none : count = 0 := by
      by_contra some
      exact inside 0 (Nat.pos_of_ne_zero some) left
    subst none
    refine ⟨[], ?_, seam.reports_alone, rfl, lengths⟩
    rw [Nat.add_zero, seam.outline_before]
    exact (List.append_nil before).symm
  have left' : (upTo config text before.length).ahead ≠ [] := by
    rw [← ne_eq, ← List.length_pos_iff] at left
    rwa [← List.length_pos_iff, lengths]
  have known : ∀ lexeme ∈ back, lexeme.kind ≠ .eof := by
    intro lexeme member
    refine kind_ne_eof lexeme (show lexeme ∈ Parse.lexemes config text from ?_)
    rw [seam.lexemes]
    exact List.mem_append_right front member
  have abreast := seam.stands_alone.abreast seam.stands (L := .same) (alike_same known _) left rfl
    fun _ => seam.endReported_alone.trans (seam.endReported left').symm
  obtain ⟨added, first, second, -, logged, length⟩ := @keeps_onward _ _ _ config
    config.maxDepth _ seam.stands_alone.proper (proper_upTo config text _) left abreast inside
  obtain ⟨log, made, made'⟩ := logged.same
  have outline : (alone config text front).outline = [] := State.outline_openNode _
  rw [outline, List.nil_append] at first
  rw [seam.reports_alone] at made
  refine ⟨log, ?_, made, ?_, ?_⟩
  · rw [upTo_add, second, first, seam.outline_before]
  · rw [upTo_add, made']
  · rw [upTo_add, length]

variable {halts : Nat → Bool}

/-- A parse from a seam on reads some statements. -/
theorem exists_count (halts : Nat → Bool) : ∃ count,
    programRun config halts text.utf8ByteSize (scannerAt config text front) =
      statements config config.maxDepth count (alone config text front) ∧
    ∀ k < count, (statements config config.maxDepth k (alone config text front)).ahead ≠ [] := by
  obtain ⟨count, same, inside⟩ := @items_eq_statements (endsProgram halts) _ config
    config.maxDepth seam.stands_alone.proper (endsProgram_of_atEnd halts)
  exact ⟨count, same, fun k earlier => (inside k earlier).2⟩

theorem inside_onward {count : Nat}
    (inside : ∀ k < count,
      (statements config config.maxDepth k (alone config text front)).ahead ≠ []) :
    ∀ k < before.length + count, (upTo config text k).ahead ≠ [] := by
  intro k earlier
  rcases Nat.lt_or_ge k before.length with early | late
  · exact seam.run_eq.2.1 k early
  · obtain ⟨more, rfl⟩ := Nat.exists_eq_add_of_le late
    obtain ⟨-, -, -, -, same⟩ := @onward _ _ _ _ _ _ seam more
      fun k earlier => inside k (by omega)
    have some := inside more (by omega)
    rw [← List.length_pos_iff] at some ⊢
    rwa [same]

/-- A parse from a seam on that comes to the end has read the rest of the statements. -/
theorem alone_ended
    (ended : (programRun config halts text.utf8ByteSize (scannerAt config text front)).ahead = []) :
    (programRun config halts text.utf8ByteSize (scannerAt config text front)).outline = after ∧
    ∃ log,
      (programRun config halts text.utf8ByteSize (scannerAt config text front)).reports =
        .ofList log ∧
      (run config text).reports = (upTo config text before.length).reports.extend log := by
  obtain ⟨count, same, inside⟩ := seam.exists_count halts
  obtain ⟨log, outline, reports, reports', length⟩ := seam.onward inside
  rw [same] at ended ⊢
  rw [ended] at length
  have whole := run_eq_of_ended (seam.inside_onward inside) (List.eq_nil_of_length_eq_zero length)
  rw [← whole, seam.outline] at outline
  rw [← whole] at reports'
  exact ⟨(List.append_cancel_left outline).symm, log, reports, reports'⟩

/-- A parse from a seam on that halts has come to another seam. -/
theorem alone_halted {lexemes rest : List Lexeme} {target : Lexeme}
    (split : back = lexemes ++ target :: rest) (significant : target.kind.isSignificant = true)
    (halted : (programRun config halts text.utf8ByteSize (scannerAt config text front)).ahead.length =
      total (leavesOf (target :: rest))) :
    ∃ after' log,
      Seam config text (front ++ lexemes) (target :: rest)
        (before ++
          (programRun config halts text.utf8ByteSize (scannerAt config text front)).outline) after' ∧
      (programRun config halts text.utf8ByteSize (scannerAt config text front)).reports =
        .ofList log ∧
      (upTo config text (before ++ (programRun config halts text.utf8ByteSize
          (scannerAt config text front)).outline).length).reports =
        (upTo config text before.length).reports.extend log := by
  obtain ⟨count, same, inside⟩ := seam.exists_count halts
  obtain ⟨log, outline, reports, reports', length⟩ := seam.onward inside
  rw [same] at halted ⊢
  rw [halted] at length
  have significant' : target.leaf.isSignificant = true := significant
  have left : (upTo config text (before.length + count)).ahead ≠ [] := by
    rw [← List.length_pos_iff, length, total_leavesOf_cons significant]
    exact Nat.succ_pos _
  have lexemes_eq : Parse.lexemes config text = (front ++ lexemes) ++ target :: rest := by
    rw [seam.lexemes, split, List.append_assoc]
  obtain ⟨after', seam', count_eq⟩ :=
    exists_seam_of_length lexemes_eq (opens_cons significant') left length
  rw [outline] at seam' count_eq
  refine ⟨after', log, seam', reports, ?_⟩
  rw [count_eq, reports']

/-- What a parse from a seam on reports lies between the seam and the place to which it comes. -/
theorem amid_alone {lexemes tail : List Lexeme} {log : List Diagnostic}
    (split : back = lexemes ++ tail) (opens : Opens (leavesOf tail))
    (left : total (leavesOf tail) ≤
      (programRun config halts text.utf8ByteSize (scannerAt config text front)).ahead.length)
    (made : (programRun config halts text.utf8ByteSize (scannerAt config text front)).reports =
      .ofList log) :
    ∀ d ∈ log, Amid (Text.byteLength (charsOf front)) (Text.byteLength (charsOf (front ++ lexemes)))
      d.span := by
  subst split
  obtain ⟨count, same, inside⟩ := seam.exists_count halts
  rw [same] at left made
  by_cases some : (alone config text front).ahead = []
  · have none : count = 0 := by
      by_contra positive
      exact inside 0 (Nat.pos_of_ne_zero positive) some
    subst none
    change (alone config text front).reports = _ at made
    rw [seam.reports_alone] at made
    have empty := congrArg Diagnostics.items made.symm
    rw [Diagnostics.eq_nil_of_extend empty]
    exact fun _ member => nomatch member
  have place := Position.offset_after_start (charsOf front)
  obtain ⟨log', made', amid⟩ := exists_log_between seam.stands_alone
    (by rw [seam.size, place])
    (fun lexeme member => seam.solid lexeme (List.mem_append_right front member)) opens some left
  rw [seam.reports_alone] at made'
  rw [place, ← Text.byteLength_append, ← charsOf_append] at amid
  intro d member
  obtain ⟨e, reported, span, -⟩ := Diagnostics.exists_mem_extend .empty member
  change e ∈ (Diagnostics.ofList log).items at reported
  rw [← made, made'] at reported
  rw [← span]
  exact amid e (Diagnostics.mem_ofList.mp reported).mem

/-- What a parse reports from one seam to another lies between them. -/
theorem exists_log_to {lexemes tail : List Lexeme} {outlines remaining : List Outline}
    (split : back = lexemes ++ tail) (split' : after = outlines ++ remaining)
    (seam' : Seam config text (front ++ lexemes) tail (before ++ outlines) remaining) :
    ∃ log, (upTo config text (before ++ outlines).length).reports =
        (upTo config text before.length).reports.extend log ∧
      ∀ d ∈ log, Amid (Text.byteLength (charsOf front))
        (Text.byteLength (charsOf (front ++ lexemes))) d.span := by
  subst split split'
  rcases Nat.eq_zero_or_pos outlines.length with none | positive
  · rw [List.length_append, none]
    exact ⟨[], rfl, fun _ member => nomatch member⟩
  have some := seam.run_eq.2.2 0 (by
    rw [List.length_append]
    exact Nat.add_pos_left positive _)
  have place := Position.offset_after_start (charsOf front)
  have opens : Opens (leavesOf tail) := by
    refine seam'.opens.resolve_right fun none => ?_
    rw [(List.append_eq_nil_iff.mp none.2).2] at positive
    exact Nat.lt_irrefl 0 positive
  have left := seam'.stands.length
  rw [map_leaf_tokensAt, List.length_append, upTo_add] at left
  obtain ⟨log, made, amid⟩ := exists_log_between seam.stands (by rw [seam.size, place])
    (fun lexeme member => seam.solid lexeme (List.mem_append_right front member)) opens some
    (Nat.le_of_eq left.symm)
  rw [place, ← Text.byteLength_append, ← charsOf_append] at amid
  rw [List.length_append, upTo_add]
  exact ⟨log, made, amid⟩

end Seam

/-- What a parse from a seam on has read when it comes to the end or halts: the lexemes and the
statements up to another seam. -/
structure Stretch (config : Config) (halts : Nat → Bool) (text : String)
    (front lexemes tail : List Lexeme) (before outlines remaining : List Outline)
    (log : List Diagnostic) : Prop where
  seam : Seam config text (front ++ lexemes) tail (before ++ outlines) remaining
  tree :
    let outcome := runProgram config halts text.utf8ByteSize (.onDemand (scannerAt config text front))
    Tree.ofEvents outcome.tokens outcome.events = .node .root (plant (leavesOf lexemes) outlines)
  diagnostics :
    (runProgram config halts text.utf8ByteSize (.onDemand (scannerAt config text front))).diagnostics =
      .ofList (log ++ faultsAt (Position.start.after (charsOf front)) lexemes)
  reports : (upTo config text (before ++ outlines).length).reports =
    (upTo config text before.length).reports.extend log
  amid : ∀ d ∈ log, Amid (Text.byteLength (charsOf front))
    (Text.byteLength (charsOf (front ++ lexemes))) d.span
  stops :
    let halted :=
      (runProgram config halts text.utf8ByteSize (.onDemand (scannerAt config text front))).haltedAt
    halted = none ∧ tail = [] ∧ remaining = [] ∨
      halted = some (Text.byteLength (charsOf (front ++ lexemes))) ∧
        halts (Text.byteLength (charsOf (front ++ lexemes))) = true ∧
        ∃ target rest, tail = target :: rest ∧ target.kind.isSignificant = true

/-- A parse from a seam on reads a stretch of the text. -/
theorem Seam.exists_stretch {config : Config} {text : String} {front back : List Lexeme}
    {before after : List Outline} (seam : Seam config text front back before after)
    (halts : Nat → Bool) :
    ∃ lexemes tail outlines remaining log, back = lexemes ++ tail ∧
      Stretch config halts text front lexemes tail before outlines remaining log := by
  have proper := (proper_programStart text.utf8ByteSize seam.between seam.fresh).of_runs
    (runs_programRun config halts text.utf8ByteSize seam.between seam.fresh)
  have reports_eq {collection : Diagnostics} {log : List Diagnostic} (lexemes : List Lexeme)
      (made : collection = .ofList log) :
      collection.extend (faultsAt (Position.start.after (charsOf front)) lexemes) =
        .ofList (log ++ faultsAt (Position.start.after (charsOf front)) lexemes) := by
    rw [made, Diagnostics.ofList_extend]
  cases atEnd : (programRun config halts text.utf8ByteSize (scannerAt config text front)).atEnd with
  | true =>
    obtain ⟨halted, tree, diagnostics⟩ := runProgram_of_ended seam.between seam.fresh atEnd
    obtain ⟨outline, log, made, reports⟩ := seam.alone_ended (proper.atEnd_iff.mp atEnd)
    rw [seam.ahead_scannerAt, outline] at tree
    rw [seam.ahead_scannerAt, seam.position_scannerAt, reports_eq back made] at diagnostics
    have whole : run config text = upTo config text (before ++ after).length := by
      rw [← seam.outline]
      exact (Parse.run_eq config text).1
    have last := Seam.last config text
    rw [seam.lexemes, seam.outline] at last
    have amid := seam.amid_alone (List.append_nil back).symm opens_nil (Nat.zero_le _) made
    refine ⟨back, [], after, [], log, (List.append_nil back).symm, last, tree, diagnostics, ?_, amid,
      .inl ⟨halted, rfl, rfl⟩⟩
    rw [← whole, reports]
  | false =>
    obtain ⟨lexemes, target, rest, split, significant, ahead, halted, tree, diagnostics⟩ :=
      runProgram_of_halted seam.between seam.fresh atEnd
    rw [seam.ahead_scannerAt] at split
    have left : (programRun config halts text.utf8ByteSize (scannerAt config text front)).ahead.length =
        total (leavesOf (target :: rest)) := by
      rw [ahead, List.length_cons, length_lookaheads, total_leavesOf_cons significant]
    obtain ⟨remaining, log, seam', made, reports⟩ := seam.alone_halted split significant left
    rw [seam.position_scannerAt, reports_eq lexemes made] at diagnostics
    have place : ((scannerAt config text front).position.after (charsOf lexemes)).offset =
        Text.byteLength (charsOf (front ++ lexemes)) := by
      rw [seam.position_scannerAt, Position.offset_after, Position.offset_after, charsOf_append,
        Text.byteLength_append]
      exact congrArg (· + _) (Nat.zero_add _)
    have amid := seam.amid_alone split (opens_cons significant) (Nat.le_of_eq left.symm) made
    refine ⟨lexemes, target :: rest, _, remaining, log, split, seam', tree, diagnostics, reports, amid,
      .inr ⟨?_, ?_, target, rest, rfl, significant⟩⟩
    · rw [halted, place]
    · have stops := stop_items config config.maxDepth (endsProgram_of_atEnd halts)
        (proper_programStart text.utf8ByteSize seam.between seam.fresh)
      change endsProgram halts (programRun config halts _ _) = true at stops
      rw [endsProgram, atEnd, Bool.false_or, State.current_of_ahead ahead] at stops
      rw [← place]
      exact stops

end LosslessSyntax.Parse
