import LosslessSyntax.Proofs.Parse.Lossless

/-! # Where a parse reports

The diagnostics of a text are those that the grammar logs and then what is wrong with its lexemes
(`diagnostics_of_log`). All of them are about whole characters of the text (`placed_of_mem`).
-/

namespace LosslessSyntax.Parse

open Lexeme Grammar

variable (config : Config) (text : String)

/-- The state before the first statement of a text. -/
def beginning : State :=
  programStart text.utf8ByteSize (.ofText text config.operatorLimit)

theorem reports_beginning : (beginning config text).reports = .empty :=
  (programStart_eq text.utf8ByteSize (Scanner.between_ofText text config.operatorLimit) rfl).2.2.1

theorem proper_beginning : (beginning config text).Proper :=
  proper_programStart text.utf8ByteSize (Scanner.between_ofText text config.operatorLimit) rfl

variable {config text}

/-- The diagnostics are those of any log that the grammar may have made, and then those of the
scanner. -/
theorem diagnostics_of_log {log : List Diagnostic}
    (made : (run config text).reports = (beginning config text).reports.extend log) :
    (ofText config text).diagnostics =
      .ofList (log ++ faultsAt .start (lexemes config text)) := by
  rw [diagnostics_ofText, made, reports_beginning, ← Diagnostics.ofList_extend]
  rfl

/-- Whether the scanner has reported the end of the text. -/
theorem endReported_beginning :
    (beginning config text).endReported =
      (faultsAt .start (lexemes config text)).any fun d =>
        d.kind == .incomplete && d.span.stop == text.utf8ByteSize := by
  have ended := (programStart_eq text.utf8ByteSize
    (Scanner.between_ofText text config.operatorLimit) rfl).2.2.2.2
  rw [beginning, ended]
  refine Diagnostics.any_ofList _ fun d e span code => ?_
  rw [Diagnostic.kind, Diagnostic.kind, span, code]

/-- A span within a text. -/
def Inside (text : String) (span : Span) : Prop :=
  span.start ≤ span.stop ∧ span.stop ≤ text.utf8ByteSize

/-- A span of whole characters of a text. -/
structure Placed (text : String) (span : Span) : Prop where
  ordered : span.start ≤ span.stop
  start : Text.isBoundary text span.start = true
  stop : Text.isBoundary text span.stop = true

theorem Placed.inside {span : Span} (placed : Placed text span) : Inside text span :=
  ⟨placed.ordered, TextEdit.le_of_isBoundary placed.stop⟩

theorem placed_empty {offset : Nat} (boundary : Text.isBoundary text offset = true) :
    Placed text (.empty offset) := ⟨Nat.le_refl offset, boundary, boundary⟩

theorem placed_of_mem_tokensAt {token : Token}
    (member : token ∈ tokensAt .start (lexemes config text)) :
    Placed text token.span ∧ Placed text (.empty token.start) ∧ Placed text (.empty token.stop) := by
  obtain ⟨front, target, back, split, rfl⟩ := exists_of_mem_tokensAt member
  have whole : text.toList = charsOf front ++ (target.chars ++ charsOf back) := by
    rw [← Parse.charsOf_lexemes config, split, charsOf_append, charsOf_cons]
  have place : (tokenAt (Position.start.after (charsOf front)) target).start =
      Text.byteLength (charsOf front) := Position.offset_after_start _
  have stop : (tokenAt (Position.start.after (charsOf front)) target).stop =
      Text.byteLength (charsOf front ++ target.chars) := by
    rw [stop_tokenAt, Position.offset_after_start, Text.byteLength_append]
  have starts : Text.isBoundary text (tokenAt _ target).start = true :=
    TextEdit.isBoundary_iff.mpr ⟨_, _, whole, place.symm⟩
  have stops : Text.isBoundary text (tokenAt _ target).stop = true :=
    TextEdit.isBoundary_iff.mpr ⟨_, _, whole.trans (List.append_assoc _ _ _).symm, stop.symm⟩
  exact ⟨⟨Nat.le_add_right _ _, starts, stops⟩, placed_empty starts, placed_empty stops⟩

/-- The diagnostics of a text are about whole characters of it. -/
theorem placed_of_mem {d : Diagnostic} (member : d ∈ (ofText config text).diagnostics.items) :
    Placed text d.span := by
  have proper := proper_beginning config text
  have last : Placed text (.empty (ending (.ofText text config.operatorLimit)).token.start) := by
    rw [start_ending_ofText]
    exact placed_empty (TextEdit.isBoundary_utf8ByteSize text)
  obtain ⟨ahead, finish, -⟩ := programStart_eq text.utf8ByteSize
    (Scanner.between_ofText text config.operatorLimit) rfl
  have abreast : Abreast (.within (Placed text)) [] [] (beginning config text)
      (beginning config text) := by
    apply abreast_fresh proper rfl
    · intro a member
      exact placed_of_mem_tokensAt (Lookahead.mem_ofTokens (ahead ▸ member)).1
    · rw [beginning, finish]
      exact ⟨last, last⟩
  obtain ⟨count, same, -⟩ := @items_eq_statements (endsProgram fun _ => false) _ config
    config.maxDepth proper (endsProgram_of_atEnd fun _ => false)
  obtain ⟨log, made, placed⟩ := @exists_log_statements _ _ _ _ _ abreast count (Nat.zero_le _)
  rw [← same] at made
  rw [diagnostics_of_log made] at member
  rcases List.mem_append.mp (Diagnostics.mem_ofList.mp member).mem with member | member
  · exact placed d member
  · obtain ⟨token, member, span⟩ := mem_faultsAt member
    rw [span]
    exact (placed_of_mem_tokensAt member).1

/-- The diagnostics of a text lie within it. -/
theorem span_of_mem {d : Diagnostic} (member : d ∈ (ofText config text).diagnostics.items) :
    Inside text d.span := (placed_of_mem member).inside

/-- Wherever something is logged or wrong with a lexeme, something is reported. -/
theorem exists_reported {log : List Diagnostic}
    (made : (run config text).reports = (beginning config text).reports.extend log) :
    ∀ d ∈ log ++ faultsAt .start (lexemes config text),
      ∃ e ∈ (ofText config text).diagnostics.items, e.span = d.span := by
  intro d member
  obtain ⟨e, reported, span, -⟩ := Diagnostics.exists_mem_extend .empty member
  rw [diagnostics_of_log made]
  exact ⟨e, reported, span⟩

/-- The diagnostics that the grammar logs for a text lie within it. -/
theorem inside_of_log {log : List Diagnostic}
    (made : (run config text).reports = (beginning config text).reports.extend log) :
    ∀ d ∈ log, Inside text d.span := by
  intro d member
  obtain ⟨e, reported, span⟩ := exists_reported made d (List.mem_append_left _ member)
  exact span ▸ span_of_mem reported

end LosslessSyntax.Parse
