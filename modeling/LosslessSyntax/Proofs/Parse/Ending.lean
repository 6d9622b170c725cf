import LosslessSyntax.Proofs.Grammar.Reporting
import LosslessSyntax.Proofs.Parse.Seams

/-! # How a parse reports the end of the text

A text that ends too early is reported as incomplete once (`incomplete_unique`), by the scanner if
the last lexeme is left open and else by the grammar. The report reaches up to the end of the text
(`stop_of_incomplete`).
-/

namespace LosslessSyntax

namespace Lexeme

theorem fault_of_mem {position : Position} {lexeme : Lexeme} {d : Diagnostic}
    (member : d ∈ faultAt position lexeme) :
    ∃ fault, lexeme.fault? = some fault ∧ d = fault.diagnostic (tokenAt position lexeme).span := by
  obtain ⟨fault, found, rfl⟩ := List.mem_map.mp member
  exact ⟨fault, Option.mem_toList.mp found, rfl⟩

/-- What is wrong with a lexeme is wrong with all of it. -/
theorem span_of_mem_faultAt {position : Position} {lexeme : Lexeme} {d : Diagnostic}
    (member : d ∈ faultAt position lexeme) : d.span = (tokenAt position lexeme).span := by
  obtain ⟨fault, -, rfl⟩ := fault_of_mem member
  cases fault <;> rfl

/-- Faults that are incomplete are about the end of a construct. -/
theorem unterminated_of_incomplete {fault : LexicalFault} {span : Span}
    (incomplete : (fault.diagnostic span).kind = .incomplete) :
    fault = .unterminatedString ∨ fault = .unterminatedComment := by
  cases fault with
  | unexpectedCharacter => exact nomatch incomplete
  | missingName => exact nomatch incomplete
  | unterminatedString => exact .inl rfl
  | unterminatedComment => exact .inr rfl

/-- A lexeme that is incomplete is the last one. -/
theorem incomplete_faultsAt {limit : Nat} {text : List Char} {position : Position} {d : Diagnostic}
    (member : d ∈ faultsAt position (lexemes limit text)) (incomplete : d.kind = .incomplete) :
    ∃ front last, lexemes limit text = front ++ [last] ∧
      d ∈ faultAt (position.after (charsOf front)) last := by
  fun_induction lexemes limit text generalizing position with
  | case1 => cases member
  | case2 c rest ih =>
    rcases List.mem_append.mp member with here | later
    · obtain ⟨fault, found, rfl⟩ := fault_of_mem here
      have nothing := rest_of_unterminated found (unterminated_of_incomplete incomplete)
      refine ⟨[], (readNormal limit c rest).bare, ?_, here⟩
      rw [nothing, lexemes_nil]
      rfl
    · obtain ⟨front, last, split, wrong⟩ := ih later
      refine ⟨(readNormal limit c rest).bare :: front, last, ?_, ?_⟩
      · rw [split, List.cons_append]
      · rwa [charsOf_cons, Position.after_append]

/-- It ends where the text does. -/
theorem stop_of_incomplete_fault {limit : Nat} {text : List Char} {position : Position}
    {d : Diagnostic} (member : d ∈ faultsAt position (lexemes limit text))
    (incomplete : d.kind = .incomplete) :
    d.span.stop = position.offset + Text.byteLength text := by
  obtain ⟨front, last, split, wrong⟩ := incomplete_faultsAt member incomplete
  have whole := congrArg charsOf split
  rw [charsOf_lexemes, charsOf_append, charsOf_cons, charsOf_nil, List.append_nil] at whole
  rw [span_of_mem_faultAt wrong, Token.span, stop_tokenAt, Position.offset_after, whole,
    Text.byteLength_append, Nat.add_assoc]

/-- No other lexeme is incomplete. -/
theorem incomplete_fault_unique {limit : Nat} {text : List Char} {position : Position}
    {d e : Diagnostic} (member : d ∈ faultsAt position (lexemes limit text))
    (member' : e ∈ faultsAt position (lexemes limit text)) (incomplete : d.kind = .incomplete)
    (incomplete' : e.kind = .incomplete) : d = e := by
  obtain ⟨front, last, split, wrong⟩ := incomplete_faultsAt member incomplete
  obtain ⟨front', last', split', wrong'⟩ := incomplete_faultsAt member' incomplete'
  obtain ⟨rfl, same⟩ := List.append_inj' (split.symm.trans split') rfl
  obtain rfl := List.singleton_inj.mp same
  obtain ⟨fault, found, rfl⟩ := fault_of_mem wrong
  obtain ⟨fault', found', rfl⟩ := fault_of_mem wrong'
  rw [Option.some.inj (found.symm.trans found')]

end Lexeme

namespace Grammar.Reporting

theorem statements (config : Config) (room count : Nat) (s : State) :
    Reporting s (Grammar.statements config room count s) := by
  induction count generalizing s with
  | zero => exact .refl s
  | succ count ih => exact (item config room s).trans (ih _)

end Grammar.Reporting

namespace Parse

open Lexeme Grammar

variable {config : Config} {text : String}

theorem reporting_run (config : Config) (text : String) :
    Reporting (beginning config text) (run config text) := by
  rw [(run_eq config text).1]
  exact .statements config config.maxDepth _ _

/-- The reports of the grammar are made by it. -/
theorem made_run {d : Diagnostic} (member : d ∈ (run config text).reports.items) :
    Made (beginning config text) (run config text) d := by
  apply ((reporting_run config text).made d member).resolve_left
  intro before
  rw [reports_beginning] at before
  exact absurd before List.not_mem_nil

/-- The grammar reports the end only if the scanner has not, and at the end. -/
theorem ending_run {d : Diagnostic} (member : d ∈ (run config text).reports.items)
    (incomplete : d.kind = .incomplete) :
    d.code = .unexpectedEnd ∧ d.span = .empty text.utf8ByteSize ∧
      (beginning config text).endReported = false := by
  have made := made_run member
  have code := made.code_of_incomplete incomplete
  obtain ⟨fresh, -, place⟩ := made.ending code
  refine ⟨code, ?_, fresh⟩
  rcases place with finish | ⟨a, ahead, kind⟩
  · have ended : (ending (.ofText text config.operatorLimit)).token.start = text.utf8ByteSize :=
      start_ending_ofText text config.operatorLimit
    obtain ⟨-, here, -⟩ := programStart_eq text.utf8ByteSize
      (Scanner.between_ofText text config.operatorLimit) rfl
    rw [finish, beginning, here, Token.span, Span.empty, ended]
    congr 1
  · exact absurd kind ((proper_beginning config text).inside a ahead)

theorem mem_diagnostics {d : Diagnostic} (member : d ∈ (ofText config text).diagnostics.items) :
    d ∈ (run config text).reports.items ∨ d ∈ faultsAt .start (lexemes config text) := by
  rw [diagnostics_ofText] at member
  exact (Diagnostics.mem_extend.mp member).imp_right fun added => added.2.mem

theorem ordered_diagnostics (config : Config) (text : String) :
    (ofText config text).diagnostics.Ordered := by
  rw [diagnostics_ofText]
  exact (ordered_programRun config (fun _ => false) text.utf8ByteSize
    (Scanner.between_ofText text config.operatorLimit) rfl).extend _

/-- Whatever is incomplete reaches up to the end of the text. -/
theorem stop_of_incomplete {d : Diagnostic} (member : d ∈ (ofText config text).diagnostics.items)
    (incomplete : d.kind = .incomplete) : d.span.stop = text.utf8ByteSize := by
  rcases mem_diagnostics member with reported | wrong
  · rw [(ending_run reported incomplete).2.1]
    rfl
  · rw [stop_of_incomplete_fault wrong incomplete, Text.byteLength_toList]
    exact Nat.zero_add _

/-- If a lexeme is incomplete, the end has been reported before the grammar comes to it. -/
theorem endReported_of_fault {d : Diagnostic} (wrong : d ∈ faultsAt .start (lexemes config text))
    (incomplete : d.kind = .incomplete) : (beginning config text).endReported = true := by
  have stop := stop_of_incomplete_fault wrong incomplete
  rw [Text.byteLength_toList] at stop
  rw [endReported_beginning, List.any_eq_true]
  refine ⟨d, wrong, ?_⟩
  rw [Bool.and_eq_true, beq_iff_eq, beq_iff_eq]
  exact ⟨incomplete, stop.trans (Nat.zero_add _)⟩

/-- A text is reported as incomplete at most once. -/
theorem incomplete_unique {d e : Diagnostic} (member : d ∈ (ofText config text).diagnostics.items)
    (member' : e ∈ (ofText config text).diagnostics.items) (incomplete : d.kind = .incomplete)
    (incomplete' : e.kind = .incomplete) : d = e := by
  rcases mem_diagnostics member with reported | wrong
  · obtain ⟨code, span, fresh⟩ := ending_run reported incomplete
    rcases mem_diagnostics member' with reported' | wrong'
    · obtain ⟨code', span', -⟩ := ending_run reported' incomplete'
      apply (ordered_diagnostics config text).eq_of_sameProblem member member'
      exact Diagnostic.sameProblem_iff.mpr ⟨span.trans span'.symm, code.trans code'.symm⟩
    · exact absurd (endReported_of_fault wrong' incomplete') (Bool.eq_false_iff.mp fresh)
  · rcases mem_diagnostics member' with reported' | wrong'
    · have fresh := (ending_run reported' incomplete').2.2
      exact absurd (endReported_of_fault wrong incomplete) (Bool.eq_false_iff.mp fresh)
    · exact incomplete_fault_unique wrong wrong' incomplete incomplete'

/-- If the grammar has been told of the end, or tells of it, the text is reported as incomplete. -/
theorem exists_incomplete (known : (run config text).endReported = true) :
    ∃ d ∈ (ofText config text).diagnostics.items, d.kind = .incomplete := by
  rw [diagnostics_ofText]
  rcases (reporting_run config text).ended with same | ⟨⟨d, member, code⟩, -⟩
  · rw [same, endReported_beginning] at known
    obtain ⟨d, wrong, test⟩ := List.any_eq_true.mp known
    obtain ⟨e, member, -, code⟩ :=
      Diagnostics.exists_mem_extend (run config text).reports wrong
    refine ⟨e, member, ?_⟩
    rw [Diagnostic.kind, code]
    exact beq_iff_eq.mp (Bool.and_eq_true_iff.mp test).1
  · refine ⟨d, Diagnostics.mem_extend_of_mem _ member, ?_⟩
    rw [Diagnostic.kind, code]
    rfl

end Parse

end LosslessSyntax
