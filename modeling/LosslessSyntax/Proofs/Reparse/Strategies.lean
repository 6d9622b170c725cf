import LosslessSyntax.Proofs.Reparse.BlockDiagnostics
import LosslessSyntax.Proofs.Reparse.LeafDiagnostics
import LosslessSyntax.Reparse.Basic

/-! # How a reparse was carried out

A reparse succeeds exactly if its edit applies (`reparse_eq_error_iff`), and its strategy says where
its tree and its diagnostics come from (`Reparsed`). Changing a leaf and parsing some statements
again give the diagnostics of the new text (`reparse_diagnostics_exact`). So does parsing one block
again, but for what is reported at its opening brace (`block_reparse_diagnostics`).
-/

namespace LosslessSyntax.Parse

/-- Where the result of a reparse of `old` comes from. -/
inductive Reparsed (old : Parse) (edit : TextEdit) (newText : String) :
    Strategy → Reparse.Result → Prop
  /-- One leaf was changed. -/
  | leaf {result : Reparse.Result} (offset : Nat) :
    Reparse.changeLeafAt? old edit newText offset = some result →
      Reparsed old edit newText .leaf result
  /-- One block was parsed again. -/
  | block {result : Reparse.Result} :
    Reparse.changeBlock? old edit newText = some result → Reparsed old edit newText .block result
  /-- Some statements were parsed again. -/
  | segment {result : Reparse.Result} :
    Reparse.changeSegment? old edit newText = some result →
      Reparsed old edit newText .segment result

variable {config : Config} {edit : TextEdit} {old new : Parse} {strategy : Strategy}

/-- A change short of a full parse is one of the three. -/
theorem reparsed_of_change? {newText : String} {result : Reparse.Result}
    (changed : old.change? edit newText = some (strategy, result)) :
    Reparsed old edit newText strategy result := by
  simp only [change?, Option.or_eq_some_iff, Option.map_eq_some_iff, Option.map_eq_none_iff] at changed
  rcases changed with ⟨found, change, same⟩ | ⟨-, ⟨found, change, same⟩ | ⟨-, found, change, same⟩⟩
  all_goals
    obtain ⟨rfl, rfl⟩ := Prod.mk.inj same
  · obtain ⟨offset, -, change⟩ := List.exists_of_findSome?_eq_some change
    exact .leaf offset change
  · exact .block change
  · exact .segment change

theorem reparse_of_error {fault : Failure} (failed : edit.apply old.text = .error fault) :
    old.reparse config edit = .error fault := by
  rw [reparse, failed]
  rfl

theorem reparse_of_ok {newText : String} (applied : edit.apply old.text = .ok newText) :
    old.reparse config edit =
      match if config = old.config then old.change? edit newText else none with
      | some (strategy, result) =>
        .ok (⟨newText, result.tree, result.diagnostics, config⟩, strategy)
      | none => .ok (ofText config newText, .full) := by
  rw [reparse, applied]
  rfl

/-- A reparse that succeeds is a full parse of the new text, or a change of a parse with the same
configuration. -/
theorem reparse_eq_ok (reparsed : old.reparse config edit = .ok (new, strategy)) :
    ∃ newText, edit.apply old.text = .ok newText ∧
      (new = ofText config newText ∧ strategy = .full ∨
        ∃ result, config = old.config ∧ Reparsed old edit newText strategy result ∧
          new = ⟨newText, result.tree, result.diagnostics, config⟩) := by
  cases applied : edit.apply old.text with
  | error fault =>
    rw [reparse_of_error applied] at reparsed
    exact nomatch reparsed
  | ok newText =>
    rw [reparse_of_ok applied] at reparsed
    refine ⟨newText, rfl, ?_⟩
    split at reparsed
    case h_1 found strategy' result changed =>
      obtain ⟨rfl, rfl⟩ := Prod.mk.inj (Except.ok.inj reparsed)
      split at changed
      case isTrue same => exact .inr ⟨result, same, reparsed_of_change? changed, rfl⟩
      case isFalse => exact nomatch changed
    case h_2 =>
      obtain ⟨rfl, rfl⟩ := Prod.mk.inj (Except.ok.inj reparsed)
      exact .inl ⟨rfl, rfl⟩

/-- A reparse fails exactly if its edit does not apply. -/
theorem reparse_eq_error_iff {fault : Failure} :
    old.reparse config edit = .error fault ↔ edit.fault? old.text = some fault := by
  rw [← TextEdit.apply_eq_error_iff]
  cases applied : edit.apply old.text with
  | error other => rw [reparse_of_error applied, Except.error.injEq, Except.error.injEq]
  | ok newText =>
    rw [reparse_of_ok applied]
    refine iff_of_false (fun failed => ?_) (fun failed => nomatch failed)
    split at failed <;> exact nomatch failed

@[simp] theorem config_ofText (config : Config) (text : String) :
    (ofText config text).config = config := rfl

@[simp] theorem text_ofText (config : Config) (text : String) :
    (ofText config text).text = text := rfl

/-- Changing one leaf of the parse of a text, and parsing some of its statements again, give the
diagnostics of the new text, if that is small enough for the places to be stored. -/
theorem reparse_diagnostics_exact {text : String}
    (reparsed : (ofText config text).reparse config edit = .ok (new, strategy))
    (cheap : strategy = .leaf ∨ strategy = .segment)
    (small : new.text.utf8ByteSize < 0x100000000) :
    new.diagnostics = (ofText config new.text).diagnostics := by
  generalize old_eq : ofText config text = old at reparsed
  have fresh : old = ofText old.config old.text := by
    rw [← old_eq, config_ofText, text_ofText]
  obtain ⟨newText, applied, ⟨rfl, -⟩ | ⟨result, rfl, change, rfl⟩⟩ := reparse_eq_ok reparsed
  · rw [text_ofText]
  · cases change with
    | leaf offset change => exact Reparse.diagnostics_of_changeLeafAt? fresh applied small change
    | block change => exact absurd cheap (by decide)
    | segment change => exact Reparse.diagnostics_of_changeSegment? fresh applied small change

theorem exists_of_toOption_map {ε α β : Type} {x : Except ε α} {view : α → β} {b : β}
    (seen : x.toOption.map view = some b) : ∃ a, x = .ok a ∧ view a = b := by
  cases x with
  | error => exact nomatch seen
  | ok a => exact ⟨a, rfl, Option.some.inj seen⟩

/-- A statement without its `=` keeps its report when a line is inserted two statements later. -/
theorem reparse_diagnostics_exact_behind_report :
    ∃ new, (ofText ⟨3, .empty, 4⟩ "let a\nb\nc").reparse ⟨3, .empty, 4⟩ ⟨8, 0, "d\n"⟩ =
        .ok (new, .segment) ∧
      new.diagnostics.items.map (·.span) = [⟨5, 5⟩] ∧
      new.diagnostics = (ofText ⟨3, .empty, 4⟩ new.text).diagnostics := by
  have seen : ((ofText ⟨3, .empty, 4⟩ "let a\nb\nc").reparse ⟨3, .empty, 4⟩
      ⟨8, 0, "d\n"⟩).toOption.map
        (fun found => (found.2, found.1.diagnostics.items.map (·.span), found.1.text)) =
      some (.segment, [⟨5, 5⟩], "let a\nb\nd\nc") := by
    decide +kernel
  obtain ⟨⟨new, strategy⟩, reparsed, view⟩ := exists_of_toOption_map seen
  obtain ⟨rfl, spans, text⟩ : strategy = .segment ∧
      new.diagnostics.items.map (·.span) = [⟨5, 5⟩] ∧ new.text = "let a\nb\nd\nc" := by
    simpa only [Prod.mk.injEq] using view
  refine ⟨new, reparsed, spans, reparse_diagnostics_exact reparsed (.inr rfl) ?_⟩
  rw [text]
  decide

/-- Parsing one block again gives the diagnostics of the new text that are not about the opening brace
of the block, and loses all that are. -/
theorem block_reparse_diagnostics {text : String}
    (reparsed : (ofText config text).reparse config edit = .ok (new, .block))
    (small : new.text.utf8ByteSize < 0x100000000) :
    ∃ found, Reparse.enclosing? edit 0 0 (ofText config text).tree = some found ∧
      new.diagnostics.items = (ofText config new.text).diagnostics.items.filter fun d =>
        d.span ≠ ⟨found.start, found.start + 1⟩ := by
  generalize old_eq : ofText config text = old at reparsed
  have fresh : old = ofText old.config old.text := by
    rw [← old_eq, config_ofText, text_ofText]
  obtain ⟨newText, applied, ⟨-, full⟩ | ⟨result, rfl, change, rfl⟩⟩ := reparse_eq_ok reparsed
  · exact nomatch full
  · cases change with
    | block change => exact Reparse.diagnostics_of_changeBlock? fresh applied small change

/-- Before a block stand a statement without its `=` and an `if` without its condition, and behind it a
parenthesis too many. When another one is typed inside, only the report on the condition is lost. -/
theorem block_reparse_diagnostics_beside_reports :
    ∃ new found, (ofText ⟨3, .empty, 4⟩ "let a\nif \x7b b \x7d\n)").reparse ⟨3, .empty, 4⟩
        ⟨10, 0, "c ) "⟩ = .ok (new, .block) ∧
      Reparse.enclosing? ⟨10, 0, "c ) "⟩ 0 0
        (ofText ⟨3, .empty, 4⟩ "let a\nif \x7b b \x7d\n)").tree = some found ∧
      (ofText ⟨3, .empty, 4⟩ new.text).diagnostics.items.map (·.span) =
        [⟨5, 5⟩, ⟨9, 10⟩, ⟨12, 13⟩, ⟨19, 20⟩] ∧
      new.diagnostics.items.map (·.span) = [⟨5, 5⟩, ⟨12, 13⟩, ⟨19, 20⟩] ∧
      new.diagnostics.items = (ofText ⟨3, .empty, 4⟩ new.text).diagnostics.items.filter fun d =>
        d.span ≠ ⟨found.start, found.start + 1⟩ := by
  have seen : ((ofText ⟨3, .empty, 4⟩ "let a\nif \x7b b \x7d\n)").reparse ⟨3, .empty, 4⟩
      ⟨10, 0, "c ) "⟩).toOption.map
        (fun found => (found.2, found.1.text,
          (ofText ⟨3, .empty, 4⟩ found.1.text).diagnostics.items.map (·.span),
          found.1.diagnostics.items.map (·.span))) =
      some (.block, "let a\nif \x7bc )  b \x7d\n)", [⟨5, 5⟩, ⟨9, 10⟩, ⟨12, 13⟩, ⟨19, 20⟩],
        [⟨5, 5⟩, ⟨12, 13⟩, ⟨19, 20⟩]) := by
    decide +kernel
  obtain ⟨⟨new, strategy⟩, reparsed, view⟩ := exists_of_toOption_map seen
  obtain ⟨rfl, text, fresh, kept⟩ : strategy = .block ∧
      new.text = "let a\nif \x7bc )  b \x7d\n)" ∧
      (ofText ⟨3, .empty, 4⟩ new.text).diagnostics.items.map (·.span) =
        [⟨5, 5⟩, ⟨9, 10⟩, ⟨12, 13⟩, ⟨19, 20⟩] ∧
      new.diagnostics.items.map (·.span) = [⟨5, 5⟩, ⟨12, 13⟩, ⟨19, 20⟩] := by
    simpa only [Prod.mk.injEq] using view
  obtain ⟨found, search, exact⟩ := block_reparse_diagnostics reparsed (by rw [text]; decide)
  exact ⟨new, found, reparsed, search, fresh, kept, exact⟩

/-- Parsing one block again can lose a report: what is missing before the block is reported at its
opening brace, which counts as inside the block. -/
theorem block_reparse_loses_report :
    ∃ new, (ofText ⟨3, .empty, 4⟩ "if \x7b \x7d").reparse ⟨3, .empty, 4⟩ ⟨4, 0, "a"⟩ =
        .ok (new, .block) ∧
      new.diagnostics.items = [] ∧
      (ofText ⟨3, .empty, 4⟩ new.text).diagnostics.items.map (·.text) =
        ["error[P001]: expected expression, found `\x7b` at 3..4"] := by
  have seen : ((ofText ⟨3, .empty, 4⟩ "if \x7b \x7d").reparse ⟨3, .empty, 4⟩
      ⟨4, 0, "a"⟩).toOption.map
        (fun found => (found.2, found.1.diagnostics.items,
          (ofText ⟨3, .empty, 4⟩ found.1.text).diagnostics.items.map (·.text))) =
      some (.block, [], ["error[P001]: expected expression, found `\x7b` at 3..4"]) := by
    decide +kernel
  obtain ⟨⟨new, strategy⟩, reparsed, view⟩ := exists_of_toOption_map seen
  obtain ⟨rfl, none, lost⟩ : strategy = .block ∧ new.diagnostics.items = [] ∧
      (ofText ⟨3, .empty, 4⟩ new.text).diagnostics.items.map (·.text) =
        ["error[P001]: expected expression, found `\x7b` at 3..4"] := by
    simpa only [Prod.mk.injEq] using view
  exact ⟨new, reparsed, none, lost⟩

end LosslessSyntax.Parse
