import LosslessSyntax.Proofs.Grammar.Opening

/-! # What is left without a statement

Annotations may come before something with which no statement begins, or at the end of the text.
They become an error node then. It holds nodes and no tokens, and unless the end of the text has
been reported before, something is reported there (`leftover_of_error`).
-/

namespace LosslessSyntax.Grammar

open State

/-- Only nodes have been added to the innermost open node. -/
def Adds (s s' : State) : Prop :=
  ∃ nodes, s'.outline = s.outline ++ nodes ∧ ∀ outline ∈ nodes, outline ≠ .token

namespace Adds

variable {s s' s'' : State}

theorem of_pieces (same : s'.pieces = s.pieces) : Adds s s' :=
  ⟨[], by rw [outline_congr same, List.append_nil], nofun⟩

theorem trans (first : Adds s s') (second : Adds s' s'') : Adds s s'' := by
  obtain ⟨nodes, outline, only⟩ := first
  obtain ⟨more, outline', only'⟩ := second
  refine ⟨nodes ++ more, by rw [outline', outline, List.append_assoc], fun outline member => ?_⟩
  exact (List.mem_append.mp member).elim (only outline) (only' outline)

theorem closeNode (kind : NodeKind) (s s' : State) : Adds s (closeNode s kind s') := by
  refine ⟨[.node kind s'.outline], outline_closeNode s s' kind, fun _ member => ?_⟩
  rw [List.mem_singleton.mp member]
  exact nofun

theorem unexpected (expected : String) (s : State) : Adds s (s.unexpected expected) :=
  of_pieces (pieces_unexpected expected s)

theorem recover (expected : String) (recovery : KindSet) (s : State) :
    Adds s (s.recover expected recovery) := by
  simp only [State.recover]
  split
  · exact unexpected expected s
  · exact (unexpected expected s).trans (closeNode .error _ _)

theorem annotations (s : State) : Adds s (annotations s) := by
  refine repeatStep_invariant (motive := Adds s) (fun s' here => here.trans ?_) s (of_pieces rfl)
  split
  · exact closeNode .annotationUse _ _
  · exact of_pieces rfl

theorem statementEnd (s : State) : Adds s (statementEnd s) := by
  simp only [Grammar.statementEnd]
  split
  · exact of_pieces rfl
  split
  · exact unexpected _ s
  · exact recover _ _ s

theorem outline_ne_nil (adds : Adds s s') (some : s.outline ≠ []) : s'.outline ≠ [] := by
  obtain ⟨nodes, outline, -⟩ := adds
  rw [outline]
  exact List.append_ne_nil_of_left_ne_nil some nodes

end Adds

variable {s s' : State}

/-- Annotations are nodes, if there are any. -/
theorem outline_annotations_ne_nil (here : s.isAt .annotationMark = true) :
    (annotations s).outline ≠ [] := by
  have first : (annotationUse s).outline ≠ [] := by
    rw [annotationUse, node, outline_closeNode]
    exact List.append_ne_nil_of_right_ne_nil _ (List.cons_ne_nil _ _)
  rw [annotations, repeatStep.eq_1]
  simp only [here, ↓reduceIte, true_and]
  split
  · exact (Adds.annotations _).outline_ne_nil first
  · exact first

/-- A token that is not expected is reported. -/
theorem exists_unexpected (expected : String) (inside : s.atEnd = false) :
    ∃ d ∈ (s.unexpected expected).reports.items,
      d.code = .unexpectedToken ∧ d.span = s.current.token.span := by
  have made : (s.unexpected expected).reports = s.reports.push
      (.error .unexpectedToken (expectation expected s.kind) s.current.token.span) := by
    simp only [State.unexpected, State.report, inside, Bool.false_and, Bool.false_eq_true,
      ↓reduceIte]
  obtain ⟨d, member, span, code⟩ := Diagnostics.exists_mem_push s.reports
    (.error .unexpectedToken (expectation expected s.kind) s.current.token.span)
  exact ⟨d, made ▸ member, code, span⟩

/-- After a report at the end, the end has been reported. -/
theorem endReported_unexpected (expected : String) (ended : s.atEnd = true) :
    (s.unexpected expected).endReported = true := by
  simp only [State.unexpected, State.report, ended, Bool.true_and]
  split
  case isTrue known => exact known
  case isFalse => exact Bool.or_true _

/-- At the end nothing is skipped. -/
theorem recover_of_atEnd (expected : String) (recovery : KindSet) (ended : s.atEnd = true) :
    s.recover expected recovery = s.unexpected expected := by
  have atEnd : (s.unexpected expected).atEnd = true := (atEnd_report ..).trans ended
  simp only [State.recover, atEnd, ↓reduceIte]

theorem runs_recover (expected : String) (recovery : KindSet) (s : State) :
    Runs (s.unexpected expected) (s.recover expected recovery) := by
  simp only [State.recover]
  split
  · exact .refl _
  · exact .of_coupled (.node .error (by decide) (.during .recovering (.skipToSync recovery))) _

variable {inner : ConstructRule} {block : State → State} {config : Config}

/-- What a statement without a body does: it reports, or reports and skips. -/
theorem statementBody_of_error (error : (statementBody config inner block s).1 = .error) :
    (atStatementStart config s = true → s.isAt .annotationMark = true) ∧
      ((statementBody config inner block s).2 = s.unexpected "statement" ∨
        (statementBody config inner block s).2 = s.recover "statement" .empty) := by
  revert error
  rw [statementBody]
  split
  case h_13 =>
    split
    · rintro ⟨⟩
    case isFalse noExpr =>
    refine fun _ => ⟨fun starts => ?_, ?_⟩
    · have word := (Bool.or_eq_true_iff.mp starts).resolve_right noExpr
      simp_all [isAtAny, isAt, statementKinds, KindSet.contains, KindSet.ofList]
    · split
      · exact .inl rfl
      · exact .inr rfl
  all_goals rintro ⟨⟩

/-- Something is left over in the node that a state is in: nodes and no tokens, and this has been
reported or comes at the end, which has been reported. -/
structure Leftover (s : State) : Prop where
  some : s.outline ≠ []
  nodes : ∀ outline ∈ s.outline, outline ≠ .token
  told : (∃ d ∈ s.reports.items, d.code = .unexpectedToken) ∨
    s.atEnd = true ∧ s.endReported = true

/-- Annotations before something that is no statement are left over. -/
theorem leftover_of_error (fresh : s.pieces = []) (starts : atStatementStart config s = true)
    (error : (statementNode config inner block s).1 = .error) :
    Leftover (statementNode config inner block s).2 := by
  change (statementBody config inner block (annotations s)).1 = .error at error
  change Leftover (statementEnd (statementBody config inner block (annotations s)).2)
  have fresh : s.outline = [] := (@outline_congr s s.openNode fresh).trans (outline_openNode s)
  obtain ⟨mark, body⟩ := statementBody_of_error error
  have marked : s.isAt .annotationMark = true := by
    cases here : s.isAt .annotationMark with
    | true => rfl
    | false =>
      rw [annotations_of_none here] at mark
      exact here.symm.trans (mark starts)
  have some := outline_annotations_ne_nil marked
  have before := Adds.annotations s
  generalize annotations s = t at body some before ⊢
  generalize (statementBody config inner block t).2 = t' at body ⊢
  have adds : Adds t t' := by
    rcases body with rfl | rfl
    · exact .unexpected _ t
    · exact .recover _ _ t
  have run : Runs (t.unexpected "statement") t' := by
    rcases body with rfl | rfl
    · exact .refl _
    · exact runs_recover _ _ t
  obtain ⟨nodes, outline, only⟩ := before.trans (adds.trans (.statementEnd t'))
  rw [fresh, List.nil_append] at outline
  refine ⟨(adds.trans (.statementEnd t')).outline_ne_nil some, outline ▸ only, ?_⟩
  cases ended : t.atEnd with
  | false =>
    obtain ⟨d, member, code, -⟩ := exists_unexpected "statement" ended
    have run' := run.trans (.of_coupled Coupling.coupled_statementEnd t')
    exact .inl ⟨d, run'.kept d member, code⟩
  | true =>
    have stays : t' = t.unexpected "statement" := by
      rcases body with rfl | rfl
      · rfl
      · exact recover_of_atEnd _ _ ended
    have atEnd : t'.atEnd = true := by
      rw [stays]
      exact (atEnd_report ..).trans ended
    have ends : t'.atStatementEnd = true := by
      have kind : t'.kind = .eof := beq_iff_eq.mp atEnd
      have member : syncKinds.contains .eof = true := by decide
      rw [atStatementEnd, isAtAny, kind, member, Bool.true_or]
    rw [statementEnd, if_pos ends]
    exact .inr ⟨atEnd, stays ▸ endReported_unexpected "statement" ended⟩

end LosslessSyntax.Grammar
