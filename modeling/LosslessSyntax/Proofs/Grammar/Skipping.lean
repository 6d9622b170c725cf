import LosslessSyntax.Proofs.Grammar.Leftover
import LosslessSyntax.Proofs.Grammar.Reporting

/-! # What recovery skips

Recovery consumes tokens one after the other and puts nothing else into its node (`Passes`). How far
it goes is limited by how the brackets among the tokens match: `Covered` says that on every
beginning of some kinds those that close outnumber those that open by no more than the groups that
were open before. A group waits for a closing token of its own, so skipping to a token at which a
rule can go on never takes more closing braces than opening ones (`exists_skipToSync`). What nests
too deeply is only counted, so there any closing token stands for any other (`exists_recoverTooDeep`).
-/

namespace LosslessSyntax.Grammar

open State

/-- On every beginning of some kinds, those that close are no more than those that open and a number
of groups that are open before. -/
def Covered (closes opens : TokenKind → Bool) (level : Nat) (kinds : List TokenKind) : Prop :=
  ∀ front, front <+: kinds → front.countP closes ≤ front.countP opens + level

namespace Covered

variable {closes opens : TokenKind → Bool} {level level' : Nat} {kinds kinds' : List TokenKind}

theorem nil : Covered closes opens level [] := by
  intro front start
  rw [List.prefix_nil.mp start]
  exact Nat.zero_le _

theorem cons {kind : TokenKind}
    (here : level' + (if closes kind then 1 else 0) ≤ level + if opens kind then 1 else 0)
    (rest : Covered closes opens level' kinds) : Covered closes opens level (kind :: kinds) := by
  intro front start
  cases front with
  | nil => exact Nat.zero_le _
  | cons first front =>
    obtain ⟨rfl, start'⟩ := List.cons_prefix_cons.mp start
    have := rest front start'
    rw [List.countP_cons, List.countP_cons]
    omega

theorem single {kind : TokenKind}
    (here : (if closes kind then 1 else 0) ≤ level + if opens kind then 1 else 0) :
    Covered closes opens level [kind] :=
  cons (by rwa [Nat.zero_add]) (@nil closes opens 0)

theorem append (first : Covered closes opens 0 kinds) (second : Covered closes opens 0 kinds') :
    Covered closes opens 0 (kinds ++ kinds') := by
  rintro front ⟨back, split⟩
  rcases List.append_eq_append_iff.mp split with ⟨more, rfl, -⟩ | ⟨more, rfl, rfl⟩
  · exact first front ⟨more, rfl⟩
  · have := first kinds List.prefix_rfl
    have := second more ⟨back, rfl⟩
    rw [List.countP_append, List.countP_append]
    omega

/-- Only the kinds that open or close matter. -/
theorem mono {closes' opens' : TokenKind → Bool} (covered : Covered closes opens level kinds)
    (fewer : ∀ kind, closes' kind = true → closes kind = true)
    (more : ∀ kind, opens kind = true → opens' kind = true) : Covered closes' opens' level kinds := by
  intro front start
  have := covered front start
  have := List.countP_mono_left (l := front) fun kind _ => fewer kind
  have := List.countP_mono_left (l := front) fun kind _ => more kind
  omega

end Covered

/-- Closing braces among some kinds never outnumber the opening ones before them. -/
abbrev Braced (kinds : List TokenKind) : Prop :=
  Covered (· == .rightBrace) (· == .leftBrace) 0 kinds

/-- Closing tokens among some kinds never outnumber the opening ones before them. -/
abbrev Bracketed (kinds : List TokenKind) : Prop :=
  Covered TokenKind.isCloser (·.closer?.isSome) 0 kinds

/-- How many braces a kind adds to those that are waited for, and which it is then. -/
theorem count_closer {kind closer : TokenKind} (opens : kind.closer? = some closer) :
    kind ≠ .rightBrace ∧ (closer = .rightBrace ↔ kind = .leftBrace) := by
  cases kind <;> simp_all [TokenKind.closer?] <;> subst opens <;> decide

/-- Closing a group closes one brace at least if a brace closes it. -/
theorem count_dropWhile {expected : List TokenKind} {kind : TokenKind} (member : kind ∈ expected) :
    ((expected.dropWhile (· != kind)).drop 1).count .rightBrace +
      (if kind == .rightBrace then 1 else 0) ≤ expected.count .rightBrace := by
  induction expected with
  | nil => exact absurd member List.not_mem_nil
  | cons first rest ih =>
    by_cases here : first = kind
    · subst here
      simp [List.count_cons]
    · have later := ih ((List.mem_cons.mp member).resolve_left (Ne.symm here))
      rw [List.dropWhile_cons_of_pos (by simpa using here), List.count_cons]
      omega

/-- In a group closing braces are matched by opening ones, or by those that are waited for. -/
theorem covered_group (expected : List TokenKind) (ahead : List Lookahead) :
    Covered (· == .rightBrace) (· == .leftBrace) (expected.count .rightBrace)
      ((ahead.take (groupLength expected ahead)).map (·.kind)) := by
  induction ahead generalizing expected with
  | nil => exact .nil
  | cons next rest ih =>
    rw [groupLength]
    split
    · exact .nil
    cases opens : next.kind.closer? with
    | some closer =>
      obtain ⟨other, brace⟩ := count_closer opens
      refine .cons ?_ (ih (closer :: expected))
      rw [List.count_cons]
      simp [other, brace]
    | none =>
      dsimp only
      split
      case isTrue member =>
        have closed := count_dropWhile (List.contains_iff_mem.mp member)
        exact .cons (Nat.le_trans closed (Nat.le_add_right _ _)) (ih _)
      split
      · exact .nil
      case isFalse other =>
        refine .cons ?_ (ih expected)
        rw [if_neg other]
        omega

theorem braced_unit {ahead : List Lookahead}
    (plain : ∀ next, ahead.head? = some next → next.kind ≠ .rightBrace) :
    Braced ((ahead.take (unitLength ahead)).map (·.kind)) := by
  cases ahead with
  | nil => exact .nil
  | cons next rest =>
    have other := plain next rfl
    rw [unitLength]
    split
    case h_1 closer opens =>
      refine .cons ?_ (covered_group [closer] rest)
      simp [other, (count_closer opens).2, List.count_cons]
    · refine .single ?_
      simp [other]

/-- What nests too deeply is as many closing tokens as opening ones, or as groups are open. -/
theorem covered_deep (ends : Lookahead → Bool) (level : Nat) (consumed : Bool)
    (ahead : List Lookahead) :
    Covered TokenKind.isCloser (·.closer?.isSome) level
      ((ahead.take (deepLength ends level consumed ahead)).map (·.kind)) := by
  induction ahead generalizing level consumed with
  | nil => exact .nil
  | cons next rest ih =>
    rw [deepLength.eq_def]
    dsimp only
    split
    case isTrue closes =>
      split
      · exact .nil
      · exact .single (by simp [closes])
      case h_3 outer _ =>
        refine .cons ?_ (ih outer consumed)
        simp [closes]
    case isFalse closes =>
    split
    case isTrue opens =>
      refine .cons ?_ (ih (level + 1) true)
      simp [closes, opens]
    split
    · exact .nil
    · refine .cons ?_ (ih level true)
      simp [closes]

/-- A run consumes some tokens one after the other, into the node that is open. -/
structure Passes (s s' : State) (passed : List Lookahead) : Prop where
  ahead : s.ahead = passed ++ s'.ahead
  outline : s'.outline = s.outline ++ List.replicate passed.length .token
  reports : s'.reports = s.reports
  ended : s'.endReported = s.endReported

namespace Passes

variable {s s' s'' : State} {passed more : List Lookahead}

theorem refl (s : State) : Passes s s [] :=
  ⟨rfl, (List.append_nil _).symm, rfl, rfl⟩

theorem trans (first : Passes s s' passed) (second : Passes s' s'' more) :
    Passes s s'' (passed ++ more) where
  ahead := by rw [first.ahead, second.ahead, List.append_assoc]
  outline := by
    rw [second.outline, first.outline, List.length_append, List.replicate_add, List.append_assoc]
  reports := second.reports.trans first.reports
  ended := second.ended.trans first.ended

theorem bump (s : State) : Passes s s.bump (s.ahead.take 1) := by
  cases ahead : s.ahead with
  | nil =>
    have stays : s.bump = s := by rw [State.bump, ahead]
    rw [stays]
    exact refl s
  | cons next rest =>
    refine ⟨?_, ?_, ?_, ?_⟩
    · rw [ahead_bump, ahead]
      rfl
    · rw [outline_bump, if_neg (by rw [ahead]; exact List.cons_ne_nil next rest)]
      rfl
    · simp only [State.bump, ahead]
    · simp only [State.bump, ahead]

theorem bumpMany (count : Nat) (s : State) : Passes s (s.bumpMany count) (s.ahead.take count) := by
  induction count generalizing s with
  | zero => exact refl s
  | succ count ih =>
    have both := (bump s).trans (ih s.bump)
    rw [ahead_bump, ← List.drop_one, ← List.take_add, Nat.add_comm] at both
    exact both

theorem within {phase : Phase} (passes : Passes { s with phases := phase :: s.phases } s' passed) :
    Passes s { s' with phases := s'.phases.tail } passed :=
  ⟨passes.ahead, passes.outline, passes.reports, passes.ended⟩

end Passes

variable {s : State}

theorem exists_skipUnit (s : State) :
    ∃ passed, Passes s s.skipUnit passed ∧ (s.ahead ≠ [] → passed ≠ []) ∧
      (s.isAt .rightBrace = false → Braced (passed.map (·.kind))) := by
  refine ⟨_, .bumpMany (unitLength s.ahead) s, fun some none => ?_, fun plain => braced_unit ?_⟩
  · obtain ⟨next, rest, ahead⟩ := List.exists_cons_of_ne_nil some
    rw [ahead, unitLength] at none
    split at none <;> simp at none
  · intro next head brace
    obtain ⟨rest, ahead⟩ := List.head?_eq_some_iff.mp head
    have kind : s.kind = .rightBrace :=
      (congrArg Lookahead.kind (current_of_ahead ahead)).trans brace
    rw [isAt, kind] at plain
    exact absurd plain (by decide)

/-- A closing brace ends recovery. -/
theorem not_atBrace {recovery : KindSet} (goes : ¬ s.atSync recovery = true) :
    s.isAt .rightBrace = false := by
  refine Bool.eq_false_iff.mpr fun brace => goes ?_
  have kind : s.current.kind = .rightBrace := beq_iff_eq.mp brace
  have member : syncKinds.contains .rightBrace = true := by decide
  simp only [atSync, endsRecovery, kind, member, Bool.or_true, Bool.true_or]

/-- Skipping takes a token at least, and unless the first is a closing brace it takes no closing
brace without the opening one. -/
theorem exists_skipToSync (recovery : KindSet) (some : s.ahead ≠ []) :
    ∃ passed, Passes s (s.skipToSync recovery) passed ∧ passed ≠ [] ∧
      (s.isAt .rightBrace = false → Braced (passed.map (·.kind))) := by
  obtain ⟨first, passes, more, braced⟩ := exists_skipUnit s
  refine repeatStep_invariant (motive := fun s' => ∃ passed, Passes s s' passed ∧ passed ≠ [] ∧
    (s.isAt .rightBrace = false → Braced (passed.map (·.kind)))) (fun s' here => ?_) s.skipUnit
    ⟨first, passes, more some, braced⟩
  obtain ⟨passed, passes, some, braced⟩ := here
  split
  · exact ⟨passed, passes, some, braced⟩
  case isFalse goes =>
    obtain ⟨unit, passes', -, braced'⟩ := exists_skipUnit s'
    refine ⟨passed ++ unit, passes.trans passes', List.append_ne_nil_of_left_ne_nil some unit, ?_⟩
    intro plain
    rw [List.map_append]
    exact (braced plain).append (braced' (not_atBrace goes))

/-- The error node of what is skipped holds the tokens of some groups, the first of which is the
reported one. -/
theorem exists_recover (expected : String) (recovery : KindSet) (inside : s.atEnd = false)
    (some : s.ahead ≠ []) :
    ∃ passed, passed ≠ [] ∧ s.ahead = passed ++ (s.recover expected recovery).ahead ∧
      (s.recover expected recovery).outline =
        s.outline ++ [.node .error (List.replicate passed.length .token)] ∧
      (s.recover expected recovery).reports = (s.unexpected expected).reports ∧
      (s.isAt .rightBrace = false → Braced (passed.map (·.kind))) := by
  have ahead : (s.unexpected expected).ahead = s.ahead := ahead_report ..
  have kind : (s.unexpected expected).kind = s.kind := kind_report ..
  have inside' : ¬ (s.unexpected expected).atEnd = true :=
    Bool.eq_false_iff.mp ((atEnd_report ..).trans inside)
  obtain ⟨passed, passes, more, braced⟩ := @exists_skipToSync
    { (s.unexpected expected).openNode with
      phases := .recovering :: (s.unexpected expected).openNode.phases } recovery (ahead ▸ some)
  refine ⟨passed, more, ?_, ?_, ?_, fun plain => braced ?_⟩
  all_goals simp only [State.recover, if_neg inside']
  · exact ahead.symm.trans passes.ahead
  · rw [node, outline_closeNode, outline_congr (pieces_unexpected expected s)]
    have outline := passes.within.outline
    rw [outline_openNode, List.nil_append] at outline
    exact congrArg (fun inner => s.outline ++ [Outline.node .error inner]) outline
  · exact passes.reports
  · exact (congrArg (· == TokenKind.rightBrace) kind).trans plain

/-- The error node of what nests too deeply holds tokens of which no more close than open. -/
theorem exists_recoverTooDeep (limit : Nat) (inside : s.atEnd = false) :
    ∃ passed, s.ahead = passed ++ (s.recoverTooDeep limit).ahead ∧
      (s.recoverTooDeep limit).outline =
        s.outline ++ [.node .error (List.replicate passed.length .token)] ∧
      (∃ d ∈ (s.recoverTooDeep limit).reports.items,
        d.code = .nestingTooDeep ∧ d.span = s.current.token.span) ∧
      Bracketed (passed.map (·.kind)) := by
  have inside' : ¬ s.atEnd = true := Bool.eq_false_iff.mp inside
  let reported := s.report .nestingTooDeep (depthMessage limit) s.current.token.span
  have ahead : reported.ahead = s.ahead := ahead_report ..
  have passes := @Passes.within _ _ _ .recovering
    (.bumpMany (deepLength (reported.endsRecovery .empty) 0 false reported.ahead)
      { reported.openNode with phases := .recovering :: reported.openNode.phases })
  refine ⟨_, ?_, ?_, ?_, covered_deep (reported.endsRecovery .empty) 0 false reported.ahead⟩
  all_goals simp only [State.recoverTooDeep, if_neg inside']
  · exact ahead.symm.trans passes.ahead
  · rw [node, outline_closeNode, outline_congr (pieces_report ..)]
    have outline := passes.outline
    rw [outline_openNode, List.nil_append] at outline
    exact congrArg (fun inner => s.outline ++ [Outline.node .error inner]) outline
  · have made : reported.reports = s.reports.push
        (.error .nestingTooDeep (depthMessage limit) s.current.token.span) := by
      simp only [reported, State.report, inside, Bool.false_and, Bool.false_eq_true, ↓reduceIte]
    obtain ⟨d, member, span, code⟩ := Diagnostics.exists_mem_push s.reports
      (.error .nestingTooDeep (depthMessage limit) s.current.token.span)
    refine ⟨d, ?_, code, span⟩
    have same := passes.reports.trans made
    exact same ▸ member

end LosslessSyntax.Grammar
