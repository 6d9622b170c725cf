import LosslessSyntax.Proofs.Grammar.Coupling

/-! # Every rule keeps to every coupling

One lemma for each rule of the grammar, by its composition from the steps that a coupling is closed
under. The rules for constructs and statements are coupled for two runs that need not use the same
rules one level further in. Blocks are the exception: a coupling may treat them in its own way, so
`coupled_block` asks for its closure under block nodes.
-/

namespace LosslessSyntax.Grammar

open State

/-- What holds before a loop and is preserved by its step holds after it, with what the last step
adds. -/
theorem repeatStep_induction {step : State → Bool × State} {motive final : State → Prop}
    (go : ∀ s, motive s → (step s).1 = true → (step s).2.ahead.length < s.ahead.length →
      motive (step s).2)
    (halt : ∀ s, motive s → ((step s).1 = true → s.ahead.length ≤ (step s).2.ahead.length) →
      final (step s).2)
    (s : State) (base : motive s) : final (s.repeatStep step) := by
  induction size : s.ahead.length using Nat.strongRecOn generalizing s with
  | _ n ih =>
    rw [State.repeatStep]
    split
    case isTrue continues =>
      exact ih _ (size ▸ continues.2) _ (go s base continues.1 continues.2) rfl
    case isFalse halts =>
      exact halt s base fun asked => Nat.le_of_not_lt fun shorter => halts ⟨asked, shorter⟩

theorem repeatStep_invariant {step : State → Bool × State} {motive : State → Prop}
    (each : ∀ s, motive s → motive (step s).2) (s : State) (base : motive s) :
    motive (s.repeatStep step) :=
  repeatStep_induction (fun s here _ _ => each s here) (fun s here _ => each s here) s base

namespace State

@[simp] theorem ahead_bump (s : State) : s.bump.ahead = s.ahead.tail := by
  unfold bump
  split <;> simp_all

@[simp] theorem breakModes_bump (s : State) : s.bump.breakModes = s.breakModes := by
  unfold bump
  split <;> rfl

theorem current_of_ahead {s : State} {next : Lookahead} {rest : List Lookahead}
    (ahead : s.ahead = next :: rest) : s.current = next := by
  simp only [current, ahead, List.headD_cons]

/-- Consumes tokens as long as a test, which remembers something, asks for it. -/
def skipping {α : Type} (advance : α → State → Option α) (memory : α) (s : State) : α × State :=
  if _ahead : s.ahead = [] then (memory, s)
  else
    match advance memory s with
    | none => (memory, s)
    | some memory => skipping advance memory s.bump
termination_by s.ahead.length
decreasing_by
  rw [ahead_bump, List.length_tail]
  have := List.length_pos_iff.mpr _ahead
  omega

theorem skipping_cons {α : Type} (advance : α → State → Option α) (memory : α) {s : State}
    (ahead : s.ahead ≠ []) :
    skipping advance memory s =
      match advance memory s with
      | none => (memory, s)
      | some memory => skipping advance memory s.bump := by
  rw [skipping, dif_neg ahead]

/-- Whether a group that is skipped goes on, and which closing tokens it waits for then. -/
def groupAdvance (expected : List TokenKind) (s : State) : Option (List TokenKind) :=
  if expected.isEmpty then none
  else
    match s.kind.closer? with
    | some closer => some (closer :: expected)
    | none =>
      if expected.contains s.kind then some ((expected.dropWhile (· != s.kind)).drop 1)
      else if s.kind == .rightBrace then none
      else some expected

theorem bumpMany_groupLength (expected : List TokenKind) (s : State) :
    s.bumpMany (groupLength expected s.ahead) = (skipping groupAdvance expected s).2 := by
  induction ahead : s.ahead generalizing s expected with
  | nil => rw [skipping, dif_pos ahead]; rfl
  | cons next rest ih =>
    have here : s.kind = next.kind := congrArg Lookahead.kind (current_of_ahead ahead)
    have onward (memory : List TokenKind) :
        s.bump.bumpMany (groupLength memory rest) = (skipping groupAdvance memory s.bump).2 :=
      ih memory s.bump (by rw [ahead_bump, ahead, List.tail_cons])
    rw [skipping_cons _ _ (by simp [ahead])]
    simp only [groupLength, groupAdvance, here]
    by_cases none : expected.isEmpty
    · simp only [none, ↓reduceIte]
      rfl
    simp only [if_neg none]
    cases next.kind.closer? with
    | some closer => exact onward _
    | none =>
      dsimp only
      by_cases closes : expected.contains next.kind
      · simp only [closes, ↓reduceIte]
        exact onward _
      simp only [if_neg closes]
      by_cases brace : next.kind == .rightBrace
      · simp only [brace, ↓reduceIte]
        rfl
      · simp only [if_neg brace]
        exact onward _

theorem skipUnit_eq (s : State) :
    s.skipUnit =
      match s.kind.closer? with
      | some closer => (skipping groupAdvance [closer] s.bump).2
      | none => s.bump := by
  rw [skipUnit]
  cases ahead : s.ahead with
  | nil =>
    have stays : s.bump = s := by rw [bump, ahead]
    rw [stays]
    cases s.kind.closer? with
    | none => rfl
    | some closer =>
      dsimp only
      rw [skipping, dif_pos ahead]
      rfl
  | cons next rest =>
    have here : s.kind = next.kind := congrArg Lookahead.kind (current_of_ahead ahead)
    rw [unitLength, here]
    cases next.kind.closer? with
    | none => rfl
    | some closer =>
      dsimp only
      rw [← bumpMany_groupLength, ahead_bump, ahead, List.tail_cons]
      rfl

/-- Whether what nests too deeply goes on: how many groups are open then and whether a token has
been passed, or nothing once its group is closed. -/
def deepAdvance : Option (Nat × Bool) → State → Option (Option (Nat × Bool))
  | none, _ => none
  | some (level, consumed), s =>
    if s.kind.isCloser then
      match level with
      | 0 => none
      | 1 => some none
      | outer + 1 => some (some (outer, consumed))
    else if s.kind.closer?.isSome then some (some (level + 1, true))
    else if level == 0 && consumed && s.atSync .empty then none
    else some (some (level, true))

theorem skipping_deep_none (s : State) : skipping deepAdvance none s = (none, s) := by
  rw [skipping]
  split <;> rfl

theorem bumpMany_deepLength (outer : State) (level : Nat) (consumed : Bool) (s : State)
    (modes : s.breakModes = outer.breakModes) :
    s.bumpMany (deepLength (outer.endsRecovery .empty) level consumed s.ahead) =
      (skipping deepAdvance (some (level, consumed)) s).2 := by
  induction ahead : s.ahead generalizing s level consumed with
  | nil => rw [skipping, dif_pos ahead]; rfl
  | cons next rest ih =>
    have here : s.kind = next.kind := congrArg Lookahead.kind (current_of_ahead ahead)
    have ends : s.atSync .empty = outer.endsRecovery .empty next := by
      simp only [atSync, current_of_ahead ahead, endsRecovery, modes]
    have onward (level : Nat) (consumed : Bool) :
        s.bump.bumpMany (deepLength (outer.endsRecovery .empty) level consumed rest) =
          (skipping deepAdvance (some (level, consumed)) s.bump).2 :=
      ih level consumed s.bump (by rw [breakModes_bump, modes])
        (by rw [ahead_bump, ahead, List.tail_cons])
    rw [skipping_cons _ _ (by simp [ahead])]
    simp only [deepLength, deepAdvance, here, ends]
    by_cases closes : next.kind.isCloser
    · simp only [closes, ↓reduceIte]
      rcases level with - | - | level
      · rfl
      · exact (congrArg Prod.snd (skipping_deep_none s.bump)).symm
      · exact onward _ _
    simp only [if_neg closes]
    by_cases opens : next.kind.closer?.isSome
    · simp only [opens, ↓reduceIte]
      exact onward _ _
    simp only [if_neg opens]
    by_cases stops : level == 0 && consumed && outer.endsRecovery .empty next
    · simp only [stops, ↓reduceIte]
      rfl
    · simp only [if_neg stops]
      exact onward _ _

theorem recoverTooDeep_eq (limit : Nat) (s : State) :
    s.recoverTooDeep limit =
      if s.atEnd then s.unexpected "nested construct"
      else
        (s.report .nestingTooDeep (depthMessage limit) s.current.token.span).node .error <|
          during .recovering fun s => (skipping deepAdvance (some (0, false)) s).2 := by
  have skip (s : State) : s.bumpMany (deepLength (s.endsRecovery .empty) 0 false s.ahead) =
      (skipping deepAdvance (some (0, false)) s).2 := bumpMany_deepLength s 0 false s rfl
  simp only [recoverTooDeep, skip]

/-- How many parentheses are open after one more token, if any are. -/
def parenAdvance : Nat → State → Option Nat
  | 0, _ => none
  | level + 1, s =>
    some <|
      if s.kind == .leftParen then level + 2
      else if s.kind == .rightParen then level
      else level + 1

theorem skipping_paren_zero (s : State) : skipping parenAdvance 0 s = (0, s) := by
  rw [skipping]
  split <;> rfl

theorem bumpMany_parenLength (level : Nat) (s : State) :
    s.bumpMany (parenLength level s.ahead).1 = (skipping parenAdvance level s).2 ∧
      (parenLength level s.ahead).2 = ((skipping parenAdvance level s).1 == 0) := by
  induction ahead : s.ahead generalizing s level with
  | nil =>
    rw [skipping, dif_pos ahead]
    cases level <;> exact ⟨rfl, rfl⟩
  | cons next rest ih =>
    have here : s.kind = next.kind := congrArg Lookahead.kind (current_of_ahead ahead)
    cases level with
    | zero => rw [skipping_paren_zero]; exact ⟨rfl, rfl⟩
    | succ level =>
      rw [skipping_cons _ _ (by simp [ahead])]
      simp only [parenLength, parenAdvance, here]
      exact ih _ s.bump (by rw [ahead_bump, ahead, List.tail_cons])

/-- Skips once more, unless the current token ends recovery. -/
def syncStep (recovery : KindSet) (s : State) : Bool × State :=
  if s.atSync recovery then (false, s) else (true, s.skipUnit)

end State

namespace Coupling

variable {C : Coupling}

section Tests

theorem tested_kind : Tested State.kind := fun _ _ agree => agree.kind

theorem tested_isAt (kind : TokenKind) : Tested (isAt kind) := fun s t agree => by
  simp only [isAt, agree.kind]

theorem tested_isAtAny (kinds : KindSet) : Tested (isAtAny kinds) := fun s t agree => by
  simp only [isAtAny, agree.kind]

theorem tested_atEnd : Tested atEnd := tested_isAt .eof

theorem tested_atBreak : Tested State.atBreak := fun _ _ agree => agree.atBreak

theorem tested_symbolText {α : Type} (look : String → α) (other : α) :
    Tested fun s => if s.isAt .symbol then look s.text else other := fun s t agree => by
  simp only [isAt, ← agree.kind, beq_iff_eq]
  split
  case isTrue symbol => rw [agree.text symbol]
  case isFalse => rfl

theorem Tested.and {test test' : State → Bool} (first : Tested test) (second : Tested test') :
    Tested fun s => test s && test' s := fun s t agree => by
  simp only [first agree, second agree]

theorem Tested.or {test test' : State → Bool} (first : Tested test) (second : Tested test') :
    Tested fun s => test s || test' s := fun s t agree => by
  simp only [first agree, second agree]

theorem Tested.not {test : State → Bool} (first : Tested test) :
    Tested fun s => !test s := fun s t agree => by simp only [first agree]

theorem tested_isAtSymbol (symbol : String) : Tested (isAtSymbol symbol) := fun s t agree => by
  simp only [isAtSymbol, isAt, agree.kind]
  by_cases atSymbol : t.kind = .symbol
  · rw [agree.text (agree.kind.trans atSymbol)]
  · simp only [beq_eq_false_iff_ne.mpr atSymbol, Bool.false_and]

theorem tested_atSync (recovery : KindSet) : Tested (atSync recovery) := fun s t agree => by
  have atBreak := agree.atBreak
  have kind := agree.kind
  simp only [State.atBreak, State.kind] at atBreak kind
  simp only [atSync, endsRecovery, atBreak, kind]

theorem tested_atStatementEnd : Tested atStatementEnd :=
  (tested_isAtAny syncKinds).or tested_atBreak

theorem tested_atExprStart (config : Config) : Tested (atExprStart config) := fun s t agree => by
  simp only [atExprStart, isAtAny, isAt, agree.kind]
  by_cases atSymbol : t.kind = .symbol
  · rw [agree.text (agree.kind.trans atSymbol)]
  · simp only [beq_eq_false_iff_ne.mpr atSymbol, Bool.false_and]

theorem tested_atTypeStart : Tested atTypeStart := tested_isAtAny typeKinds

theorem tested_atStatementStart (config : Config) : Tested (atStatementStart config) :=
  (tested_isAtAny statementKinds).or (tested_atExprStart config)

end Tests

section Steps

variable {r q : State → State}

theorem Coupled.bump : C.Coupled State.bump State.bump := C.bump_step

theorem Coupled.unexpected (expected : String) :
    C.Coupled (State.unexpected expected) (State.unexpected expected) := C.unexpected_step expected

theorem Coupled.missing (expected : String) :
    C.Coupled (State.missing expected) (State.missing expected) := C.missing_step expected

theorem Coupled.node (kind : NodeKind) (other : kind ≠ .block) (body : C.Coupled r q) :
    C.Coupled (State.node kind r) (State.node kind q) :=
  fun s t => C.node_step other (body s.openNode t.openNode) (.inl rfl)

theorem CoupledWith.nodeOf {r q : State → NodeKind × State} (other : ∀ s, (r s).1 ≠ .block)
    (body : C.CoupledWith r q) : C.Coupled (State.nodeOf r) (State.nodeOf q) :=
  fun s t => C.node_step (other s.openNode) (body s.openNode t.openNode).1 (body s.openNode t.openNode).2

theorem Coupled.wrap (kind : NodeKind) (other : kind ≠ .block) (body : C.Coupled r q) :
    C.Coupled (State.wrap kind r) (State.wrap kind q) :=
  fun s t => C.wrap_step kind other (body s.precedeNode t.precedeNode)

theorem Coupled.nested [C.Nests] (body : C.Coupled r q) :
    C.Coupled (State.nested r) (State.nested q) :=
  fun _ _ => Nests.nested_step (body _ _)

theorem Coupled.during (phase : Phase) (body : C.Coupled r q) :
    C.Coupled (State.during phase r) (State.during phase q) :=
  fun _ _ => C.during_step phase (body _ _)

theorem Coupled.withBreaks (matter : Bool) (body : C.Coupled r q) :
    C.Coupled (State.withBreaks matter r) (State.withBreaks matter q) :=
  fun _ _ => C.breaks_step matter (body _ _)

theorem CoupledWith.withBreaks {α : Type} {r q : State → α × State} (matter : Bool)
    (body : C.CoupledWith r q) :
    C.CoupledWith (fun s => ((r (s.pushBreaks matter)).1, (r (s.pushBreaks matter)).2.popBreaks))
      (fun t => ((q (t.pushBreaks matter)).1, (q (t.pushBreaks matter)).2.popBreaks)) := by
  intro s t
  obtain ⟨step, same⟩ := body (s.pushBreaks matter) (t.pushBreaks matter)
  refine ⟨C.breaks_step matter step, same.imp_right fun free u => ?_⟩
  exact C.breaks_step matter (free (u.pushBreaks true))

theorem Coupled.bumpMany (count : Nat) :
    C.Coupled (State.bumpMany count) (State.bumpMany count) := by
  induction count with
  | zero => exact .id
  | succ count ih => exact ih.comp .bump

theorem Coupled.eat (kind : TokenKind) : C.Coupled (State.eat kind) (State.eat kind) :=
  .ite (tested_isAt kind) .bump .id

theorem Coupled.expect (kind : TokenKind) : C.Coupled (State.expect kind) (State.expect kind) :=
  .ite (tested_isAt kind) .bump (.missing kind.describe)

end Steps

section Recovery

theorem coupled_skipping {α : Type} {advance : α → State → Option α}
    (tested : ∀ memory, Tested (advance memory)) (memory : α) :
    C.CoupledWith (skipping advance memory) (skipping advance memory) := by
  intro s
  induction size : s.ahead.length using Nat.strongRecOn generalizing s memory with
  | _ n ih =>
  refine agree_at fun t agree => ?_
  by_cases ahead : s.ahead = []
  · rw [skipping, skipping, dif_pos ahead, dif_pos (agree.empty.mp ahead)]
    exact ⟨C.refl s t, .inl rfl⟩
  · have onward := fun memory => ih s.bump.ahead.length (by
        rw [ahead_bump, List.length_tail]
        have := List.length_pos_iff.mpr ahead
        omega) memory s.bump rfl t.bump
    rw [skipping_cons _ _ ahead, skipping_cons _ _ (mt agree.empty.mpr ahead), tested memory agree]
    cases advance memory t with
    | none => exact ⟨C.refl s t, .inl rfl⟩
    | some memory =>
      obtain ⟨step, same⟩ := onward memory
      exact ⟨C.trans (C.bump_step s t) step, same.imp_right fun free u => C.trans (C.bump_step s t) (free u)⟩

theorem tested_groupAdvance (expected : List TokenKind) : Tested (groupAdvance expected) :=
  fun s t agree => by simp only [groupAdvance, agree.kind]

theorem tested_deepAdvance (memory : Option (Nat × Bool)) : Tested (deepAdvance memory) :=
  fun s t agree => by
    cases memory with
    | none => rfl
    | some memory => simp only [deepAdvance, agree.kind, tested_atSync .empty agree]

theorem tested_parenAdvance (level : Nat) : Tested (parenAdvance level) :=
  fun s t agree => by
    cases level with
    | zero => rfl
    | succ level => simp only [parenAdvance, agree.kind]

theorem Coupled.skipUnit : C.Coupled State.skipUnit State.skipUnit := by
  have each (closer? : Option TokenKind) :
      C.Coupled
        (fun s => match closer? with
          | some closer => (skipping groupAdvance [closer] s.bump).2
          | none => s.bump)
        (fun t => match closer? with
          | some closer => (skipping groupAdvance [closer] t.bump).2
          | none => t.bump) := by
    cases closer? with
    | none => exact .bump
    | some closer =>
      exact fun s t => C.trans (C.bump_step s t) (coupled_skipping tested_groupAdvance [closer] _ _).1
  intro s t
  rw [skipUnit_eq, skipUnit_eq]
  exact Coupled.byTest (fun s t agree => congrArg TokenKind.closer? (tested_kind agree)) each s t

theorem coupled_syncStep (recovery : KindSet) :
    C.CoupledWith (syncStep recovery) (syncStep recovery) :=
  .ite (tested_atSync recovery) (.always false .id) (.always true .skipUnit)

theorem Coupled.skipToSync (recovery : KindSet) :
    C.Coupled (State.skipToSync recovery) (State.skipToSync recovery) :=
  (Coupled.repeatStep (coupled_syncStep recovery)).comp .skipUnit

theorem Coupled.recover (expected : String) (recovery : KindSet) :
    C.Coupled (State.recover expected recovery) (State.recover expected recovery) :=
  (Coupled.ite tested_atEnd .id
    (.node .error nofun (.during .recovering (.skipToSync recovery)))).comp
      (.unexpected expected)

theorem Coupled.placeholder (expected : String) :
    C.Coupled (State.placeholder expected) (State.placeholder expected) :=
  (Coupled.node .error nofun .id).comp (.unexpected expected)

theorem Coupled.absent (expected : String) (recovery : KindSet) :
    C.Coupled (State.absent expected recovery) (State.absent expected recovery) :=
  .ite (tested_atSync recovery) (.placeholder expected) (.recover expected recovery)

theorem Coupled.recoverTooDeep (limit : Nat) :
    C.Coupled (State.recoverTooDeep limit) (State.recoverTooDeep limit) := by
  have skip : C.Coupled (fun s => (skipping deepAdvance (some (0, false)) s).2)
      (fun t => (skipping deepAdvance (some (0, false)) t).2) :=
    fun s t => (coupled_skipping tested_deepAdvance _ s t).1
  refine .of_agree fun s t agree => ?_
  simp only [recoverTooDeep_eq, ← tested_atEnd agree]
  split
  case isTrue => exact C.unexpected_step _ s t
  case isFalse inside =>
    have reported := C.tooDeep_step limit agree (Bool.eq_false_iff.mpr inside)
    exact C.trans reported
      (Coupled.node .error nofun (.during .recovering skip) _ _)

end Recovery

end Coupling

end LosslessSyntax.Grammar
