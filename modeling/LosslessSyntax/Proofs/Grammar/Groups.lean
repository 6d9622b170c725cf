import LosslessSyntax.Proofs.Grammar.Items
import LosslessSyntax.Proofs.Grammar.Skipping
import Mathlib.Data.List.Induction

/-! # Groups are skipped as a whole

A group is an opening token, tokens that are properly nested, and the token that closes it
(`IsGroup`). Recovery counts how far a group goes in two ways: by the closing tokens that are
expected, and by the number of groups that are open. What is properly nested leaves both as they
were (`groupLength_append`, `deepLength_append`), so both counts end with the group
(`unitLength_group`, `deepLength_group`). Whatever follows an opening token, skipping takes no
closing brace that does not close a brace it has taken before, nor the end of the text
(`groups_skipped`).
-/

namespace LosslessSyntax.Grammar

open State

/-- Tokens among which each opening one is closed by its own closing one. -/
inductive Balanced : List Lookahead → Prop
  | nil : Balanced []
  | plain {next : Lookahead} {rest : List Lookahead} : next.kind.closer? = none →
      next.kind.isCloser = false → Balanced rest → Balanced (next :: rest)
  | group {opening closing : Lookahead} {inside rest : List Lookahead} :
      opening.kind.closer? = some closing.kind → Balanced inside → Balanced rest →
        Balanced (opening :: (inside ++ closing :: rest))

/-- An opening token, what is nested properly, and the token that closes the group. -/
def IsGroup (tokens : List Lookahead) : Prop :=
  ∃ opening closing inside, opening.kind.closer? = some closing.kind ∧ Balanced inside ∧
    tokens = opening :: (inside ++ [closing])

/-- Number of opening braces that no brace after them closes. -/
def openBraces (tokens : List Lookahead) : Nat :=
  tokens.foldl (fun count next =>
    if next.kind = .leftBrace then count + 1
    else if next.kind = .rightBrace then count - 1
    else count) 0

theorem closer?_eq_some {opening closing : TokenKind} (opens : opening.closer? = some closing) :
    opening.isCloser = false ∧ closing.isCloser = true ∧ closing.closer? = none := by
  cases opening <;> simp_all [TokenKind.closer?] <;> subst opens <;> decide

theorem groupLength_nil (ahead : List Lookahead) : groupLength [] ahead = 0 := by
  cases ahead <;> rfl

section Counts

variable {front back : List Lookahead}

/-- What is properly nested does not change which closing tokens are expected. -/
theorem groupLength_append (balanced : Balanced front) (expected : List TokenKind)
    (closers : ∀ kind ∈ expected, kind.isCloser = true) (waits : expected ≠ [])
    (back : List Lookahead) :
    groupLength expected (front ++ back) = front.length + groupLength expected back := by
  induction balanced generalizing expected back with
  | nil => exact (Nat.zero_add _).symm
  | @plain next rest opens closes _ ih =>
    have absent : expected.contains next.kind = false := by
      refine Bool.eq_false_iff.mpr fun member => ?_
      have := closers _ (List.contains_iff_mem.mp member)
      rw [closes] at this
      exact Bool.false_ne_true this
    have other : (next.kind == TokenKind.rightBrace) = false := by
      cases kind : next.kind <;> simp_all [TokenKind.isCloser]
    rw [List.cons_append, groupLength, List.length_cons]
    simp only [List.isEmpty_eq_false_iff.mpr waits, opens, absent, other,
      ih expected closers waits back, Bool.false_eq_true, ↓reduceIte]
    omega
  | @group opening closing inside rest opens _ _ within behind =>
    obtain ⟨-, closes, plain⟩ := closer?_eq_some opens
    have closers' : ∀ kind ∈ closing.kind :: expected, kind.isCloser = true :=
      List.forall_mem_cons.mpr ⟨closes, closers⟩
    -- the group is waited for until its closing token takes it off again
    have closed : groupLength (closing.kind :: expected) (closing :: (rest ++ back)) =
        groupLength expected (rest ++ back) + 1 := by
      rw [groupLength]
      simp [plain]
    rw [List.cons_append, List.append_assoc, List.cons_append, groupLength]
    simp only [List.isEmpty_eq_false_iff.mpr waits, opens, Bool.false_eq_true, ↓reduceIte,
      within _ closers' (List.cons_ne_nil _ _), closed, behind expected closers waits,
      List.length_cons, List.length_append]
    omega

/-- What is properly nested does not change how many groups are open. -/
theorem deepLength_append (balanced : Balanced front) (ends : Lookahead → Bool) (outer : Nat)
    (back : List Lookahead) :
    deepLength ends (outer + 1) true (front ++ back) =
      front.length + deepLength ends (outer + 1) true back := by
  induction balanced generalizing outer back with
  | nil => exact (Nat.zero_add _).symm
  | @plain next rest opens closes _ ih =>
    rw [List.cons_append, deepLength.eq_def]
    simp only [opens, closes, ih, Option.isSome_none, Bool.false_eq_true, ↓reduceIte,
      Nat.add_one_ne_zero, List.length_cons, beq_iff_eq, Bool.and_eq_true, false_and]
    omega
  | @group opening closing inside rest opens _ _ within behind =>
    obtain ⟨opening', closes, -⟩ := closer?_eq_some opens
    have closed : deepLength ends (outer + 1 + 1) true (closing :: (rest ++ back)) =
        deepLength ends (outer + 1) true (rest ++ back) + 1 := by
      rw [deepLength.eq_def]
      simp [closes]
    rw [List.cons_append, List.append_assoc, List.cons_append, deepLength.eq_def]
    simp only [opening', opens, Option.isSome_some, Bool.false_eq_true, ↓reduceIte, within, closed,
      behind, List.length_cons, List.length_append]
    omega

/-- A group that comes first is counted to its end, and no further. -/
theorem unitLength_group (group : IsGroup front) (back : List Lookahead) :
    unitLength (front ++ back) = front.length := by
  obtain ⟨opening, closing, inside, opens, balanced, rfl⟩ := group
  obtain ⟨-, closes, plain⟩ := closer?_eq_some opens
  have waited : ∀ kind ∈ [closing.kind], kind.isCloser = true := by simpa using closes
  have closed : groupLength [closing.kind] (closing :: back) = 1 := by
    rw [groupLength]
    simp [plain, groupLength_nil]
  rw [List.cons_append, List.append_assoc, List.cons_append, List.nil_append, unitLength]
  simp only [opens, groupLength_append balanced _ waited (List.cons_ne_nil _ _), closed,
    List.length_cons, List.length_append, List.length_nil]

theorem deepLength_group (group : IsGroup front) (ends : Lookahead → Bool)
    (back : List Lookahead) : deepLength ends 0 false (front ++ back) = front.length := by
  obtain ⟨opening, closing, inside, opens, balanced, rfl⟩ := group
  obtain ⟨opening', closes, -⟩ := closer?_eq_some opens
  have closed : deepLength ends 1 true (closing :: back) = 1 := by
    rw [deepLength.eq_def]
    simp [closes]
  rw [List.cons_append, List.append_assoc, List.cons_append, List.nil_append, deepLength.eq_def]
  simp only [opening', opens, Option.isSome_some, Bool.false_eq_true, ↓reduceIte,
    deepLength_append balanced ends 0, closed, List.length_cons, List.length_append,
    List.length_nil]

end Counts

/-- A brace opens or closes; another token leaves the open braces as they are. -/
theorem openBraces_concat (tokens : List Lookahead) (next : Lookahead) :
    openBraces (tokens ++ [next]) =
      if next.kind = .leftBrace then openBraces tokens + 1
      else if next.kind = .rightBrace then openBraces tokens - 1
      else openBraces tokens := by
  rw [openBraces, List.foldl_append]
  rfl

/-- Braces that no brace closes are left over where more open than close. -/
theorem count_le_openBraces (tokens : List Lookahead) :
    tokens.countP (·.kind == .leftBrace) ≤
      openBraces tokens + tokens.countP (·.kind == .rightBrace) := by
  induction tokens using List.reverseRecOn with
  | nil => exact Nat.le_refl 0
  | append_singleton tokens next ih =>
    rw [openBraces_concat, List.countP_append, List.countP_append, List.countP_singleton,
      List.countP_singleton]
    by_cases opens : next.kind = .leftBrace
    · simp only [opens, ↓reduceIte, beq_self_eq_true]
      omega
    · by_cases closes : next.kind = .rightBrace
      · simp only [closes, reduceCtorEq, ↓reduceIte, beq_iff_eq, beq_self_eq_true]
        omega
      · simp only [opens, closes, ↓reduceIte, beq_iff_eq]
        omega

/-- Where closing braces never outnumber opening ones, each closes one that is open. -/
theorem openBraces_of_braced {front back : List Lookahead} {brace : Lookahead}
    (braced : Braced ((front ++ brace :: back).map (·.kind))) (closes : brace.kind = .rightBrace) :
    0 < openBraces front := by
  have outnumbered := braced ((front ++ [brace]).map (·.kind)) ⟨back.map (·.kind), by simp⟩
  have unclosed := count_le_openBraces front
  simp only [List.map_append, List.map_cons, List.map_nil, List.countP_append, List.countP_map,
    List.countP_singleton, closes] at outnumbered
  simp [Function.comp_def] at outnumbered
  omega

namespace IsGroup

variable {s : State} {group rest : List Lookahead}

theorem inside (isGroup : IsGroup group) (ahead : s.ahead = group ++ rest) : s.atEnd = false := by
  obtain ⟨opening, closing, inside, opens, -, rfl⟩ := isGroup
  have kind : s.kind = opening.kind := congrArg Lookahead.kind (current_of_ahead ahead)
  rw [atEnd, isAt, kind]
  cases first : opening.kind <;> simp_all [TokenKind.closer?]

/-- A group that lies ahead is skipped, and nothing else. -/
theorem passes_skipUnit (isGroup : IsGroup group) (ahead : s.ahead = group ++ rest) :
    Passes s s.skipUnit group := by
  have passes := Passes.bumpMany (unitLength s.ahead) s
  rwa [ahead, unitLength_group isGroup, List.take_left' rfl, ← unitLength_group isGroup rest,
    ← ahead] at passes

theorem recoverTooDeep (isGroup : IsGroup group) (ahead : s.ahead = group ++ rest) (limit : Nat) :
    (s.recoverTooDeep limit).ahead = rest ∧
      (s.recoverTooDeep limit).outline =
        s.outline ++ [.node .error (List.replicate group.length .token)] := by
  let reported := s.report .nestingTooDeep (depthMessage limit) s.current.token.span
  have ahead' : reported.ahead = group ++ rest := (ahead_report ..).trans ahead
  have count := deepLength_group isGroup (reported.endsRecovery .empty) rest
  have same : s.recoverTooDeep limit =
      reported.node .error (during .recovering (bumpMany group.length)) := by
    rw [State.recoverTooDeep, if_neg (Bool.eq_false_iff.mp (isGroup.inside ahead)), ← count,
      ← ahead']
    rfl
  have passes := @Passes.within _ _ _ .recovering
    (.bumpMany group.length
      { reported.openNode with phases := .recovering :: reported.openNode.phases })
  have taken : reported.ahead.take group.length = group := by rw [ahead', List.take_left' rfl]
  have whole : reported.ahead = reported.ahead.take group.length ++ _ := passes.ahead
  have outline := passes.outline
  rw [outline_openNode, List.nil_append] at outline
  change _ = List.replicate (reported.ahead.take group.length).length _ at outline
  rw [same, node, outline_closeNode, outline_congr (pieces_report ..), during]
  rw [taken] at whole outline
  refine ⟨(List.append_cancel_left (ahead'.symm.trans whole)).symm, ?_⟩
  exact congrArg (fun inner => s.outline ++ [Outline.node .error inner]) outline

end IsGroup

/-- Where a proper group lies ahead, skipping it and skipping it as nesting too deeply both consume
its tokens and no others. Whatever follows an opening token, skipping consumes some tokens, of which
none is the end and each closing brace closes an opening one among them. -/
theorem groups_skipped (limit : Nat) (s : State) :
    (∀ group rest, s.ahead = group ++ rest → IsGroup group →
      (Passes s s.skipUnit group ∧ s.skipUnit.ahead = rest) ∧
        (s.recoverTooDeep limit).ahead = rest ∧
        (s.recoverTooDeep limit).outline =
          s.outline ++ [.node .error (List.replicate group.length .token)]) ∧
      (s.Proper → s.kind.closer?.isSome = true → ∃ skipped, Passes s s.skipUnit skipped ∧
        skipped ≠ [] ∧ (∀ next ∈ skipped, next.kind ≠ .eof) ∧
        ∀ front brace back, skipped = front ++ brace :: back → brace.kind = .rightBrace →
          0 < openBraces front) := by
  constructor
  · intro group rest ahead isGroup
    have passes := isGroup.passes_skipUnit ahead
    exact ⟨⟨passes, (List.append_cancel_left (ahead.symm.trans passes.ahead)).symm⟩,
      isGroup.recoverTooDeep ahead limit⟩
  · intro proper opens
    obtain ⟨skipped, passes, more, braced⟩ := exists_skipUnit s
    have other : s.isAt .rightBrace = false := Bool.eq_false_iff.mpr fun brace => by
      rw [beq_iff_eq.mp brace] at opens
      cases opens
    have some : s.ahead ≠ [] := fun none => by
      rw [beq_iff_eq.mp (proper.atEnd_iff.mpr none)] at opens
      cases opens
    refine ⟨skipped, passes, more some, fun next member => proper.inside next ?_, ?_⟩
    · rw [passes.ahead]
      exact List.mem_append_left _ member
    · rintro front brace back rfl closes
      exact openBraces_of_braced (braced other) closes

/-- A group in parentheses before a name, and a parenthesis that a closing brace follows. -/
theorem groups_skipped_parens :
    let grouped := State.initial (.listed [⟨.leftParen, "(", ⟨0, 1, 1⟩⟩,
      ⟨.leftBracket, "[", ⟨1, 1, 2⟩⟩, ⟨.ident, "x", ⟨2, 1, 3⟩⟩, ⟨.rightBracket, "]", ⟨3, 1, 4⟩⟩,
      ⟨.rightParen, ")", ⟨4, 1, 5⟩⟩, ⟨.ident, "y", ⟨5, 1, 6⟩⟩] .empty 6) 6 0
    let unclosed := State.initial (.listed [⟨.leftParen, "(", ⟨0, 1, 1⟩⟩,
      ⟨.rightBrace, "\x7d", ⟨1, 1, 2⟩⟩] .empty 2) 2 0
    (IsGroup (grouped.ahead.take 5) ∧ Passes grouped grouped.skipUnit (grouped.ahead.take 5) ∧
      (grouped.recoverTooDeep 4).ahead = grouped.ahead.drop 5) ∧
    ∃ skipped, Passes unclosed unclosed.skipUnit skipped ∧ skipped ≠ [] := by
  intro grouped unclosed
  have group : IsGroup (grouped.ahead.take 5) :=
    ⟨_, _, _, rfl, .group rfl (.plain rfl rfl .nil) .nil, rfl⟩
  have proper : unclosed.Proper := ⟨rfl, by decide⟩
  obtain ⟨⟨passes, -⟩, ahead, -⟩ :=
    (groups_skipped 4 grouped).1 (grouped.ahead.take 5) (grouped.ahead.drop 5) rfl group
  obtain ⟨skipped, passes', some, -⟩ := (groups_skipped 4 unclosed).2 proper rfl
  exact ⟨⟨group, passes, ahead⟩, skipped, passes', some⟩

end LosslessSyntax.Grammar
