import LosslessSyntax.Proofs.Grammar.Steps

/-! # Runs of one block

A block that is closed before the text ends (`brace_of_unreported`) does not depend on what comes
after it: it is read on its own as it is read in a text, and reports only at its tokens
(`block_in_context`).
-/

namespace LosslessSyntax.Grammar

open State Outline

variable {config : Config} {room : Nat} {s t : State}

/-- What is read between the braces of a block and with them. -/
def insideBlock (config : Config) (room : Nat) (s : State) : State :=
  Coupling.blockBody config room { s with depth := s.depth + 1 }.openNode

theorem block_of_brace (brace : s.isAt .leftBrace = true) :
    block config (room + 1) s =
      { closeNode s .block (insideBlock config room s) with
        depth := (insideBlock config room s).depth - 1 } := by
  rw [block, if_pos brace]
  rfl

theorem runs_insideBlock (config : Config) (room : Nat) (s : State) :
    Runs s.openNode (insideBlock config room s) :=
  (Runs.of_coupled (Coupling.coupled_blockBody config room
    (Coupling.coupled_block Runs.blockClosed config room)) _).of_context

theorem keeps_insideBlock {L : Link} {u u' : List Lookahead} (abreast : Abreast L u u' s t)
    (within : u.length ≤ (insideBlock config room s).ahead.length) :
    Keeps L u u' s.openNode t.openNode (insideBlock config room s) (insideBlock config room t) ∧
      (insideBlock config room s).pieces = (insideBlock config room t).pieces := by
  have body := Coupling.coupled_blockBody config room
    (Coupling.coupled_block (abreast_blockClosed L u u') config room)
  have opened : Abreast L u u' ({ s with depth := s.depth + 1 } : State).openNode
      ({ t with depth := t.depth + 1 } : State).openNode :=
    ⟨abreast.ahead, abreast.next, abreast.empty, abreast.modes, abreast.gap, abreast.ended⟩
  obtain ⟨keeps, same⟩ := (body _ _).2 opened rfl within
  exact ⟨⟨keeps.abreast, keeps.logged, keeps.run.of_context⟩, same⟩

/-- Where the statements of a block end. -/
def endsBlock (s : State) : Bool := s.isAt .rightBrace || s.atEnd

/-- The state at the first statement of the block that begins at the current token. -/
def enterBlock (s : State) : State :=
  let inner := (openNode { s with depth := s.depth + 1 }).bump
  State.pushBreaks true { inner with phases := .block :: inner.phases }

/-- The state after the last statement of the block that begins at the current token. -/
def blockEnd (config : Config) (room : Nat) (s : State) : State :=
  let inner := (items config room endsBlock (enterBlock s)).popBreaks
  { inner with phases := inner.phases.tail }

theorem insideBlock_eq (config : Config) (room : Nat) (s : State) :
    insideBlock config room s = (blockEnd config room s).expect .rightBrace := rfl

theorem endsBlock_of_atEnd (s : State) (atEnd : s.atEnd = true) : endsBlock s = true := by
  rw [endsBlock, atEnd, Bool.or_true]

@[simp] theorem ahead_enterBlock (s : State) : (enterBlock s).ahead = s.ahead.tail :=
  ahead_bump _

theorem enterBlock_of_cons {next : Lookahead} {rest : List Lookahead}
    (ahead : s.ahead = next :: rest) :
    (enterBlock s).lastStop = some next.token.stop ∧ (enterBlock s).pieces = [.token] ∧
      (enterBlock s).reports = s.reports ∧ (enterBlock s).endReported = s.endReported := by
  simp [enterBlock, pushBreaks, State.bump, openNode, ahead]

theorem proper_enterBlock (proper : s.Proper) : (enterBlock s).Proper where
  finish := (congrArg Lookahead.kind
    (Runs.bump (openNode { s with depth := s.depth + 1 })).finish).trans proper.finish
  inside := fun a member => by
    rw [ahead_enterBlock] at member
    exact proper.inside a (List.mem_of_mem_tail member)

theorem runs_blockEnd (config : Config) (room : Nat) (proper : s.Proper) : Runs s.openNode (blockEnd config room s) := by
  have inner : Runs (enterBlock s) (items config room endsBlock (enterBlock s)) :=
    runs_items (proper_enterBlock proper) endsBlock_of_atEnd
  have outer : Runs (openNode { s with depth := s.depth + 1 }) (blockEnd config room s) :=
    (Runs.bump _).trans inner.popBreaks.of_context
  exact ⟨outer.passed, outer.extent, outer.finish, outer.breakModes, outer.kept, outer.ended⟩

/-- The statements of a block end at a brace or with the text. -/
theorem blockEnd_cases (proper : s.Proper) :
    (blockEnd config room s).isAt .rightBrace = true ∨ (blockEnd config room s).ahead = [] := by
  have ended := stop_items config room endsBlock_of_atEnd
    (proper_enterBlock proper)
  rw [endsBlock, Bool.or_eq_true] at ended
  refine ended.imp id fun atEnd => ?_
  have proper' : (blockEnd config room s).Proper :=
    Proper.of_runs (s := s.openNode) ⟨proper.finish, proper.inside⟩ (runs_blockEnd config room proper)
  exact proper'.atEnd_iff.mp atEnd

theorem block_eq (config : Config) (room : Nat) (brace : s.isAt .leftBrace = true) :
    (block config (room + 1) s).ahead = ((blockEnd config room s).expect .rightBrace).ahead ∧
    (block config (room + 1) s).reports = ((blockEnd config room s).expect .rightBrace).reports ∧
    (block config (room + 1) s).endReported =
      ((blockEnd config room s).expect .rightBrace).endReported ∧
    (block config (room + 1) s).outline =
      s.outline ++ [.node .block ((blockEnd config room s).expect .rightBrace).outline] := by
  rw [block_of_brace brace, ← insideBlock_eq]
  exact ⟨rfl, rfl, rfl, outline_closeNode s (insideBlock config room s) .block⟩

/-- A block that is not closed is reported, unless the end of the text has been reported before. -/
theorem brace_of_unreported (proper : s.Proper) (brace : s.isAt .leftBrace = true)
    (unreported : s.endReported = false)
    (good : ¬ ∃ d ∈ (block config (room + 1) s).reports.items, d.code = .unexpectedEnd) :
    (blockEnd config room s).isAt .rightBrace = true := by
  refine (blockEnd_cases proper).resolve_right fun none => good ?_
  have run := runs_blockEnd config room proper
  have proper' : (blockEnd config room s).Proper :=
    Proper.of_runs (s := s.openNode) ⟨proper.finish, proper.inside⟩ run
  have atEnd := proper'.atEnd_iff.mpr none
  have other : (blockEnd config room s).isAt .rightBrace = false := by
    rw [State.atEnd, isAt, beq_iff_eq] at atEnd
    rw [isAt, atEnd]
    rfl
  rw [(block_eq config room brace).2.1, expect, if_neg (Bool.eq_false_iff.mp other), missing, if_pos atEnd,
    unexpected, atEnd, if_pos rfl, report, atEnd, Bool.true_and]
  split
  case isTrue reported =>
    rcases run.ended with same | ⟨reported, -⟩
    · change _ = s.endReported at same
      exact absurd (same.symm.trans reported) (by rw [unreported]; decide)
    · exact reported
  case isFalse =>
    obtain ⟨d, member, -, code⟩ := Diagnostics.exists_mem_push _ _
    exact ⟨d, member, code⟩

/-- A block of which the statements end at its closing brace. -/
theorem block_of_closed (brace : s.isAt .leftBrace = true)
    (closed : (blockEnd config room s).isAt .rightBrace = true) {last : Lookahead}
    {rest : List Lookahead}
    (ends : (items config room endsBlock (enterBlock s)).ahead = last :: rest) :
    let e := items config room endsBlock (enterBlock s)
    (block config (room + 1) s).ahead = rest ∧
    (block config (room + 1) s).reports = e.reports ∧
    (block config (room + 1) s).endReported = e.endReported ∧
    (block config (room + 1) s).outline =
      s.outline ++ [.node .block (e.outline ++ [.token])] := by
  have ends' : (blockEnd config room s).ahead = last :: rest := ends
  obtain ⟨ahead, reports, endReported, outline⟩ := block_eq config room brace
  have tokens : (blockEnd config room s).bump.outline =
      (items config room endsBlock (enterBlock s)).outline ++ [.token] := by
    rw [outline_bump, if_neg (by rw [ends']; exact List.cons_ne_nil _ _)]
    rfl
  rw [expect, if_pos closed] at ahead reports endReported outline
  rw [tokens] at outline
  refine ⟨?_, ?_, ?_, outline⟩
  · rw [ahead, ahead_bump, ends', List.tail_cons]
  · rw [reports, State.bump, ends']
    rfl
  · rw [endReported, State.bump, ends']
    rfl

/-- A block is read up to its closing brace, before so many other tokens. -/
structure ReadsBlock (config : Config) (room : Nat) (s : State) (rest : List Lookahead)
    (inner : List Outline) (log : List Diagnostic) : Prop where
  ahead : (block config (room + 1) s).ahead = rest
  outline : (block config (room + 1) s).outline = s.outline ++ [.node .block (inner ++ [.token])]
  reports : (block config (room + 1) s).reports = s.reports.extend log
  endReported : (block config (room + 1) s).endReported = s.endReported

/-- The tokens of a block are at places of which `P` is known. -/
structure BlockPlaces (P : Span → Prop) (brace : Token) (inside : List Lookahead) (last : Lookahead) :
    Prop where
  opening : P (.empty brace.stop)
  inside : ∀ a ∈ inside, P a.token.span ∧ P (.empty a.token.stop)
  closing : P last.token.span

section Alike

variable {brace : Token} {flag flag' : Bool} {last : Lookahead} {inside rest rest' : List Lookahead}

theorem isAt_leftBrace (ahead : s.ahead = ⟨brace, flag⟩ :: rest) (opening : brace.kind = .leftBrace) :
    s.isAt .leftBrace = true := by
  rw [isAt, State.kind, current_of_ahead ahead, beq_iff_eq]
  exact opening

/-- The statements of a block that is closed by its last token end before this token. -/
theorem ahead_items_of_closed (ahead : s.ahead = ⟨brace, flag⟩ :: (inside ++ last :: rest))
    (proper : s.Proper) (opening : brace.kind = .leftBrace)
    (closed : (blockEnd config room s).isAt .rightBrace = true)
    (left : (block config (room + 1) s).ahead.length = rest.length) :
    (items config room endsBlock (enterBlock s)).ahead = last :: rest := by
  have run : Runs (enterBlock s) (items config room endsBlock (enterBlock s)) :=
    runs_items (proper_enterBlock proper) endsBlock_of_atEnd
  cases ends : (items config room endsBlock (enterBlock s)).ahead with
  | nil =>
    have atEnd := ((proper_enterBlock proper).of_runs run).atEnd_iff.mpr ends
    change (items config room endsBlock (enterBlock s)).isAt .rightBrace = true at closed
    rw [State.atEnd, isAt, beq_iff_eq] at atEnd
    rw [isAt, atEnd] at closed
    exact absurd closed (by decide)
  | cons next others =>
    obtain ⟨passed, split, -⟩ := run.passed
    rw [ahead_enterBlock, ahead, List.tail_cons, ends] at split
    rw [(block_of_closed (isAt_leftBrace ahead opening) closed ends).1] at left
    refine (List.append_inj' split ?_).2.symm
    rw [List.length_cons, List.length_cons, left]

/-- Behind their opening braces, blocks that hold the same tokens are abreast. -/
theorem abreast_enterBlock {P : Span → Prop} (places : BlockPlaces P brace inside last)
    (ahead : s.ahead = ⟨brace, flag⟩ :: (inside ++ last :: rest))
    (ahead' : t.ahead = ⟨brace, flag'⟩ :: (inside ++ last :: rest')) (proper : s.Proper) :
    Abreast (.within P) (last :: rest) (last :: rest') (enterBlock s) (enterBlock t) where
  ahead := by
    refine ⟨inside, inside, ?_, ?_, List.forall₂_same.mpr fun a member => ?_⟩
    · rw [ahead_enterBlock, ahead, List.tail_cons]
    · rw [ahead_enterBlock, ahead', List.tail_cons]
    · obtain ⟨span, stop⟩ := places.inside a member
      exact ⟨⟨⟨rfl, fun _ => rfl, rfl⟩, rfl, span⟩, ⟨rfl, stop⟩,
        proper.inside a (by simp [ahead, member])⟩
  next := ⟨⟨rfl, fun _ => rfl, rfl⟩, rfl, places.closing⟩
  empty := iff_of_false (List.cons_ne_nil _ _) (List.cons_ne_nil _ _)
  modes := rfl
  gap := by
    rw [State.gap, State.gap, (enterBlock_of_cons ahead).1, (enterBlock_of_cons ahead').1]
    exact ⟨rfl, places.opening⟩
  ended _ kind := absurd kind (proper.inside last (by simp [ahead]))

/-- A block of which the statements end before its closing brace. -/
theorem reads_of_ends (ahead : s.ahead = ⟨brace, flag⟩ :: rest) (proper : s.Proper)
    (opening : brace.kind = .leftBrace)
    (closed : (blockEnd config room s).isAt .rightBrace = true)
    (ends : (items config room endsBlock (enterBlock s)).ahead = last :: rest')
    {log : List Diagnostic} (made : (items config room endsBlock (enterBlock s)).reports =
      (enterBlock s).reports.extend log) :
    ReadsBlock config room s rest' (items config room endsBlock (enterBlock s)).outline log := by
  obtain ⟨left, reports, endReported, outline⟩ :=
    block_of_closed (isAt_leftBrace ahead opening) closed ends
  obtain ⟨-, -, reports', endReported'⟩ := enterBlock_of_cons ahead
  have run : Runs (enterBlock s) (items config room endsBlock (enterBlock s)) :=
    runs_items (proper_enterBlock proper) endsBlock_of_atEnd
  have early : (items config room endsBlock (enterBlock s)).ahead ≠ [] := by
    rw [ends]
    exact List.cons_ne_nil _ _
  refine ⟨left, outline, ?_, ?_⟩
  · rw [reports, made, reports']
  · rw [endReported, run.endReported_eq (proper_enterBlock proper).inside early, endReported']

/-- A block that is closed is read in the same way whatever comes after it, and what is reported is
reported at its tokens. -/
theorem block_in_context {P : Span → Prop} (places : BlockPlaces P brace inside last)
    (ahead : s.ahead = ⟨brace, flag⟩ :: (inside ++ last :: rest))
    (ahead' : t.ahead = ⟨brace, flag'⟩ :: (inside ++ last :: rest'))
    (proper : s.Proper) (proper' : t.Proper) (opening : brace.kind = .leftBrace)
    (unreported : s.endReported = false)
    (good : ¬ ∃ d ∈ (block config (room + 1) s).reports.items, d.code = .unexpectedEnd)
    (left : (block config (room + 1) s).ahead.length = rest.length) :
    ∃ inner log, ReadsBlock config room s rest inner log ∧ ReadsBlock config room t rest' inner log ∧
      ∀ d ∈ log, P d.span := by
  have closed := brace_of_unreported proper (isAt_leftBrace ahead opening) unreported good
  have ends := ahead_items_of_closed ahead proper opening closed left
  have abreast := abreast_enterBlock places ahead ahead' proper
  have tested : Coupling.Tested endsBlock :=
    (Coupling.tested_isAt .rightBrace).or Coupling.tested_atEnd
  have pieces : (enterBlock s).pieces = (enterBlock t).pieces :=
    (enterBlock_of_cons ahead).2.1.trans (enterBlock_of_cons ahead').2.1.symm
  obtain ⟨⟨after, logged, -⟩, same⟩ := (coupled_items config room
    (abreast_blockClosed (.within P) (last :: rest) (last :: rest')) tested (enterBlock s)
      (enterBlock t)).2 abreast pieces (Nat.le_of_eq (congrArg List.length ends).symm)
  obtain ⟨log, made, made', known⟩ := logged.within
  have ends' : (items config room endsBlock (enterBlock t)).ahead = last :: rest' := by
    obtain ⟨w, w', left, left', matched⟩ := after.ahead
    rw [ends] at left
    have none : w = [] := List.append_left_eq_self.mp left.symm
    subst none
    cases matched
    exact left'
  have closed' : (blockEnd config room t).isAt .rightBrace = true := by
    change (items config room endsBlock (enterBlock s)).isAt .rightBrace = true at closed
    change (items config room endsBlock (enterBlock t)).isAt .rightBrace = true
    rwa [isAt, State.kind, current_of_ahead ends', ← current_of_ahead ends]
  have reads' := reads_of_ends ahead' proper' opening closed' ends' made'
  have inner : (items config room endsBlock (enterBlock t)).outline =
      (items config room endsBlock (enterBlock s)).outline := by
    rw [State.outline, State.outline, same]
  rw [inner] at reads'
  exact ⟨_, log, reads_of_ends ahead proper opening closed ends made, reads', known⟩

end Alike

end LosslessSyntax.Grammar
