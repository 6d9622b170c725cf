import LosslessSyntax.Proofs.Grammar.Context
import LosslessSyntax.Proofs.Grammar.Programs

/-! # Watched runs

The rules are given how many more levels may be entered, and a state says how many have been. To see
that the two agree, the rules are run under a watch (`watchedConstruct`, `watchedBlock`): a level is
entered only if the state says that the limit has not been reached, anything may happen otherwise,
and a block is called by a name for the depth at which it is entered. Still the same is read but for
the names, each block is called by the name for the number of blocks around it (`State.renamed`), and
what is read is written (`Writes`). So the limit is never reached where a level is entered, whatever
the watch does then, and blocks are entered as deeply as the tree says (`contexts_restored`).

That a run and a watched one are the same but for the names is a coupling (`watching`) for each
depth at which the two begin.
-/

namespace LosslessSyntax

/-- The name of a node that so many blocks are around, if blocks are named by their depth. -/
def NodeKind.renamed (name : Nat → NodeKind) (level : Nat) (kind : NodeKind) : NodeKind :=
  if kind = .block then name level else kind

/-- How many blocks are around the children of a node. -/
def NodeKind.levelInside (level : Nat) (kind : NodeKind) : Nat :=
  if kind = .block then level + 1 else level

namespace Shape

mutual
/-- A shape that so many blocks are around, with each block named by the number of blocks around
it. -/
def renamed (name : Nat → NodeKind) (level : Nat) : Shape → Shape
  | .token => .token
  | .node kind children =>
    .node (kind.renamed name level) (renamedAll name (kind.levelInside level) children)
  | .wrap kind first rest =>
    .wrap (kind.renamed name level) (renamed name (kind.levelInside level) first)
      (renamedAll name (kind.levelInside level) rest)
/-- Shapes that follow each other. -/
def renamedAll (name : Nat → NodeKind) (level : Nat) : List Shape → List Shape
  | [] => []
  | first :: rest => renamed name level first :: renamedAll name level rest
end

theorem renamedAll_eq_map (name : Nat → NodeKind) (level : Nat) (shapes : List Shape) :
    renamedAll name level shapes = shapes.map (renamed name level) := by
  induction shapes with
  | nil => rfl
  | cons first rest ih => rw [renamedAll, ih, List.map_cons]

theorem renamedAll_reverse (name : Nat → NodeKind) (level : Nat) (shapes : List Shape) :
    renamedAll name level shapes.reverse = (renamedAll name level shapes).reverse := by
  rw [renamedAll_eq_map, renamedAll_eq_map, List.map_reverse]

end Shape

namespace Grammar

open State

/-- What a watched run does in its own way. -/
structure Watch where
  /-- What a block is called that is entered at a depth. -/
  name : Nat → NodeKind
  /-- What is done where a level is to be entered at the limit. -/
  beyond : State → State

variable (W : Watch) (config : Config)

/-- Enters a level if the depth is less than the limit. -/
def Watch.enter (body : State → State) (s : State) : State :=
  if s.depth < config.maxDepth then s.nested body else W.beyond s

/-- A construct under a watch. -/
def watchedConstruct : Nat → ConstructRule
  | 0, kind, s => construct config 0 kind s
  | room + 1, .expr least recovery, s =>
    W.enter config (during .expression (exprBody config (watchedConstruct room) least recovery)) s
  | room + 1, .type recovery, s =>
    if atTypeStart s then
      W.enter config (during .expression (typeBody (watchedConstruct room) recovery)) s
    else s.absent "type" recovery

/-- What a block consists of, over rules for the constructs and the blocks inside it. -/
def bodyOver (inner : ConstructRule) (block : State → State) (s : State) : State :=
  (s.bump.during .block <| withBreaks true fun s => s.repeatStep fun s =>
    if s.isAt .rightBrace || s.atEnd then (false, s)
    else (true, statementItem config inner block s)).expect .rightBrace

/-- A block under a watch. -/
def watchedBlock : Nat → State → State
  | 0, s => block config 0 s
  | room + 1, s =>
    if s.isAt .leftBrace then
      let body := bodyOver config (watchedConstruct W config room) (watchedBlock room)
      W.enter config (node (W.name s.depth) body) s
    else s.placeholder "`\x7b`"

/-- A program over rules for the constructs and the blocks inside it. -/
def programOver (halts : Nat → Bool) (inner : ConstructRule) (block : State → State)
    (s : State) : State :=
  s.node .root <| repeatStep fun s =>
    if s.atEnd || halts s.current.token.start then (false, s)
    else (true, statementItem config inner block s)

/-- A program under a watch. -/
def watchedProgram (halts : Nat → Bool) : State → State :=
  programOver config halts (watchedConstruct W config config.maxDepth)
    (watchedBlock W config config.maxDepth)

/-- A state inside so many blocks, with the blocks that have been read named by their depth. -/
def State.renamed (name : Nat → NodeKind) (level : Nat) (s : State) : State :=
  { s with pieces := Shape.renamedAll name level s.pieces }

/-- A state is another one, with the blocks that have been read named by their depth. What has been
written is another thing. -/
def State.Renames (name : Nat → NodeKind) (level : Nat) (s t : State) : Prop :=
  ∃ record, t = { s.renamed name level with record := record }

section Renamed

variable {name : Nat → NodeKind} {level : Nat} {s s' t t' : State}

namespace State.Renames

theorem ahead (renames : s.Renames name level t) : t.ahead = s.ahead := by
  obtain ⟨record, rfl⟩ := renames
  rfl

theorem depth (renames : s.Renames name level t) : t.depth = s.depth := by
  obtain ⟨record, rfl⟩ := renames
  rfl

theorem agree (renames : s.Renames name level t) : Agree s t := by
  obtain ⟨record, rfl⟩ := renames
  exact ⟨rfl, fun _ => rfl, rfl, Iff.rfl⟩

theorem bump (renames : s.Renames name level t) : s.bump.Renames name level t.bump := by
  obtain ⟨record, rfl⟩ := renames
  cases ahead : s.ahead with
  | nil => exact ⟨record, by simp [State.bump, State.renamed, ahead]⟩
  | cons next rest =>
    refine ⟨record.token, ?_⟩
    simp [State.bump, State.renamed, ahead, Shape.renamedAll, Shape.renamed]

theorem report (code : DiagnosticCode) (message : String) (span : Span)
    (renames : s.Renames name level t) :
    (s.report code message span).Renames name level (t.report code message span) := by
  obtain ⟨record, rfl⟩ := renames
  refine ⟨record, ?_⟩
  simp only [State.report, apply_ite (State.renamed name level)]
  change (if (s.atEnd && s.endReported) = true then _ else _) = _
  split <;> rfl

theorem unexpected (expected : String) (renames : s.Renames name level t) :
    (s.unexpected expected).Renames name level (t.unexpected expected) := by
  obtain ⟨record, rfl⟩ := renames
  exact report _ _ _ ⟨record, rfl⟩

theorem missing (expected : String) (renames : s.Renames name level t) :
    (s.missing expected).Renames name level (t.missing expected) := by
  obtain ⟨record, rfl⟩ := renames
  rw [State.missing, State.missing]
  change State.Renames _ _ (if s.atEnd = true then _ else _) (if s.atEnd = true then _ else _)
  split
  · exact unexpected expected ⟨record, rfl⟩
  · exact report _ _ _ ⟨record, rfl⟩

theorem openNode (renames : s.Renames name level t) (inside : Nat) :
    s.openNode.Renames name inside t.openNode := by
  obtain ⟨record, rfl⟩ := renames
  exact ⟨record.start, rfl⟩

theorem closeNode (kind : NodeKind) (renames : s.Renames name level t)
    (inner : s'.Renames name (kind.levelInside level) t') :
    (closeNode s kind s').Renames name level
      (State.closeNode t (kind.renamed name level) t') := by
  obtain ⟨record, rfl⟩ := renames
  obtain ⟨record', rfl⟩ := inner
  refine ⟨record'.complete record.place (kind.renamed name level), ?_⟩
  simp only [State.closeNode, State.renamed, Shape.renamedAll, Shape.renamed,
    Shape.renamedAll_reverse]

theorem precedeNode (renames : s.Renames name level t) :
    s.precedeNode.Renames name level t.precedeNode := by
  obtain ⟨record, rfl⟩ := renames
  exact ⟨record.precede, rfl⟩

theorem closeWrap (kind : NodeKind) (other : kind ≠ .block) (renames : s.Renames name level t)
    (inner : s'.Renames name level t') :
    (closeWrap s kind s').Renames name level (State.closeWrap t kind t') := by
  obtain ⟨record, rfl⟩ := renames
  obtain ⟨record', rfl⟩ := inner
  refine ⟨record'.complete record.place kind, ?_⟩
  cases pieces : s.pieces <;>
    simp [State.closeWrap, State.renamed, Shape.renamedAll, Shape.renamed, Shape.renamedAll_reverse,
      pieces, NodeKind.renamed, NodeKind.levelInside, other]

end State.Renames

/-- From a depth on a run and a watched one are the same, but for the names of the blocks, and the
watched one writes what it reads. -/
structure Watching (name : Nat → NodeKind) (level depth : Nat) (s t s' t' : State) : Prop
    extends Restores s s' where
  same : s.depth = depth → s.Renames name level t → s'.Renames name level t' ∧ Writes t t'

namespace Watching

variable {depth : Nat} {s'' t'' u : State}

theorem trans (first : Watching name level depth s t s' t')
    (second : Watching name level depth s' t' s'' t'') : Watching name level depth s t s'' t'' := by
  refine ⟨first.toRestores.trans second.toRestores, fun here renames => ?_⟩
  obtain ⟨renames', writes⟩ := first.same here renames
  obtain ⟨renames'', writes'⟩ :=
    second.same ((congrArg Context.depth first.context).trans here) renames'
  exact ⟨renames'', writes.trans writes'⟩

theorem apart (run : Restores s s') (differs : ¬ Agree s t) :
    Watching name level depth s t s' t' :=
  ⟨run, fun _ renames => absurd renames.agree differs⟩

theorem adrift (step : Watching name level depth s t s' t') (differs : ¬ Agree s' t') :
    Watching name level depth s t s' u :=
  ⟨step.toRestores, fun here renames => absurd (step.same here renames).1.agree differs⟩

/-- One rule on both sides, which does not look at names. -/
theorem of_renames {rule : State → State} (run : Restores s (rule s))
    (renames : s.Renames name level t → (rule s).Renames name level (rule t))
    (writes : Writes t (rule t)) : Watching name level depth s t (rule s) (rule t) :=
  ⟨run, fun _ begin => ⟨renames begin, writes⟩⟩

theorem progress (step : Watching name level depth s t s' t') :
    (t'.ahead.length ≤ t.ahead.length ∧
      (s'.ahead.length < s.ahead.length ↔ t'.ahead.length < t.ahead.length)) ∨
        ∀ u, Watching name level depth s t s' u := by
  by_cases here : s.depth = depth ∧ s.Renames name level t
  · obtain ⟨renames, writes⟩ := step.same here.1 here.2
    rw [renames.ahead, here.2.ahead]
    exact .inl ⟨step.shrinks, Iff.rfl⟩
  · exact .inr fun u => ⟨step.toRestores, fun at' same => absurd ⟨at', same⟩ here⟩

/-- Where the second run counts it is not free. -/
theorem not_free (here : s.depth = depth) (renames : s.Renames name level t)
    (free : ∀ u, Watching name level depth s t s' u) : False :=
  Nat.succ_ne_self s'.depth ((free { s' with depth := s'.depth + 1 }).same here renames).1.depth

theorem closeNode {kind kind' : NodeKind} (other : kind ≠ .block)
    (step : Watching name level depth s.openNode t.openNode s' t')
    (kinds : kind = kind' ∨ ∀ u, Watching name level depth s.openNode t.openNode s' u) :
    Watching name level depth s t (State.closeNode s kind s') (State.closeNode t kind' t') := by
  refine ⟨step.toRestores.closeNode kind, fun here renames => ?_⟩
  rcases kinds with rfl | free
  · obtain ⟨inner, writes⟩ := step.same here (renames.openNode level)
    have inside : kind.levelInside level = level := if_neg other
    have named : kind.renamed name level = kind := if_neg other
    have closed := renames.closeNode kind (inside.symm ▸ inner)
    rw [named] at closed
    exact ⟨closed, writes.closeNode kind⟩
  · exact (not_free (s := s.openNode) here (renames.openNode level) free).elim

end Watching

/-- That a run and a watched one are the same but for names is a coupling. -/
def watching (name : Nat → NodeKind) (level depth : Nat) : Coupling where
  Step := Watching name level depth
  refl s t := ⟨.refl s, fun _ renames => ⟨renames, .refl t⟩⟩
  trans := .trans
  apart step := .apart step.toRestores
  adrift := .adrift
  shrinks step := step.shrinks
  progress_step := Watching.progress
  bump_step s t := .of_renames (.bump s) .bump (.bump t)
  unexpected_step expected s _ :=
    .of_renames (.unexpected expected s) (.unexpected expected) (.report ..)
  missing_step expected s t :=
    .of_renames (.missing expected s) (.missing expected) (.missing expected t)
  tooDeep_step limit s t _ inside :=
    @Watching.of_renames _ _ _ _ _
      (fun s => s.report .nestingTooDeep (depthMessage limit) s.current.token.span)
      (.tooDeep limit inside)
      (by
        rintro ⟨record, rfl⟩
        exact .report _ _ _ ⟨record, rfl⟩)
      (.report ..)
  during_step phase _ _ _ _ step := by
    refine ⟨step.toRestores.during phase, ?_⟩
    rintro here ⟨record, rfl⟩
    obtain ⟨⟨record', rfl⟩, writes⟩ := step.same here ⟨record, rfl⟩
    exact ⟨⟨record', rfl⟩, writes.written, writes.shrinks⟩
  breaks_step _ _ _ _ _ step := by
    refine ⟨step.toRestores.popBreaks, ?_⟩
    rintro here ⟨record, rfl⟩
    obtain ⟨⟨record', rfl⟩, writes⟩ := step.same here ⟨record, rfl⟩
    exact ⟨⟨record', rfl⟩, writes.written, writes.shrinks⟩
  node_step other step kinds := step.closeNode other kinds
  wrap_step kind _ _ _ _ other step := by
    refine ⟨step.toRestores.closeWrap kind, fun here renames => ?_⟩
    obtain ⟨inner, writes⟩ := step.same here renames.precedeNode
    exact ⟨renames.closeWrap kind other inner, writes.closeWrap kind⟩

namespace Watching

variable {depth : Nat}

/-- The node of a block, inside which one more block is around everything. -/
theorem closeBlock {named : NodeKind}
    (step : Watching name (level + 1) depth s.openNode t.openNode s' t')
    (names : s.depth = depth → s.Renames name level t → named = name level) :
    Watching name level depth s t (State.closeNode s .block s') (State.closeNode t named t') := by
  refine ⟨step.toRestores.closeNode .block, fun here renames => ?_⟩
  rw [names here renames]
  obtain ⟨inner, writes⟩ := step.same here (renames.openNode (level + 1))
  exact ⟨renames.closeNode .block inner, writes.closeNode (name level)⟩

variable {W : Watch} {config : Config} {r q : State → State}

/-- A level that is entered below the limit. -/
theorem enter (less : depth < config.maxDepth)
    (step : Watching name level (depth + 1) { s with depth := s.depth + 1 }
      { t with depth := t.depth + 1 } (r { s with depth := s.depth + 1 })
      (q { t with depth := t.depth + 1 })) :
    Watching name level depth s t (s.nested r) (W.enter config q t) := by
  refine ⟨step.toRestores.nested, ?_⟩
  rintro rfl ⟨record, rfl⟩
  rw [Watch.enter, if_pos (show (s.renamed name level).depth < config.maxDepth from less)]
  obtain ⟨⟨record', same⟩, writes⟩ := step.same rfl ⟨record, rfl⟩
  refine ⟨⟨record', ?_⟩, writes.written, writes.shrinks⟩
  simp only [State.nested, same]
  rfl

end Watching

section Rules

variable (W : Watch) (config : Config)

theorem coupled_watchedConstruct (level : Nat) {room depth : Nat}
    (full : depth + room = config.maxDepth) (kind : Construct) :
    (watching W.name level depth).Coupled (construct config room kind)
      (watchedConstruct W config room kind) := by
  induction room generalizing depth kind with
  | zero =>
    cases kind with
    | expr least recovery => exact .recoverTooDeep _
    | type recovery =>
      exact .ite Coupling.tested_atTypeStart (.recoverTooDeep _) (.absent "type" recovery)
  | succ room ih =>
    have less : depth < config.maxDepth := by omega
    have inner (kind : Construct) := ih (show depth + 1 + room = config.maxDepth by omega) kind
    cases kind with
    | expr least recovery =>
      exact fun s t => .enter less
        (Coupling.Coupled.during .expression
          (Coupling.coupled_exprBody inner config least recovery) _ _)
    | type recovery =>
      exact .ite Coupling.tested_atTypeStart
        (fun s t => .enter less
          (Coupling.Coupled.during .expression (Coupling.coupled_typeBody inner recovery) _ _))
        (.absent "type" recovery)

theorem coupled_bodyOver {C : Coupling} {inner inner' : ConstructRule}
    {block block' : State → State}
    (constructs : ∀ kind, C.Coupled (inner kind) (inner' kind)) (blocks : C.Coupled block block') :
    C.Coupled (bodyOver config inner block) (bodyOver config inner' block') := by
  have items := Coupling.Coupled.repeatStep (C := C) <|
    .ite ((Coupling.tested_isAt .rightBrace).or Coupling.tested_atEnd) (.always false .id) <|
    .always true (Coupling.coupled_statementItem constructs blocks config)
  exact (Coupling.Coupled.expect .rightBrace).comp
    (((items.withBreaks true).during .block).comp .bump)

theorem coupled_watchedBlock {room depth : Nat} (full : depth + room = config.maxDepth) :
    (watching W.name depth depth).Coupled (block config room) (watchedBlock W config room) := by
  induction room generalizing depth with
  | zero => exact .ite (Coupling.tested_isAt .leftBrace) (.recoverTooDeep _) (.placeholder _)
  | succ room ih =>
    have less : depth < config.maxDepth := by omega
    have deeper : depth + 1 + room = config.maxDepth := by omega
    have body := coupled_bodyOver config
      (coupled_watchedConstruct W config (depth + 1) deeper) (ih deeper)
    refine .ite (Coupling.tested_isAt .leftBrace) (fun s t => .enter less ?_) (.placeholder _)
    refine .closeBlock (body _ _) fun here renames => congrArg W.name ?_
    have depths : t.depth + 1 = s.depth + 1 := renames.depth
    have here : s.depth + 1 = depth + 1 := here
    omega

/-- A test that does not look at names. -/
theorem Watching.ite {name : Nat → NodeKind} {level depth : Nat} {test : State → Bool}
    {r q r' q' : State → Bool × State}
    (blind : ∀ s record, test { s.renamed name level with record := record } = test s)
    (yes : (watching name level depth).CoupledWith r q)
    (no : (watching name level depth).CoupledWith r' q') :
    (watching name level depth).CoupledWith (fun s => if test s then r s else r' s)
      (fun t => if test t then q t else q' t) := by
  intro s t
  by_cases here : s.Renames name level t
  · obtain ⟨record, rfl⟩ := here
    simp only [blind]
    split
    · exact yes s _
    · exact no s _
  · have run : Restores s (if test s then r s else r' s).2 := by
      split
      · exact (yes s s).1.toRestores
      · exact (no s s).1.toRestores
    have free (u : State) : Watching name level depth s t (if test s then r s else r' s).2 u :=
      ⟨run, fun _ renames => absurd renames here⟩
    exact ⟨free _, .inr free⟩

theorem coupled_watchedProgram (halts : Nat → Bool) :
    (watching W.name 0 0).Coupled (program config halts) (watchedProgram W config halts) := by
  have full : 0 + config.maxDepth = config.maxDepth := Nat.zero_add _
  have item := Coupling.coupled_statementItem (coupled_watchedConstruct W config 0 full)
    (coupled_watchedBlock W config full) config
  have step := @Watching.ite W.name 0 0 (endsProgram halts) _ _ _ _ (fun _ _ => rfl)
    (.always false .id) (.always true item)
  exact .node .root nofun (.repeatStep step)

end Rules

end Renamed

/-- Rules leave the context as they found it, and are the same under a watch, where they write what
they read. So whatever the watch does in place of entering a level at the limit, no level is entered
there, from a state on where there is room for as many levels as the limit says; and in a program each
block is entered at a depth that is the number of blocks around it, since it is called by the name for
either. -/
theorem contexts_restored (config : Config) :
    (∀ (rule : Rule) (room : Nat) (s : State),
      (rule.run config (construct config room) (block config room) s).context = s.context ∧
        ∀ W : Watch, s.depth + room = config.maxDepth → ∀ t, s.Renames W.name s.depth t →
          let t' := rule.run config (watchedConstruct W config room) (watchedBlock W config room) t
          (rule.run config (construct config room) (block config room) s).Renames W.name s.depth t' ∧
            Writes t t') ∧
    ∀ (W : Watch) (halts : Nat → Bool) (textLength : Nat) (source : TokenSource),
      let last := watchedProgram W config halts (.initial source textLength 0)
      (program config halts (.initial source textLength 0)).Renames W.name 0 last ∧
        last.record.events.toList = Shape.eventsOfAll last.pieces.reverse := by
  refine ⟨fun rule room s => ⟨(rule.restores config room s).context, fun W full t renames => ?_⟩, ?_⟩
  · have coupled := rule.coupled (coupled_watchedConstruct W config s.depth full)
      (coupled_watchedBlock W config full) config
    exact (coupled s t).same rfl renames
  · intro W halts textLength source
    obtain ⟨renames, writes⟩ :=
      (coupled_watchedProgram W config halts (.initial source textLength 0) _).same rfl ⟨_, rfl⟩
    exact ⟨renames, (writes.written [] (written_initial ..)).toList⟩

/-- A block that is the first one inside another block, at a limit of two levels. -/
theorem contexts_restored_in_block :
    let s := State.initial (.onDemand (.ofText "\x7b a \x7d" 3)) 5 1
    let W : Watch := ⟨fun depth => if depth = 1 then .root else .block, State.bump⟩
    s.depth + 1 = 2 ∧ (block ⟨3, .standard, 2⟩ 1 s).context = s.context ∧
      s.Renames W.name 1 s ∧
      (block ⟨3, .standard, 2⟩ 1 s).Renames W.name 1 (watchedBlock W ⟨3, .standard, 2⟩ 1 s) := by
  intro s W
  obtain ⟨context, watched⟩ := (contexts_restored ⟨3, .standard, 2⟩).1 .block 1 s
  have renames : s.Renames W.name 1 s := ⟨s.record, rfl⟩
  exact ⟨rfl, context, renames, (watched W rfl s renames).1⟩

end Grammar

end LosslessSyntax
