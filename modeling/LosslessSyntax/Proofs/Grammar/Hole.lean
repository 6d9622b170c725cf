import LosslessSyntax.Proofs.Grammar.BlockRun
import LosslessSyntax.Proofs.Tree.Exchange

/-! # Runs over texts that differ in one block

The first run goes over a text with a certain block, the second one over a text with another block
in its place. A `Hole` describes the two: what is ahead where the blocks begin, and what is known
about them. Both runs keep abreast before the block (`Hole.Before`). When the first run reads the
block, nested as deeply as it is said to be, the second run reads the other one, and from there on
the outline of the second is that of the first with the block exchanged (`Hole.After`). Any other
first run has passed the place without such a block (`Hole.Missed`). `Hole.coupling` makes this a
coupling of rules that are inside as many blocks as the hole counts on; one more level is one block
node (`through_block`).
-/

namespace LosslessSyntax.Grammar

open State Outline

/-- Two texts that differ in one block. -/
structure Hole where
  /-- How spans before the block correspond to each other. -/
  before : Span → Span → Prop
  /-- How spans after the block correspond to each other. -/
  after : Span → Span → Prop
  /-- Whether the reports have to correspond. -/
  reports : Prop
  /-- What is ahead of the first run where its block begins. -/
  old : List Lookahead
  /-- What is ahead of the second run where its block begins. -/
  new : List Lookahead
  /-- What is ahead of the first run where its block ends. -/
  rest : List Lookahead
  /-- What is ahead of the second run where its block ends. -/
  newRest : List Lookahead
  /-- The end of the tokens of the first run. -/
  oldEnd : Lookahead
  /-- The end of the tokens of the second run. -/
  newEnd : Lookahead
  /-- What the block of the second run holds. -/
  children : List Outline
  /-- What is known of the reports that the first run makes in its block. -/
  oldLog : List Diagnostic → Prop
  /-- What is known of the reports that the second run makes in its block. -/
  newLog : List Diagnostic → Prop
  old_longer : rest.length < old.length
  new_longer : rest.length < new.length

namespace Hole

variable (h : Hole)

/-- Number of tokens of the block of the first run. -/
def size : Nat := h.old.length - h.rest.length

/-- The link of the tokens before the block. -/
def linkBefore : Link := ⟨h.before, h.reports⟩

/-- The link of the tokens after the block. -/
def linkAfter : Link := ⟨h.after, h.reports⟩

/-- Both runs stand before the block. -/
structure Before (s t : State) : Prop where
  abreast : Abreast h.linkBefore h.old h.new s t
  pieces : s.pieces = t.pieces
  inside : ∀ a ∈ s.ahead, a.kind ≠ .eof
  inside' : ∀ a ∈ t.ahead, a.kind ≠ .eof
  finish : s.finish = h.oldEnd
  finish' : t.finish = h.newEnd
  ended : h.reports → s.endReported = false ∧ t.endReported = false

/-- Both runs have read the block, inside `depth` blocks of the innermost open node. -/
structure After (depth : Nat) (s t : State) : Prop where
  abreast : Abreast h.linkAfter [] [] s t
  passed : s.ahead.length ≤ h.rest.length
  outline : t.outline = exchangeAll h.old.length h.children depth s.extent s.outline

/-- The first run has passed the place and has read no such block, or it has reported the end of the
text where reports have to correspond. -/
def Missed (depth : Nat) (s : State) : Prop :=
  (s.ahead.length < h.old.length ∧ ¬ HasBlockAll h.old.length h.size depth s.extent s.outline) ∨
    (h.reports ∧ ∃ d ∈ s.reports.items, d.code = .unexpectedEnd)

/-- What two runs report that go across the block. -/
def LoggedAcross (s t s' t' : State) : Prop :=
  h.reports → ∃ before before' within within' after after',
    s'.reports = s.reports.extend (before ++ within ++ after) ∧
    t'.reports = t.reports.extend (before' ++ within' ++ after') ∧
    List.Forall₂ (SameReport h.linkBefore) before before' ∧
    h.oldLog within ∧ h.newLog within' ∧
    List.Forall₂ (SameReport h.linkAfter) after after'

/-- Two runs that go across the block. -/
structure Crosses (depth : Nat) (s t s' t' : State) : Prop where
  after : h.After depth s' t'
  logged : h.LoggedAcross s t s' t'
  run : Runs t t'

/-- What becomes of two runs that stood before the block. -/
inductive Outcome (depth : Nat) (s t s' t' : State) : Prop where
  | before (keeps : Keeps h.linkBefore h.old h.new s t s' t') (still : h.Before s' t')
  | crosses (crosses : h.Crosses depth s t s' t')
  | missed (missed : h.Missed depth s')

/-- The relation of two runs over the two texts. -/
structure Step (depth : Nat) (s t s' t' : State) : Prop where
  run : Runs s s'
  ofBefore : h.Before s t → h.Outcome depth s t s' t'
  ofAfter : h.After depth s t → h.After depth s' t' ∧ Keeps h.linkAfter [] [] s t s' t'
  ofMissed : h.Missed depth s → h.Missed depth s'

variable {h} {depth : Nat} {s t s' t' s'' t'' : State}

theorem length_of_before (before : h.Before s t) : h.old.length ≤ s.ahead.length := by
  obtain ⟨count, length, -⟩ := before.abreast.length_eq
  omega

theorem not_after_of_before (before : h.Before s t) : ¬ h.After depth s t := fun after => by
  have := length_of_before before
  have := after.passed
  have := h.old_longer
  omega

/-- A run that has not come to the block yet has not read it. -/
theorem not_hasBlock (early : h.old.length ≤ s.ahead.length) :
    ¬ HasBlockAll h.old.length h.size depth s.extent s.outline := fun has => by
  have := has.within
  have := h.old_longer
  simp only [State.extent, size] at *
  omega

theorem exchange_early (early : h.old.length ≤ s.ahead.length) :
    exchangeAll h.old.length h.children depth s.extent s.outline = s.outline :=
  exchangeAll_apart _ (.inr (by rw [State.extent]; omega))

theorem Before.of_keeps (before : h.Before s t) (run : Runs s s')
    (keeps : Keeps h.linkBefore h.old h.new s t s' t') (same : s'.pieces = t'.pieces) :
    h.Before s' t' where
  abreast := keeps.abreast
  pieces := same
  inside := fun a member => before.inside a (run.mem_of_mem member)
  inside' := fun a member => before.inside' a (keeps.run.mem_of_mem member)
  finish := run.finish.trans before.finish
  finish' := keeps.run.finish.trans before.finish'
  ended := fun asked => by
    have early : s'.ahead ≠ [] := fun none => by
      obtain ⟨count, length, -⟩ := keeps.abreast.length_eq
      have := h.old_longer
      rw [none, List.length_nil] at length
      omega
    rw [run.endReported_eq before.inside early,
      keeps.run.endReported_eq before.inside' (mt keeps.abreast.nil_iff.mpr early)]
    exact before.ended asked

theorem missed_of_still (ahead : s'.ahead = s.ahead) (pieces : s'.pieces = s.pieces)
    (kept : ∀ d ∈ s.reports.items, d ∈ s'.reports.items) (missed : h.Missed depth s) :
    h.Missed depth s' := by
  have outline : s'.outline = s.outline := by rw [State.outline, pieces, State.outline]
  rcases missed with ⟨passed, none⟩ | ⟨asked, d, member, code⟩
  · refine .inl ⟨ahead ▸ passed, ?_⟩
    rw [State.extent, outline, ahead]
    exact none
  · exact .inr ⟨asked, d, kept d member, code⟩

theorem After.of_still (after : h.After depth s t) (abreast : Abreast h.linkAfter [] [] s' t')
    (ahead : s'.ahead = s.ahead) (pieces : s'.pieces = s.pieces) (pieces' : t'.pieces = t.pieces) :
    h.After depth s' t' where
  abreast := abreast
  passed := ahead ▸ after.passed
  outline := by
    have outline : s'.outline = s.outline := by rw [State.outline, pieces, State.outline]
    have outline' : t'.outline = t.outline := by rw [State.outline, pieces', State.outline]
    rw [State.extent, outline, outline', ahead]
    exact after.outline

namespace Step

theorem refl (s t : State) : h.Step depth s t s t :=
  ⟨.refl s, fun before => .before (.refl before.abreast) before,
    fun after => ⟨after, .refl after.abreast⟩, id⟩

theorem trans (first : h.Step depth s t s' t') (second : h.Step depth s' t' s'' t'') :
    h.Step depth s t s'' t'' := by
  refine ⟨first.run.trans second.run, fun before => ?_, fun after => ?_,
    fun missed => second.ofMissed (first.ofMissed missed)⟩
  · rcases first.ofBefore before with ⟨keeps, still⟩ | ⟨after, logged, run⟩ | missed
    · rcases second.ofBefore still with ⟨keeps', still⟩ | ⟨after, logged, run⟩ | missed
      · exact .before (keeps.trans keeps') still
      · refine .crosses ⟨after, fun asked => ?_, keeps.run.trans run⟩
        obtain ⟨log, log', made, made', same⟩ := keeps.logged asked
        obtain ⟨l, l', m, m', n, n', made₂, made₂', same₁, within, within', same₂⟩ := logged asked
        refine ⟨log ++ l, log' ++ l', m, m', n, n', ?_, ?_, List.rel_append same same₁, within, within',
          same₂⟩
        · rw [made₂, made, ← Diagnostics.extend_append, List.append_assoc, List.append_assoc,
            List.append_assoc]
        · rw [made₂', made', ← Diagnostics.extend_append, List.append_assoc, List.append_assoc,
            List.append_assoc]
      · exact .missed missed
    · obtain ⟨after', keeps⟩ := second.ofAfter after
      refine .crosses ⟨after', fun asked => ?_, run.trans keeps.run⟩
      obtain ⟨log, log', made, made', same⟩ := keeps.logged asked
      obtain ⟨l, l', m, m', n, n', made₂, made₂', same₁, within, within', same₂⟩ := logged asked
      refine ⟨l, l', m, m', n ++ log, n' ++ log', ?_, ?_, same₁, within, within',
        List.rel_append same₂ same⟩
      · rw [made, made₂, ← Diagnostics.extend_append, List.append_assoc]
      · rw [made', made₂', ← Diagnostics.extend_append, List.append_assoc]
    · exact .missed (second.ofMissed missed)
  · obtain ⟨after', keeps⟩ := first.ofAfter after
    obtain ⟨after'', keeps'⟩ := second.ofAfter after'
    exact ⟨after'', keeps.trans keeps'⟩

theorem apart {u u' : State} (step : h.Step depth s u s' u') (differs : ¬ Agree s t) :
    h.Step depth s t s' t' :=
  ⟨step.run, fun before => absurd before.abreast.agree differs,
    fun after => absurd after.abreast.agree differs, step.ofMissed⟩

theorem adrift {u : State} (step : h.Step depth s t s' t') (differs : ¬ Agree s' t') :
    h.Step depth s t s' u := by
  refine ⟨step.run, fun before => ?_, fun after => ?_, step.ofMissed⟩
  · rcases step.ofBefore before with ⟨keeps, -⟩ | ⟨after, -, -⟩ | missed
    · exact absurd keeps.abreast.agree differs
    · exact absurd after.abreast.agree differs
    · exact .missed missed
  · exact absurd (step.ofAfter after).1.abreast.agree differs

theorem progress (step : h.Step depth s t s' t') :
    (t'.ahead.length ≤ t.ahead.length ∧
      (s'.ahead.length < s.ahead.length ↔ t'.ahead.length < t.ahead.length)) ∨
        ∀ u, h.Step depth s t s' u := by
  have shrinks := step.run.shrinks
  by_cases before : h.Before s t
  · obtain ⟨count, length, length'⟩ := before.abreast.length_eq
    rcases step.ofBefore before with ⟨keeps, -⟩ | ⟨after, -, -⟩ | missed
    · obtain ⟨count', left, left'⟩ := keeps.abreast.length_eq
      exact .inl ⟨by omega, by omega⟩
    · obtain ⟨count', left, left'⟩ := after.abreast.length_eq
      have passed := after.passed
      have := h.old_longer
      have := h.new_longer
      simp only [List.length_nil] at left left'
      exact .inl ⟨by omega, by omega⟩
    · exact .inr fun u => ⟨step.run, fun _ => .missed missed,
        fun after => absurd after (not_after_of_before before), step.ofMissed⟩
  by_cases after : h.After depth s t
  · obtain ⟨count, length, length'⟩ := after.abreast.length_eq
    obtain ⟨count', left, left'⟩ := (step.ofAfter after).1.abreast.length_eq
    simp only [List.length_nil] at length length' left left'
    exact .inl ⟨by omega, by omega⟩
  · exact .inr fun u => ⟨step.run, fun other => absurd other before,
      fun other => absurd other after, step.ofMissed⟩

/-- A step that does nothing but report. -/
theorem of_still (run : Runs s s') (ahead : s'.ahead = s.ahead) (pieces : s'.pieces = s.pieces)
    (pieces' : t'.pieces = t.pieces)
    (keeps : ∀ {L u u'}, Abreast L u u' s t → Keeps L u u' s t s' t') :
    h.Step depth s t s' t' where
  run := run
  ofBefore before := by
    have keeps := keeps before.abreast
    exact .before keeps (before.of_keeps run keeps (by rw [pieces, pieces', before.pieces]))
  ofAfter after := by
    have keeps := keeps after.abreast
    exact ⟨after.of_still keeps.abreast ahead pieces pieces', keeps⟩
  ofMissed missed := missed_of_still ahead pieces run.kept missed

theorem bump (s t : State) : h.Step depth s t s.bump t.bump where
  run := .bump s
  ofBefore before := by
    by_cases early : h.old.length ≤ s.bump.ahead.length
    · have keeps := Keeps.bump before.abreast early
      refine .before keeps (before.of_keeps (.bump s) keeps ?_)
      have empty := before.abreast.nil_iff
      rw [State.bump, State.bump]
      cases ahead : s.ahead <;> cases ahead' : t.ahead <;> simp_all [before.pieces]
    · -- consuming the first token of the block outside of a block misses it
      refine .missed (.inl ⟨by omega, ?_⟩)
      rw [(Runs.bump s).extent, outline_bump, hasBlockAll_append]
      rintro (has | has)
      · exact not_hasBlock (length_of_before before) has
      · split at has <;> simp at has
  ofAfter after := by
    have keeps := Keeps.bump after.abreast (Nat.zero_le _)
    refine ⟨⟨keeps.abreast, ?_, ?_⟩, keeps⟩
    · exact Nat.le_trans (Runs.bump s).shrinks after.passed
    · have empty := after.abreast.nil_iff
      rw [(Runs.bump s).extent, outline_bump, outline_bump, exchangeAll_append, after.outline]
      cases ahead : s.ahead <;> cases ahead' : t.ahead <;> simp_all
  ofMissed missed := by
    rcases missed with ⟨passed, none⟩ | ⟨asked, d, member, code⟩
    · refine .inl ⟨Nat.lt_of_le_of_lt (Runs.bump s).shrinks passed, ?_⟩
      rw [(Runs.bump s).extent, outline_bump, hasBlockAll_append]
      rintro (has | has)
      · exact none has
      · split at has <;> simp at has
    · exact .inr ⟨asked, d, (Runs.bump s).kept d member, code⟩

/-- How deeply the states are nested and what is being read there makes no difference. -/
theorem of_context {depth₁ depth₂ depth₃ depth₄ : Nat} {phases₁ phases₂ phases₃ phases₄ : List Phase}
    (step : h.Step depth { s with depth := depth₁, phases := phases₁ }
      { t with depth := depth₂, phases := phases₂ } s' t') :
    h.Step depth s t { s' with depth := depth₃, phases := phases₃ }
      { t' with depth := depth₄, phases := phases₄ } where
  run := step.run.of_context
  ofBefore before := by
    have inner := step.ofBefore ⟨before.abreast.of_context, before.pieces, before.inside,
      before.inside', before.finish, before.finish', before.ended⟩
    rcases inner with ⟨keeps, still⟩ | ⟨after, logged, run⟩ | missed
    · exact .before keeps.of_context ⟨still.abreast.of_context, still.pieces, still.inside,
        still.inside', still.finish, still.finish', still.ended⟩
    · exact .crosses ⟨⟨after.abreast.of_context, after.passed, after.outline⟩, logged,
        run.of_context⟩
    · exact .missed missed
  ofAfter after := by
    obtain ⟨after, keeps⟩ := step.ofAfter ⟨after.abreast.of_context, after.passed, after.outline⟩
    exact ⟨⟨after.abreast.of_context, after.passed, after.outline⟩, keeps.of_context⟩
  ofMissed missed := step.ofMissed missed

theorem popBreaks {matter : Bool} (step : h.Step depth (s.pushBreaks matter) (t.pushBreaks matter) s' t') :
    h.Step depth s t s'.popBreaks t'.popBreaks where
  run := step.run.popBreaks
  ofBefore before := by
    have inner := step.ofBefore ⟨before.abreast.pushBreaks matter, before.pieces, before.inside,
      before.inside', before.finish, before.finish', before.ended⟩
    rcases inner with ⟨keeps, still⟩ | ⟨after, logged, run⟩ | missed
    · have keeps := keeps.popBreaks step.run before.abreast
      exact .before keeps ⟨keeps.abreast, still.pieces, still.inside, still.inside', still.finish,
        still.finish', still.ended⟩
    · refine .crosses ⟨⟨?_, after.passed, after.outline⟩, logged, run.popBreaks⟩
      exact after.abreast.popBreaks step.run run before.abreast.modes
    · exact .missed missed
  ofAfter after := by
    obtain ⟨after', keeps⟩ :=
      step.ofAfter ⟨after.abreast.pushBreaks matter, after.passed, after.outline⟩
    have keeps := keeps.popBreaks step.run after.abreast
    exact ⟨⟨keeps.abreast, after'.passed, after'.outline⟩, keeps⟩
  ofMissed missed := step.ofMissed missed

/-- Inside a node that is begun now nothing has been read. -/
theorem before_openNode (before : h.Before s t) : h.Before s.openNode t.openNode :=
  ⟨before.abreast.openNode, rfl, before.inside, before.inside', before.finish, before.finish',
    before.ended⟩

theorem before_precedeNode (before : h.Before s t) : h.Before s.precedeNode t.precedeNode :=
  ⟨before.abreast.precedeNode, rfl, before.inside, before.inside', before.finish, before.finish',
    before.ended⟩

theorem after_openNode {inner : Nat} (after : h.After depth s t) :
    h.After inner s.openNode t.openNode := by
  refine ⟨after.abreast.openNode, after.passed, ?_⟩
  rw [outline_openNode, outline_openNode, exchangeAll_nil]

theorem after_precedeNode {inner : Nat} (after : h.After depth s t) :
    h.After inner s.precedeNode t.precedeNode := by
  refine ⟨after.abreast.precedeNode, after.passed, ?_⟩
  rw [outline_precedeNode, outline_precedeNode, exchangeAll_nil]

theorem missed_openNode {inner : Nat} (missed : h.Missed depth s) : h.Missed inner s.openNode := by
  rcases missed with ⟨passed, -⟩ | reported
  · exact .inl ⟨passed, by rw [outline_openNode]; exact hasBlockAll_nil⟩
  · exact .inr reported

theorem missed_precedeNode {inner : Nat} (missed : h.Missed depth s) :
    h.Missed inner s.precedeNode := by
  rcases missed with ⟨passed, -⟩ | reported
  · exact .inl ⟨passed, by rw [outline_precedeNode]; exact hasBlockAll_nil⟩
  · exact .inr reported

/-- A node of a kind that passes the search on to its children, `inner` instead of `depth` blocks
deep. -/
structure Through (kind : NodeKind) (inner depth : Nat) : Prop where
  exchange : ∀ {place left : Nat} {children' children : List Outline},
    Outline.exchange place children' depth left (.node kind children) =
      .node kind (exchangeAll place children' inner left children)
  hasBlock : ∀ {place size left : Nat} {children : List Outline},
    HasBlock place size depth left (.node kind children) ↔
      HasBlockAll place size inner left children

section Close

variable {kind : NodeKind} {inner : Nat} (through : Through kind inner depth)
  (run : Runs s.openNode s')
include through run

theorem exchange_close :
    exchangeAll h.old.length h.children depth (closeNode s kind s').extent
        (closeNode s kind s').outline =
      exchangeAll h.old.length h.children depth s.extent s.outline ++
        [.node kind (exchangeAll h.old.length h.children inner s'.extent s'.outline)] := by
  have place : s.extent - countAll s.outline = s'.extent := by
    rw [run.extent, State.extent, State.extent, outline_openNode, Nat.add_sub_cancel_left,
      countAll_nil, Nat.zero_add]
    rfl
  rw [(run.closeNode kind).extent, outline_closeNode, exchangeAll_append, place, exchangeAll_cons,
    exchangeAll_nil, through.exchange]

theorem missed_close (none : ¬ HasBlockAll h.old.length h.size depth s.extent s.outline)
    (missed : h.Missed inner s') : h.Missed depth (closeNode s kind s') := by
  have place : s.extent - countAll s.outline = s'.extent := by
    rw [run.extent, State.extent, State.extent, outline_openNode, Nat.add_sub_cancel_left,
      countAll_nil, Nat.zero_add]
    rfl
  refine missed.imp_left fun missed => ⟨missed.1, ?_⟩
  rw [(run.closeNode kind).extent, outline_closeNode, hasBlockAll_append, place, hasBlockAll_cons,
    through.hasBlock]
  rintro (has | has | has)
  · exact none has
  · exact missed.2 has
  · exact hasBlockAll_nil has

end Close

/-- A node around what is read in both runs. -/
theorem closeNode {kind kind' : NodeKind} {inner : Nat} (through : Through kind inner depth)
    (step : h.Step inner s.openNode t.openNode s' t')
    (kinds : kind = kind' ∨ ∀ u, h.Step inner s.openNode t.openNode s' u) :
    h.Step depth s t (closeNode s kind s') (closeNode t kind' t') := by
  have ofMissed (missed : h.Missed depth s) : h.Missed depth (State.closeNode s kind s') := by
    have inner := step.ofMissed (missed_openNode missed)
    rcases missed with ⟨-, none⟩ | ⟨asked, d, member, code⟩
    · exact missed_close through step.run none inner
    · exact .inr ⟨asked, d, step.run.kept d member, code⟩
  have clear (before : h.Before s t) := missed_close through step.run
    (not_hasBlock (length_of_before before))
  rcases kinds with rfl | free
  · refine ⟨step.run.closeNode kind, fun before => ?_, fun after => ?_, ofMissed⟩
    · rcases step.ofBefore (before_openNode before) with ⟨keeps, still⟩ | ⟨after, logged, run⟩ | missed
      · have same : (State.closeNode s kind s').pieces = (State.closeNode t kind t').pieces := by
          simp only [State.closeNode, before.pieces, still.pieces]
        exact .before keeps.closeNode
          (before.of_keeps (step.run.closeNode kind) keeps.closeNode same)
      · refine .crosses ⟨⟨after.abreast.closeNode, after.passed, ?_⟩, logged, run.closeNode kind⟩
        have outline : t.outline = s.outline := by rw [State.outline, ← before.pieces, State.outline]
        rw [exchange_close through step.run, exchange_early (length_of_before before),
          outline_closeNode, after.outline, outline]
      · exact .missed (clear before missed)
    · obtain ⟨after', keeps⟩ := step.ofAfter (after_openNode after)
      refine ⟨⟨keeps.closeNode.abreast, after'.passed, ?_⟩, keeps.closeNode⟩
      rw [exchange_close through step.run, outline_closeNode, after'.outline, after.outline]
  · obtain ⟨other, differs⟩ := exists_not_agree s'
    refine ⟨step.run.closeNode kind, fun before => ?_, fun after => ?_, ofMissed⟩
    · rcases (free other).ofBefore (before_openNode before) with
        ⟨keeps, -⟩ | ⟨after, -, -⟩ | missed
      · exact absurd keeps.abreast.agree differs
      · exact absurd after.abreast.agree differs
      · exact .missed (clear before missed)
    · exact absurd ((free other).ofAfter (after_openNode after)).1.abreast.agree differs

theorem through_other {kind : NodeKind} (other : kind ≠ .block) : Through kind depth depth :=
  ⟨exchange_other other _, hasBlock_other other _⟩

theorem through_block : Through .block depth (depth + 1) := ⟨exchange_block _, hasBlock_block _⟩

theorem closeWrap {kind : NodeKind} (other : kind ≠ .block)
    (step : h.Step depth s.precedeNode t.precedeNode s' t') :
    h.Step depth s t (closeWrap s kind s') (closeWrap t kind t') := by
  have place : s.extent - countAll s.outline = s'.extent := by
    rw [step.run.extent, State.extent, State.extent, outline_precedeNode, Nat.add_sub_cancel_left,
      countAll_nil, Nat.zero_add]
    rfl
  have exchanged : exchangeAll h.old.length h.children depth (State.closeWrap s kind s').extent
        (State.closeWrap s kind s').outline =
      wrapLast kind (exchangeAll h.old.length h.children depth s'.extent s'.outline)
        (exchangeAll h.old.length h.children depth s.extent s.outline) := by
    rw [(step.run.closeWrap kind).extent, outline_closeWrap, exchangeAll_wrapLast other, place]
  have clear (none : ¬ HasBlockAll h.old.length h.size depth s.extent s.outline)
      (missed : h.Missed depth s') : h.Missed depth (State.closeWrap s kind s') := by
    rw [Missed, reports_closeWrap, ahead_closeWrap, (step.run.closeWrap kind).extent,
      outline_closeWrap, hasBlockAll_wrapLast other, place]
    exact missed.imp_left fun missed => ⟨missed.1, not_or.mpr ⟨none, missed.2⟩⟩
  refine ⟨step.run.closeWrap kind, fun before => ?_, fun after => ?_, fun missed => ?_⟩
  · rcases step.ofBefore (before_precedeNode before) with
      ⟨keeps, still⟩ | ⟨after, logged, run⟩ | missed
    · have same : (State.closeWrap s kind s').pieces = (State.closeWrap t kind t').pieces := by
        simp only [State.closeWrap, before.pieces, still.pieces]
      exact .before (keeps.closeWrap kind)
        (before.of_keeps (step.run.closeWrap kind) (keeps.closeWrap kind) same)
    · refine .crosses ⟨⟨after.abreast.closeWrap, ?_, ?_⟩, ?_, run.closeWrap kind⟩
      · rw [ahead_closeWrap]
        exact after.passed
      · have outline : t.outline = s.outline := by rw [State.outline, ← before.pieces, State.outline]
        rw [exchanged, exchange_early (length_of_before before), outline_closeWrap, after.outline,
          outline]
      · simp only [LoggedAcross, reports_closeWrap]
        exact logged
    · exact .missed (clear (not_hasBlock (length_of_before before)) missed)
  · obtain ⟨after', keeps⟩ := step.ofAfter (after_precedeNode after)
    refine ⟨⟨after'.abreast.closeWrap, ?_, ?_⟩, keeps.closeWrap kind⟩
    · rw [ahead_closeWrap]
      exact after'.passed
    · rw [exchanged, outline_closeWrap, after'.outline, after.outline]
  · have inner := step.ofMissed (missed_precedeNode missed)
    rcases missed with ⟨-, none⟩ | ⟨asked, d, member, code⟩
    · exact clear none inner
    · refine .inr ⟨asked, d, ?_, code⟩
      rw [reports_closeWrap]
      exact step.run.kept d member

end Step

/-- Runs over the two texts, of rules that are inside as many blocks as the hole counts on but for
`depth` of them. -/
def coupling (h : Hole) (depth : Nat) : Coupling where
  Step := h.Step depth
  refl := .refl
  trans := .trans
  apart := .apart
  adrift := .adrift
  shrinks step := step.run.shrinks
  progress_step step := step.progress
  bump_step := .bump
  unexpected_step expected s t :=
    .of_still (.unexpected expected s) (ahead_report ..) (pieces_unexpected ..)
      (pieces_unexpected ..) (.unexpected expected)
  missing_step expected s t :=
    .of_still (.missing expected s) (ahead_missing ..) (pieces_missing ..) (pieces_missing ..)
      (.missing expected)
  tooDeep_step limit _ _ _ inside :=
    .of_still (.report fun atEnd => absurd atEnd (Bool.eq_false_iff.mp inside)) (ahead_report ..)
      (pieces_report ..) (pieces_report ..) (.tooDeep limit · inside)
  during_step := by
    intro phase s t s' t' step
    exact step.of_context
  breaks_step := by
    intro matter s t s' t' step
    exact step.popBreaks
  node_step other := .closeNode (Step.through_other other)
  wrap_step := by
    intro kind s t s' t' other step
    exact step.closeWrap other

instance (h : Hole) (depth : Nat) : (h.coupling depth).Nests := ⟨fun step => step.of_context⟩

/-- What is known about the blocks of two runs, where so many more levels may be entered. -/
structure Fits (h : Hole) (config : Config) (room : Nat) : Prop where
  /-- What follows the blocks is alike. -/
  rest : List.Forall₂ (Matched h.linkAfter) h.rest h.newRest
  finish : Facing h.linkAfter h.oldEnd h.newEnd
  stops : ∃ oldBlock newBlock, h.old = oldBlock ++ h.rest ∧ h.new = newBlock ++ h.newRest ∧
    Option.Rel (fun a b : Lookahead => h.after (.empty a.token.stop) (.empty b.token.stop))
      oldBlock.getLast? newBlock.getLast?
  /-- The second run reads its block. -/
  reads (t : State) : t.ahead = h.new → t.finish = h.newEnd →
    (block config room t).ahead = h.newRest ∧
    (block config room t).outline = t.outline ++ [.node .block h.children] ∧
    (h.reports → (block config room t).endReported = t.endReported ∧
      ∃ log, (block config room t).reports = t.reports.extend log ∧ h.newLog log)
  /-- What the first run reports if it reads its block before the end has been reported. -/
  leaves (s : State) : h.reports → s.ahead = h.old → s.finish = h.oldEnd → s.endReported = false →
    (¬ ∃ d ∈ (block config room s).reports.items, d.code = .unexpectedEnd) →
    (block config room s).ahead.length = h.rest.length →
    ∃ log, (block config room s).reports = s.reports.extend log ∧ h.oldLog log

variable {config : Config} {room : Nat}

/-- A block that begins elsewhere, or is read elsewhere to, is not the one that is exchanged. -/
theorem not_hasBlock_elsewhere (run : Runs s.openNode s')
    (other : s.ahead.length = h.old.length → s'.ahead.length ≠ h.rest.length)
    (none : ¬ HasBlockAll h.old.length h.size 0 s.extent s.outline) :
    ¬ HasBlockAll h.old.length h.size 0 (closeNode s .block s').extent
      (closeNode s .block s').outline := by
  have extent := run.extent
  rw [State.extent, State.extent, outline_openNode, countAll_nil, Nat.zero_add] at extent
  change _ = s.ahead.length at extent
  rw [(run.closeNode .block).extent, outline_closeNode, hasBlockAll_append, hasBlockAll_cons,
    hasBlock_here]
  rintro (has | ⟨place, size⟩ | has)
  · exact none has
  · have := h.old_longer
    rw [State.extent, Nat.add_sub_cancel_left] at place
    rw [Hole.size] at size
    exact other place (by omega)
  · exact hasBlockAll_nil has

/-- What comes next where the first run is to read its block. -/
theorem Before.ahead_eq (before : h.Before s t) (place : s.ahead.length = h.old.length) :
    s.ahead = h.old ∧ t.ahead = h.new := by
  obtain ⟨w, w', split, split', matched⟩ := before.abreast.ahead
  have none : w = [] := List.length_eq_zero_iff.mp (by
    have := congrArg List.length split
    rw [List.length_append] at this
    omega)
  subst none
  cases matched
  exact ⟨split, split'⟩

/-- Where both runs have read their blocks, what follows is alike. -/
theorem Fits.abreast (fits : h.Fits config room) (before : h.Before s t)
    (place : s.ahead.length = h.old.length)
    (left : (block config room s).ahead.length = h.rest.length)
    (good : ¬ (h.reports ∧ ∃ d ∈ (block config room s).reports.items, d.code = .unexpectedEnd)) :
    Abreast h.linkAfter [] [] (block config room s) (block config room t) := by
  have run := Runs.block config room s
  have run' := Runs.block config room t
  obtain ⟨split, split'⟩ := before.ahead_eq place
  obtain ⟨ahead', -, reported⟩ := fits.reads t split' before.finish'
  obtain ⟨oldBlock, newBlock, old, new, stops⟩ := fits.stops
  obtain ⟨passed, through, last⟩ := run.passed
  obtain ⟨passed', through', last'⟩ := run'.passed
  rw [split, old] at through
  rw [split', new, ahead'] at through'
  obtain ⟨rfl, ahead⟩ := List.append_inj' through left.symm
  obtain rfl := List.append_cancel_right through'
  have stopped : h.after (block config room s).gap (block config room t).gap := by
    have some : oldBlock ≠ [] := fun none => by
      have longer := h.old_longer
      rw [old, none, List.nil_append] at longer
      exact Nat.lt_irrefl _ longer
    rw [State.gap, State.gap, last, last']
    revert stops
    rw [List.getLast?_eq_some_getLast some]
    generalize newBlock.getLast? = stop
    rintro ⟨related⟩
    exact related
  refine ⟨⟨h.rest, h.newRest, ?_, ?_, fits.rest⟩, ?_, Iff.rfl, ?_, stopped, fun asked _ => ?_⟩
  · rw [← ahead, List.append_nil]
  · rw [ahead', List.append_nil]
  · rw [run.finish, run'.finish, before.finish, before.finish']
    exact fits.finish
  · rw [run.breakModes, run'.breakModes]
    exact before.abreast.modes
  · obtain ⟨fresh, fresh'⟩ := before.ended asked
    rw [(reported asked).1, fresh', ← fresh]
    rcases run.ended with same | ⟨ended, -⟩
    · exact same
    · exact absurd ⟨asked, ended⟩ good

/-- Where both runs read their blocks they go across them. -/
theorem Fits.crosses (fits : h.Fits config room) (before : h.Before s t)
    (place : s.ahead.length = h.old.length)
    (left : (block config room s).ahead.length = h.rest.length)
    (good : ¬ (h.reports ∧ ∃ d ∈ (block config room s).reports.items, d.code = .unexpectedEnd))
    (outline : ∃ children, (block config room s).outline = s.outline ++ [.node .block children]) :
    h.Crosses 0 s t (block config room s) (block config room t) := by
  have run := Runs.block config room s
  obtain ⟨split, split'⟩ := before.ahead_eq place
  obtain ⟨-, outline', reported⟩ := fits.reads t split' before.finish'
  obtain ⟨children, outline⟩ := outline
  refine ⟨⟨fits.abreast before place left good, Nat.le_of_eq left, ?_⟩, fun asked => ?_,
    Runs.block config room t⟩
  · have filled : 0 < countAll children := by
      have extent := run.extent
      have := h.old_longer
      rw [State.extent, State.extent, outline, countAll_append, countAll_cons, count_node,
        countAll_nil] at extent
      omega
    have same : t.outline = s.outline := by rw [State.outline, ← before.pieces, State.outline]
    rw [run.extent, outline, outline', exchangeAll_append, exchange_early (length_of_before before),
      same, exchangeAll_cons, exchangeAll_nil, exchange_here, State.extent,
      Nat.add_sub_cancel_left, if_pos ⟨place, filled⟩]
  · obtain ⟨log, made, logged⟩ := fits.leaves s asked split before.finish (before.ended asked).1
      (fun bad => good ⟨asked, bad⟩) left
    obtain ⟨-, log', made', logged'⟩ := reported asked
    refine ⟨[], [], log, log', [], [], ?_, ?_, .nil, logged, logged', .nil⟩
    · rw [made, List.nil_append, List.append_nil]
    · rw [made', List.nil_append, List.append_nil]

theorem outline_block_of_brace (brace : s.isAt .leftBrace = true) :
    (block config (room + 1) s).outline =
      s.outline ++ [.node .block (insideBlock config room s).outline] := by
  rw [block_of_brace brace]
  exact outline_closeNode s (insideBlock config room s) .block

/-- Behind the block that is exchanged both runs read other blocks alike. -/
theorem After.block_of_brace (after : h.After 0 s t) (brace : s.isAt .leftBrace = true)
    (brace' : t.isAt .leftBrace = true) :
    h.After 0 (block config (room + 1) s) (block config (room + 1) t) ∧
      Keeps h.linkAfter [] [] s t (block config (room + 1) s) (block config (room + 1) t) := by
  have run := Runs.block config (room + 1) s
  obtain ⟨inside, same⟩ := keeps_insideBlock after.abreast (Nat.zero_le _)
  have keeps : Keeps h.linkAfter [] [] s t (block config (room + 1) s)
      (block config (room + 1) t) := by
    rw [Grammar.block_of_brace brace, Grammar.block_of_brace brace']
    exact Keeps.of_context (Keeps.closeNode inside)
  refine ⟨⟨keeps.abreast, Nat.le_trans run.shrinks after.passed, ?_⟩, keeps⟩
  have passed := after.passed
  have longer := h.old_longer
  have inner : (insideBlock config room t).outline = (insideBlock config room s).outline := by
    rw [State.outline, State.outline, same]
  rw [run.extent, outline_block_of_brace brace, outline_block_of_brace brace', exchangeAll_append,
    after.outline, State.extent, Nat.add_sub_cancel_left, inner,
    exchangeAll_apart [_] (.inl (by omega))]

/-- The rule for blocks at the level of the block that is exchanged. -/
theorem coupled_block_here (fits : h.Fits config room) :
    (h.coupling 0).Coupled (block config room) (block config room) := by
  cases room with
  | zero => exact .ite (Coupling.tested_isAt .leftBrace) (.recoverTooDeep _) (.placeholder _)
  | succ room =>
  refine .of_agree fun s t agree => ?_
  by_cases brace : s.isAt .leftBrace = true
  case neg =>
    have brace' : ¬ t.isAt .leftBrace = true := by
      rwa [← Coupling.tested_isAt .leftBrace agree]
    have same (s : State) (none : ¬ s.isAt .leftBrace = true) :
        block config (room + 1) s = s.placeholder "`\x7b`" := by
      rw [block, if_neg none]
    rw [same s brace, same t brace']
    exact Coupling.Coupled.placeholder _ s t
  have brace' : t.isAt .leftBrace = true := by rwa [← Coupling.tested_isAt .leftBrace agree]
  have inside := runs_insideBlock config room s
  have missed (none : ¬ HasBlockAll h.old.length h.size 0 s.extent s.outline)
      (passed : (block config (room + 1) s).ahead.length < h.old.length)
      (other : s.ahead.length = h.old.length →
        (block config (room + 1) s).ahead.length ≠ h.rest.length) :
      h.Missed 0 (block config (room + 1) s) := by
    refine .inl ⟨passed, ?_⟩
    rw [block_of_brace brace] at other ⊢
    generalize insideBlock config room s = s' at inside other ⊢
    exact not_hasBlock_elsewhere inside other none
  refine ⟨.block config (room + 1) s, fun before => ?_, fun after => after.block_of_brace brace brace',
    fun missed' => ?_⟩
  · have abreast := (Coupling.coupled_block (abreast_blockClosed h.linkBefore h.old h.new) config
      (room + 1) s t).2 before.abreast before.pieces
    have none : ¬ HasBlockAll h.old.length h.size 0 s.extent s.outline :=
      not_hasBlock (length_of_before before)
    by_cases early : h.old.length ≤ (block config (room + 1) s).ahead.length
    · obtain ⟨keeps, same⟩ := abreast early
      exact .before keeps (before.of_keeps (.block config _ s) keeps same)
    by_cases bad : h.reports ∧
        ∃ d ∈ (block config (room + 1) s).reports.items, d.code = .unexpectedEnd
    · exact .missed (.inr bad)
    by_cases here : s.ahead.length = h.old.length ∧
        (block config (room + 1) s).ahead.length = h.rest.length
    · exact .crosses (fits.crosses before here.1 here.2 bad ⟨_, outline_block_of_brace brace⟩)
    · exact .missed (missed none (by omega) fun place left => here ⟨place, left⟩)
  · rcases missed' with ⟨passed, none⟩ | ⟨asked, d, member, code⟩
    · have shrinks := (Runs.block config (room + 1) s).shrinks
      exact missed none (by omega) fun place => absurd place (Nat.ne_of_lt passed)
    · exact .inr ⟨asked, d, (Runs.block config (room + 1) s).kept d member, code⟩

/-- The rule for blocks that are inside so many blocks fewer than the one that is exchanged. -/
theorem coupled_block_around (fits : h.Fits config room) (depth : Nat) :
    (h.coupling depth).Coupled (block config (room + depth)) (block config (room + depth)) := by
  induction depth with
  | zero => exact coupled_block_here fits
  | succ depth ih =>
    refine .ite (Coupling.tested_isAt .leftBrace) (.nested fun s t => ?_) (.placeholder _)
    exact Step.closeNode Step.through_block
      (Coupling.coupled_blockBody config (room + depth) ih s.openNode t.openNode) (.inl rfl)

end Hole

end LosslessSyntax.Grammar
