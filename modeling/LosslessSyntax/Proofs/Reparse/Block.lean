import LosslessSyntax.Proofs.Grammar.Hole
import LosslessSyntax.Proofs.Parse.Seams
import LosslessSyntax.Proofs.Reparse.BlockRun

/-! # Parsing one block again gives the tree of the new text

The block that is parsed on its own is what a parse of the new text reads there. So the parses of
the two texts are runs over texts that differ in one block (`blockHole`): since the old tree has this
block inside as many blocks as were counted, the outline of the new text is the old one with this
block exchanged (`outline_exchanged`), and so is the tree (`tree_of_changeBlock?`).
-/

namespace LosslessSyntax.Reparse

open Grammar Lexeme Leaf Outline Lookahead

/-- Places before the opening brace of a block, and the place of this brace. -/
def UpToBrace (place : Nat) (span : Span) : Prop := span.stop ≤ place ∨ span = ⟨place, place + 1⟩

/-- Where a block begins that comes after some lexemes. -/
def blockPosition (before : List Lexeme) : Position := Position.start.after (charsOf before)

/-- Where it ends. -/
def behindBlock (before inside : List Lexeme) : Position :=
  (blockPosition before).after (charsOf (braced inside))

/-- A block ends behind its closing brace. -/
theorem offset_behindBlock (before inside : List Lexeme) :
    (behindBlock before inside).offset = closeOffset before inside + 1 := by
  have braces : braced inside = (openBrace :: inside) ++ [closeBrace] := rfl
  have brace : Text.byteLength (charsOf [closeBrace]) = 1 := by decide
  rw [behindBlock, blockPosition, Position.offset_after, Position.offset_after_start, braces,
    closeOffset, charsOf_append, charsOf_append, Text.byteLength_append, Text.byteLength_append, brace,
    Nat.add_assoc]

/-- Whether a line break comes before a block. -/
def brokenBefore (before : List Lexeme) : Bool := breakAfter false (tokensAt .start before)

section Hole

variable (config : Config) (oldText newText : String) (before inside inside' after : List Lexeme)
  (inner : List Outline) (asked : Prop) (newLog : List Diagnostic → Prop)

/-- Two texts that differ between the braces of one block. Spans up to the opening brace are the same
in both, and those behind the block have moved with the text. -/
def blockHole : Hole where
  before := (Link.within (UpToBrace (blockPosition before).offset)).span
  after := (Link.along (behindBlock before inside).offset
    (Parse.shifted (closeOffset before inside) (closeOffset before inside')) asked).span
  reports := asked
  old := lookaheads (brokenBefore before) (blockPosition before) (braced inside ++ after)
  new := lookaheads (brokenBefore before) (blockPosition before) (braced inside' ++ after)
  rest := lookaheads false (behindBlock before inside) after
  newRest := lookaheads false (behindBlock before inside') after
  oldEnd := ending (.ofText oldText config.operatorLimit)
  newEnd := ending (.ofText newText config.operatorLimit)
  children := inner ++ [.token]
  oldLog log := ∀ d ∈ log,
    WithinBraces (Text.byteLength (charsOf before)) (closeOffset before inside) d.span
  newLog := newLog
  old_longer := by
    rw [lookaheads_braced, List.length_cons, List.length_append, List.length_cons]
    change (lookaheads _ (behindBlock before inside) after).length <
      _ + ((lookaheads _ (behindBlock before inside) after).length + 1) + 1
    omega
  new_longer := by
    rw [lookaheads_braced, List.length_cons, List.length_append, List.length_cons,
      length_lookaheads _ _ after, length_lookaheads _ _ after]
    omega

/-- How many tokens there are from the beginning of the block on, and how many in it. -/
theorem place_blockHole :
    (blockHole config oldText newText before inside inside' after inner asked newLog).old.length =
        total (leavesOf (braced inside) ++ leavesOf after) ∧
      (blockHole config oldText newText before inside inside' after inner asked newLog).size =
        total (leavesOf (braced inside)) := by
  have place : (blockHole config oldText newText before inside inside' after inner asked
      newLog).old.length = total (leavesOf (braced inside) ++ leavesOf after) := by
    rw [← leavesOf_append]
    exact length_lookaheads ..
  have rest : (blockHole config oldText newText before inside inside' after inner asked
      newLog).rest.length = total (leavesOf after) := length_lookaheads ..
  exact ⟨place, by rw [Hole.size, place, rest, total_append, Nat.add_sub_cancel]⟩

end Hole

section Ending

variable {limit : Nat} {text : String} {before inside after : List Lexeme}
  (split : lexemes limit text.toList = before ++ (braced inside ++ after))
include split

/-- The line breaks before the end of a text with braces in it are those after the last of them. -/
theorem afterBreak_ending :
    (ending (.ofText text limit)).afterBreak =
      breakAfter false (tokensAt (behindBlock before inside) after) := by
  change breakAfter false (tokensAt .start (lexemes limit text.toList)) = _
  rw [split, tokensAt_append, tokensAt_append, breakAfter_append, breakAfter_append]
  exact congrArg (breakAfter · _) (breakAfter_concat _ _ (openBrace :: inside))

/-- The text goes on behind a block with what comes after it. -/
theorem size_behindBlock :
    text.utf8ByteSize = (behindBlock before inside).offset + Text.byteLength (charsOf after) := by
  rw [← Text.byteLength_toList, ← charsOf_lexemes limit text.toList, split, charsOf_append,
    charsOf_append, Text.byteLength_append, Text.byteLength_append, behindBlock, blockPosition,
    Position.offset_after, Position.offset_after_start, Nat.add_assoc]

theorem span_ending :
    (ending (.ofText text limit)).token.span =
      .empty ((behindBlock before inside).offset + Text.byteLength (charsOf after)) := by
  have start := start_ending_ofText text limit
  rw [← size_behindBlock split, ← start]
  rfl

end Ending

section Cut

variable {config : Config} {oldText newText : String} {before inside inside' after : List Lexeme}
  {inner : List Outline} {asked : Prop} {newLog : List Diagnostic → Prop} {room : Nat}
  (cut : BlockCut config.operatorLimit oldText newText before inside inside' after)
include cut

/-- What comes after the blocks is alike. -/
theorem BlockCut.alike_after (asked : Prop) :
    List.Forall₂ (Alike (.along (behindBlock before inside).offset
        (Parse.shifted (closeOffset before inside) (closeOffset before inside')) asked))
      (tokensAt (behindBlock before inside) after) (tokensAt (behindBlock before inside') after) := by
  refine alike_tokensAt (fun lexeme member => ?_) (Nat.le_refl _) fun x reached _ => ?_
  · exact kind_ne_eof lexeme (cut.mem_old (.inr (.inr member)))
  · rw [offset_behindBlock] at reached
    rw [Parse.shifted, offset_behindBlock, offset_behindBlock]
    omega

/-- What is known about the two blocks. -/
theorem BlockCut.fits (asked : Prop)
    (reads : ∀ (flag : Bool) (rest : List Lookahead) (t : State), t.Proper →
      t.ahead = ⟨tokenAt (blockPosition before) openBrace, flag⟩ ::
        (between (blockPosition before) inside' ++ closing (blockPosition before) inside' :: rest) →
      ∃ log, ReadsBlock config room t rest inner log ∧ newLog log) :
    (blockHole config oldText newText before inside inside' after inner asked newLog).Fits config
      (room + 1) where
  rest := (matched_ofTokens (cut.alike_after asked) false).1.imp fun _ _ => And.left
  finish := by
    refine ⟨⟨rfl, fun _ => rfl, ?_⟩, ?_⟩
    · change (ending (.ofText oldText config.operatorLimit)).afterBreak =
        (ending (.ofText newText config.operatorLimit)).afterBreak
      rw [afterBreak_ending cut.old, afterBreak_ending cut.new]
      exact (matched_ofTokens (cut.alike_after asked) false).2
    · change (Link.along _ _ asked).span (ending (.ofText oldText config.operatorLimit)).token.span
        (ending (.ofText newText config.operatorLimit)).token.span
      rw [span_ending cut.old, span_ending cut.new]
      simp only [Link.along, Span.empty, Parse.shifted, offset_behindBlock]
      omega
  stops := by
    have split (inside : List Lexeme) :
        lookaheads (brokenBefore before) (blockPosition before) (braced inside ++ after) =
          (⟨tokenAt (blockPosition before) openBrace, brokenBefore before⟩ ::
            between (blockPosition before) inside ++ [closing (blockPosition before) inside]) ++
          lookaheads false (behindBlock before inside) after := by
      rw [lookaheads_braced, List.append_assoc]
      rfl
    have stop (inside : List Lexeme) : (closing (blockPosition before) inside).token.stop =
        (behindBlock before inside).offset := by
      have braces : braced inside = (openBrace :: inside) ++ [closeBrace] := rfl
      rw [behindBlock, closing, stop_tokenAt, Position.offset_after, Position.offset_after, braces,
        charsOf_append, Text.byteLength_append, ← Nat.add_assoc]
      rfl
    refine ⟨_, _, split inside, split inside', ?_⟩
    rw [List.getLast?_concat, List.getLast?_concat]
    refine .some ?_
    rw [stop, stop]
    change (Link.along _ _ asked).span _ _
    simp only [Link.along, Span.empty, Parse.shifted, offset_behindBlock]
    omega
  reads t ahead finish := by
    have proper : t.Proper := by
      refine ⟨by rw [finish]; rfl, ?_⟩
      rw [ahead]
      refine lookaheads_ne_eof fun lexeme member => kind_ne_eof lexeme (cut.mem_new ?_)
      exact .inr (List.mem_append.mp member)
    obtain ⟨log, read, known⟩ := reads _ _ t proper (ahead.trans (lookaheads_braced ..))
    exact ⟨read.ahead, read.outline, fun _ => ⟨read.endReported, log, read.reports, known⟩⟩
  leaves s _ ahead finish unreported good left := by
    have proper : s.Proper := by
      refine ⟨by rw [finish]; rfl, ?_⟩
      rw [ahead]
      refine lookaheads_ne_eof fun lexeme member => kind_ne_eof lexeme (cut.mem_old ?_)
      exact .inr (List.mem_append.mp member)
    have places := @blockPlaces before inside fun lexeme member =>
      chars_ne_nil lexeme (cut.mem_old (.inr (.inl (by simp [braced, member]))))
    have ahead' := ahead.trans (lookaheads_braced ..)
    obtain ⟨_, log, read, -, known⟩ :=
      block_in_context places ahead' ahead' proper proper rfl unreported good left
    exact ⟨log, read.reports, known⟩

/-- Before the first statement the block is still to come. -/
theorem BlockCut.before_beginning
    (unreported : asked → (Parse.beginning config oldText).endReported = false ∧
      (Parse.beginning config newText).endReported = false) :
    (blockHole config oldText newText before inside inside' after inner asked newLog).Before
      (Parse.beginning config oldText) (Parse.beginning config newText) := by
  have start (text : String) : (Parse.beginning config text).ahead =
        lookaheads false .start (lexemes config.operatorLimit text.toList) ∧
      (Parse.beginning config text).finish = ending (.ofText text config.operatorLimit) := by
    obtain ⟨ahead, finish, -⟩ := programStart_eq text.utf8ByteSize
      (Scanner.between_ofText text config.operatorLimit) rfl
    exact ⟨ahead, finish⟩
  have old : (Parse.beginning config oldText).ahead = lookaheads false .start before ++
      lookaheads (brokenBefore before) (blockPosition before) (braced inside ++ after) := by
    rw [(start oldText).1, cut.old, lookaheads_append]
    rfl
  have new : (Parse.beginning config newText).ahead = lookaheads false .start before ++
      lookaheads (brokenBefore before) (blockPosition before) (braced inside' ++ after) := by
    rw [(start newText).1, cut.new, lookaheads_append]
    rfl
  have place : (blockPosition before).offset = Text.byteLength (charsOf before) :=
    Position.offset_after_start _
  have ends : ∀ a ∈ lookaheads false .start before, a.kind ≠ .eof ∧
      a.token.start < a.token.stop ∧ a.token.stop ≤ (blockPosition before).offset := by
    intro a member
    have span := mem_tokensAt (fun lexeme member => chars_ne_nil lexeme (cut.mem_old (.inl member)))
      (mem_ofTokens member).1
    have zero : Position.start.offset = 0 := rfl
    refine ⟨lookaheads_ne_eof (fun lexeme member => ?_) a member, span.2.1, by omega⟩
    exact kind_ne_eof lexeme (cut.mem_old (.inl member))
  have brace : (tokenAt (blockPosition before) openBrace).span =
      ⟨(blockPosition before).offset, (blockPosition before).offset + 1⟩ := rfl
  refine ⟨⟨⟨lookaheads false .start before, lookaheads false .start before, old, new,
    List.forall₂_same.mpr fun a member => ?_⟩, ?_, ?_, rfl, ?_, fun asked _ => ?_⟩, rfl,
    (Parse.proper_beginning config oldText).inside, (Parse.proper_beginning config newText).inside,
    (start oldText).2, (start newText).2, unreported⟩
  · obtain ⟨kind, -, stop⟩ := ends a member
    exact ⟨⟨⟨rfl, fun _ => rfl, rfl⟩, rfl, .inl stop⟩, ⟨rfl, .inl stop⟩, kind⟩
  · change Facing _ ((lookaheads _ _ (braced inside ++ after)).headD _)
      ((lookaheads _ _ (braced inside' ++ after)).headD _)
    rw [lookaheads_braced, lookaheads_braced]
    exact ⟨⟨rfl, fun _ => rfl, rfl⟩, rfl, .inr brace⟩
  · change lookaheads _ _ (braced inside ++ after) = [] ↔ lookaheads _ _ (braced inside' ++ after) = []
    rw [lookaheads_braced, lookaheads_braced]
    exact iff_of_false (List.cons_ne_nil _ _) (List.cons_ne_nil _ _)
  · change (Link.within (UpToBrace _)).span
      (.empty ((Parse.beginning config oldText).ahead.headD _).token.start)
      (.empty ((Parse.beginning config newText).ahead.headD _).token.start)
    rw [old, new]
    cases passed : lookaheads false .start before with
    | nil =>
      rw [List.nil_append, List.nil_append, lookaheads_braced, lookaheads_braced]
      exact ⟨rfl, .inl (Nat.le_refl _)⟩
    | cons a others =>
      obtain ⟨-, some, stop⟩ := ends a (by rw [passed]; exact List.mem_cons_self)
      exact ⟨rfl, .inl (Nat.le_trans (Nat.le_of_lt some) stop)⟩
  · obtain ⟨fresh, fresh'⟩ := unreported asked
    rw [fresh, fresh']

end Cut

/-- A block that is parsed again: where it is in both texts, what parsing it on its own yields, and
inside how many others it is in the old outline. -/
structure BlockSite (old : Parse) (edit : TextEdit) (newText : String) (found : Enclosing)
    (before inside inside' after : List Lexeme) (room : Nat) (inner : List Outline) (level : Nat) :
    Prop where
  cut : BlockCut old.config.operatorLimit old.text newText before inside inside' after
  read : BlockRead old edit newText found before inside' after
  rebuilt : Rebuilt old edit newText found before inside' room inner
  embraces : Embraces edit 0 0 (leavesOf (Parse.lexemes old.config old.text)) found
    (leavesOf before) (leavesOf (braced inside)) (leavesOf after) level
  has : HasBlockAll (total (leavesOf (braced inside) ++ leavesOf after))
    (total (leavesOf (braced inside))) level (total (leavesOf (Parse.lexemes old.config old.text)))
    (Parse.run old.config old.text).outline
  /-- Another block in its place leads to the old outline with this block exchanged. -/
  hosts {leaves : List Leaf} {children : List Outline} : Snug leaves children →
    (Parse.ofText old.config old.text).tree.replaceAt? found.path
        (.node .block (fillAll leaves children).1) =
      some (.node .root (plant (leavesOf before ++ (leaves ++ leavesOf after))
        (exchangeAll (total (leavesOf (braced inside) ++ leavesOf after)) children level
          (total (leavesOf (Parse.lexemes old.config old.text)))
          (Parse.run old.config old.text).outline)))

variable {old : Parse} {edit : TextEdit} {newText : String} {found : Enclosing} {result : Result}

theorem BlockChange.exists_site (change : BlockChange old edit newText found)
    (tree : old.tree = (Parse.ofText old.config old.text).tree)
    {start replaced stop : List Char} (applied : edit.Applied old.text newText start replaced stop) :
    ∃ before inside inside' after room inner level,
      BlockSite old edit newText found before inside inside' after room inner level := by
  have search := change.search
  rw [tree, Parse.tree_ofText] at search
  obtain ⟨front, inner, back, level, embraces, has, hosts⟩ :=
    exists_of_enclosing? search change.closed (Nat.le_of_eq Parse.countAll_run)
  obtain ⟨before, inside, inside', after, rfl, rfl, rfl, cut, read⟩ := change.exists_cut applied embraces
  obtain ⟨room, inner, rebuilt⟩ := exists_rebuilt change cut read
  refine ⟨before, inside, inside', after, room, inner, level, cut, read, rebuilt, embraces, has, ?_⟩
  rw [Parse.tree_ofText]
  exact hosts _ _

section Site

variable {before inside inside' after : List Lexeme} {room level : Nat} {inner : List Outline}
  (site : BlockSite old edit newText found before inside inside' after room inner level)
include site

/-- The parses of both texts go across the block, provided that the end of neither text is reported
where reports are asked for. -/
theorem BlockSite.crosses (asked : Prop)
    (unreported : asked → (Parse.beginning old.config old.text).endReported = false ∧
      (Parse.beginning old.config newText).endReported = false)
    (unended : asked →
      ¬ ∃ d ∈ (Parse.run old.config old.text).reports.items, d.code = .unexpectedEnd) :
    (blockHole old.config old.text newText before inside inside' after inner asked
      (LogsBlock old edit newText found before inside')).Crosses level
        (Parse.beginning old.config old.text) (Parse.beginning old.config newText)
        (Parse.run old.config old.text) (Parse.run old.config newText) := by
  have levels : room + 1 + level = old.config.maxDepth := by
    rw [← site.rebuilt.depth, site.embraces.depth_eq, Nat.zero_add]
  have blocks := Hole.coupled_block_around (site.cut.fits asked site.rebuilt.reads) level
  rw [levels] at blocks
  have step := coupled_items_of_block blocks tested_endsProgram
    (Parse.beginning old.config old.text) (Parse.beginning old.config newText)
  have has := site.has
  obtain ⟨place, size⟩ := place_blockHole old.config old.text newText before inside inside' after inner
    asked (LogsBlock old edit newText found before inside')
  rw [← place, ← size, ← Parse.extent_run] at has
  rcases step.ofBefore (site.cut.before_beginning unreported) with ⟨-, still⟩ | crosses | missed
  · have early : _ ≤ (Parse.run old.config old.text).ahead.length := Hole.length_of_before still
    rw [Parse.ahead_run] at early
    exact absurd (Nat.lt_of_lt_of_le (Hole.old_longer _) early) (Nat.not_lt_zero _)
  · exact crosses
  · rcases missed with ⟨-, none⟩ | ⟨asked, bad⟩
    · exact absurd has none
    · exact absurd bad (unended asked)

/-- The new outline is the old one with the block exchanged. -/
theorem BlockSite.outline_exchanged :
    (Parse.run old.config newText).outline =
      exchangeAll (total (leavesOf (braced inside) ++ leavesOf after)) (inner ++ [.token]) level
        (total (leavesOf (Parse.lexemes old.config old.text)))
        (Parse.run old.config old.text).outline := by
  have exchanged := (site.crosses False False.elim False.elim).after.outline
  rwa [(place_blockHole ..).1, Parse.extent_run] at exchanged

end Site

/-- Parsing one block again yields the tree of the new text. -/
theorem tree_of_changeBlock? (tree : old.tree = (Parse.ofText old.config old.text).tree)
    (applies : edit.apply old.text = .ok newText)
    (changed : changeBlock? old edit newText = some result) :
    result.tree = (Parse.ofText old.config newText).tree := by
  obtain ⟨start, replaced, stop, applied⟩ := TextEdit.exists_applied applies
  obtain ⟨found, -, change, put, -⟩ := changeBlock?_eq_some changed
  obtain ⟨before, inside, inside', after, room, inner, level, site⟩ := change.exists_site tree applied
  have leaves : leavesOf (Parse.lexemes old.config newText) =
      leavesOf before ++ (leavesOf (braced inside') ++ leavesOf after) := by
    rw [← leavesOf_append, ← leavesOf_append]
    exact congrArg leavesOf site.cut.new
  rw [tree, site.rebuilt.tree, site.hosts site.rebuilt.snug, ← site.outline_exchanged,
    ← leaves] at put
  rw [← Option.some.inj put, Parse.tree_ofText]

end LosslessSyntax.Reparse
