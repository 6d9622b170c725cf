import LosslessSyntax.Proofs.Grammar.BlockRun
import LosslessSyntax.Proofs.Grammar.Onward
import LosslessSyntax.Proofs.Reparse.BlockCut

/-! # Parsing a block on its own

The tokens between two braces are parsed on their own, as they would be inside so many blocks. If
that gives one block that ends with the last token, the block is closed by this token, and its
outlines take up just these tokens (`exists_rebuilt`). So it is read in the same way wherever the
same tokens come, and makes the same reports.
-/

namespace LosslessSyntax

namespace Grammar

open Lexeme Lookahead State

theorem lookaheads_append (broken : Bool) (position : Position) (front back : List Lexeme) :
    lookaheads broken position (front ++ back) =
      lookaheads broken position front ++
        lookaheads (breakAfter broken (tokensAt position front)) (position.after (charsOf front))
          back := by
  rw [lookaheads, tokensAt_append, ofTokens_append]
  rfl

/-- A closing brace is behind every line break before it. -/
theorem breakAfter_concat (broken : Bool) (position : Position) (inside : List Lexeme) :
    breakAfter broken (tokensAt position (inside ++ [closeBrace])) = false := by
  rw [tokensAt_append, breakAfter_append]
  rfl

/-- The tokens between the braces of a block. -/
def between (position : Position) (inside : List Lexeme) : List Lookahead :=
  lookaheads false (position.after openBrace.chars) inside

/-- The brace that closes a block. -/
def closing (position : Position) (inside : List Lexeme) : Lookahead :=
  ⟨tokenAt (position.after (charsOf (openBrace :: inside))) closeBrace,
    breakAfter false (tokensAt (position.after openBrace.chars) inside)⟩

theorem lookaheads_braced (broken : Bool) (position : Position) (inside others : List Lexeme) :
    lookaheads broken position (braced inside ++ others) =
      ⟨tokenAt position openBrace, broken⟩ ::
        (between position inside ++ closing position inside ::
          lookaheads false (position.after (charsOf (braced inside))) others) := by
  have tail := lookaheads_append false (position.after openBrace.chars) (inside ++ [closeBrace]) others
  rw [breakAfter_concat, ← Position.after_append] at tail
  have closed := lookaheads_append false (position.after openBrace.chars) inside [closeBrace]
  rw [← Position.after_append] at closed
  rw [braced, List.cons_append]
  refine congrArg (List.cons ⟨tokenAt position openBrace, broken⟩) (tail.trans ?_)
  rw [closed, List.append_assoc]
  rfl

/-- Where the brace stands that closes a block behind some lexemes. -/
def closeOffset (before inside : List Lexeme) : Nat :=
  Text.byteLength (charsOf (before ++ openBrace :: inside))

/-- Places between the braces of a block, up to the closing one. -/
def WithinBraces (opening closing : Nat) (span : Span) : Prop :=
  opening < span.start ∧ span.start ≤ closing ∧ span.start ≤ span.stop

/-- The tokens of a block are between its braces. -/
theorem blockPlaces {before inside : List Lexeme} (solid : ∀ lexeme ∈ inside, lexeme.chars ≠ []) :
    BlockPlaces (WithinBraces (Text.byteLength (charsOf before)) (closeOffset before inside))
      (tokenAt (Position.start.after (charsOf before)) openBrace)
      (between (Position.start.after (charsOf before)) inside)
      (closing (Position.start.after (charsOf before)) inside) := by
  have brace : Text.byteLength openBrace.chars = 1 := by decide
  have place := Position.offset_after_start (charsOf before)
  have close : closeOffset before inside =
      Text.byteLength (charsOf before) + (1 + Text.byteLength (charsOf inside)) := by
    rw [closeOffset, charsOf_append, Text.byteLength_append, charsOf_cons, Text.byteLength_append, brace]
  refine ⟨?_, fun a member => ?_, ?_⟩
  · rw [stop_tokenAt, place, brace, close]
    exact ⟨Nat.lt_succ_self _, by simp only [Span.empty]; omega, Nat.le_refl _⟩
  · have span := mem_tokensAt solid (mem_ofTokens member).1
    rw [Position.offset_after, place, brace] at span
    rw [close]
    constructor
    · exact ⟨show _ < a.token.start by omega, show a.token.start ≤ _ by omega, Nat.le_of_lt span.2.1⟩
    · exact ⟨show _ < a.token.stop by omega, show a.token.stop ≤ _ by omega, Nat.le_refl _⟩
  · have start : (closing (Position.start.after (charsOf before)) inside).token.start =
        closeOffset before inside := by
      rw [closeOffset, charsOf_append, ← Position.offset_after_start, Position.after_append]
      rfl
    refine ⟨show _ < (closing _ inside).token.start from ?_, Nat.le_of_eq start, Nat.le_add_right _ _⟩
    rw [start, close]
    omega

/-- A block that may not be entered is no block. -/
theorem pieces_block_zero {config : Config} {s : State} (inside : s.atEnd = false)
    (fresh : s.pieces = []) : ∃ children, (block config 0 s).pieces = [.node .error children] := by
  have node (body : State → State) (s : State) :
      ∃ children, (s.node .error body).pieces = .node .error children :: s.pieces := ⟨_, rfl⟩
  rw [block]
  split
  · rw [recoverTooDeep, if_neg (Bool.eq_false_iff.mp inside), ← fresh]
    obtain ⟨children, pieces⟩ := node _ _
    exact ⟨children, pieces.trans (by rw [pieces_report])⟩
  · rw [placeholder, ← fresh]
    obtain ⟨children, pieces⟩ := node _ _
    exact ⟨children, pieces.trans (by rw [pieces_unexpected])⟩

end Grammar

namespace Reparse

open Grammar Lexeme Leaf Outline Lookahead

variable {old : Parse} {edit : TextEdit} {newText : String} {found : Enclosing}
  {before inside inside' after : List Lexeme}

/-- The state before a block that is parsed on its own. -/
def blockStart (old : Parse) (edit : TextEdit) (newText : String) (found : Enclosing) : State :=
  .initial (blockSource old edit newText found) newText.utf8ByteSize found.depth

/-- The state after a block that is parsed on its own. -/
def blockEnd (old : Parse) (edit : TextEdit) (newText : String) (found : Enclosing) : State :=
  block old.config (old.config.maxDepth - found.depth) (blockStart old edit newText found)

theorem BlockCut.mem_new {limit : Nat} {oldText : String}
    (cut : BlockCut limit oldText newText before inside inside' after) {lexeme : Lexeme}
    (member : lexeme ∈ before ∨ lexeme ∈ braced inside' ∨ lexeme ∈ after) :
    lexeme ∈ lexemes limit newText.toList := by
  rw [cut.new]
  simpa using member

theorem BlockCut.mem_old {limit : Nat} {oldText : String}
    (cut : BlockCut limit oldText newText before inside inside' after) {lexeme : Lexeme}
    (member : lexeme ∈ before ∨ lexeme ∈ braced inside ∨ lexeme ∈ after) :
    lexeme ∈ lexemes limit oldText.toList := by
  rw [cut.old]
  simpa using member

/-- What is wrong before the closing brace of the block ends before the text does. -/
theorem BlockCut.stop_of_mem_faults {limit : Nat} {oldText : String}
    (cut : BlockCut limit oldText newText before inside inside' after) {d : Diagnostic}
    (member : d ∈ faultsAt (Position.start.after (charsOf before)) (openBrace :: inside')) :
    d.span.stop < newText.utf8ByteSize := by
  have solid : ∀ lexeme ∈ openBrace :: inside', lexeme.chars ≠ [] := fun lexeme member =>
    chars_ne_nil lexeme (cut.mem_new (.inr (.inl (List.mem_append_left [closeBrace] member))))
  have span := span_of_mem_faultsAt solid member
  have brace : Text.byteLength (charsOf [closeBrace]) = 1 := by decide
  have split : braced inside' = (openBrace :: inside') ++ [closeBrace] := rfl
  rw [Position.offset_after_start] at span
  rw [← Text.byteLength_toList, ← charsOf_lexemes limit newText.toList, cut.new, split]
  simp only [charsOf_append _ after, charsOf_append before, charsOf_append (openBrace :: inside'),
    Text.byteLength_append]
  omega

section Read

variable {limit : Nat} {oldText : String}
  (cut : BlockCut limit oldText newText before inside inside' after)
  (read : BlockRead old edit newText found before inside' after)
include cut read

theorem tokens_blockSource :
    (blockSource old edit newText found).tokens =
      tokensAt (Position.start.after (charsOf before)) (braced inside') ++
        [TokenSource.endToken (newStop edit found)] := by
  have inside := @tokensAt_ne_eof (Position.start.after (charsOf before)) (braced inside')
    fun lexeme member => kind_ne_eof lexeme (cut.mem_new (.inr (.inl member)))
  rw [blockSource, TokenSource.tokens, read.tokens, TokenSource.closed, if_neg]
  intro ends
  obtain ⟨last, member, kind⟩ := (Option.any_eq_true _ _).mp ends
  exact inside last (List.mem_of_getLast? member) (beq_iff_eq.mp kind)

/-- A block is parsed on its own from its first token to its last. -/
theorem blockStart_eq :
    (blockStart old edit newText found).ahead =
        lookaheads false (Position.start.after (charsOf before)) (braced inside') ∧
      (blockStart old edit newText found).finish.token =
        TokenSource.endToken (newStop edit found) ∧
      (blockStart old edit newText found).Proper := by
  have inside : ∀ lexeme ∈ braced inside', lexeme.kind ≠ .eof :=
    fun lexeme member => kind_ne_eof lexeme (cut.mem_new (.inr (.inl member)))
  obtain ⟨ahead, finish⟩ := initial_of_tokens (tokens_blockSource cut read) (tokensAt_ne_eof inside)
    rfl newText.utf8ByteSize found.depth
  change (blockStart old edit newText found).ahead = lookaheads false _ (braced inside') at ahead
  change (blockStart old edit newText found).finish = _ at finish
  refine ⟨ahead, ?_, ?_, ?_⟩
  · rw [finish]
  · rw [finish]
    rfl
  · rw [ahead]
    exact lookaheads_ne_eof inside

/-- The tokens from which the block is parsed. -/
theorem ahead_blockStart :
    (blockStart old edit newText found).ahead =
      ⟨tokenAt (Position.start.after (charsOf before)) openBrace, false⟩ ::
        (between (Position.start.after (charsOf before)) inside' ++
          [closing (Position.start.after (charsOf before)) inside']) := by
  have alone := lookaheads_braced false (Position.start.after (charsOf before)) inside' []
  rw [List.append_nil] at alone
  exact (blockStart_eq cut read).1.trans alone

/-- What is wrong with the block is wrong before its closing brace. -/
theorem diagnostics_blockSource :
    (blockSource old edit newText found).diagnostics =
      .ofList (faultsAt (Position.start.after (charsOf before)) (openBrace :: inside')) := by
  -- the closing brace itself is sound
  have sound : faultsAt (Position.start.after (charsOf before)) (braced inside') =
      faultsAt (Position.start.after (charsOf before)) (openBrace :: inside') := by
    have split : braced inside' = (openBrace :: inside') ++ [closeBrace] := rfl
    have sound (position : Position) : faultsAt position [closeBrace] = [] := rfl
    rw [split, faultsAt_append, sound, List.append_nil]
  have stop := read.stop
  have kept : (faultsAt (Position.start.after (charsOf before)) (braced inside')).filter
        (fun d => decide (d.span.start < newStop edit found)) =
      faultsAt (Position.start.after (charsOf before)) (braced inside') := by
    refine List.filter_eq_self.mpr fun d member => decide_eq_true ?_
    have span := span_of_mem_faultsAt (fun lexeme member =>
      chars_ne_nil lexeme (cut.mem_new (.inr (.inl member)))) member
    rw [Position.offset_after_start] at span
    omega
  have dropped : (faultsAt ((Position.start.after (charsOf before)).after (charsOf (braced inside')))
      (after.take 1)).filter (fun d => decide (d.span.start < newStop edit found)) = [] := by
    refine List.filter_eq_nil_iff.mpr fun d member early => ?_
    have span := span_of_mem_faultsAt (fun lexeme member =>
      chars_ne_nil lexeme (cut.mem_new (.inr (.inr (List.mem_of_mem_take member))))) member
    rw [Position.offset_after, Position.offset_after_start] at span
    rw [decide_eq_true_eq] at early
    omega
  change Diagnostics.ofList ((blockTokens old edit newText found).2.diagnostics.items.filter fun d =>
    decide (d.span.start < newStop edit found)) = _
  rw [read.faults, Diagnostics.ofList_filter fun span => decide (span.start < newStop edit found),
    List.filter_append, kept, dropped, List.append_nil, sound]
  exact Diagnostics.extend_items_ofList Diagnostics.ordered_empty _

/-- The end of the text has not been reported within the block. -/
theorem endReported_blockStart : (blockStart old edit newText found).endReported = false := by
  refine Bool.eq_false_iff.mpr fun reported => ?_
  obtain ⟨d, member, here⟩ := List.any_eq_true.mp reported
  rw [Bool.and_eq_true, beq_iff_eq, beq_iff_eq] at here
  rw [diagnostics_blockSource cut read] at member
  have stop := cut.stop_of_mem_faults (Diagnostics.mem_ofList.mp member).mem
  rw [here.2] at stop
  exact Nat.lt_irrefl _ stop

end Read

/-- The tree of a node that was read from the tokens of the block. -/
theorem blockTree_eq {limit : Nat} {oldText : String}
    (cut : BlockCut limit oldText newText before inside inside' after)
    (read : BlockRead old edit newText found before inside' after) {kind : NodeKind}
    {children : List Shape}
    (pieces : (blockEnd old edit newText found).pieces = [.node kind children]) :
    blockTree old edit newText found =
      .node kind (plant (leavesOf (braced inside')) (Shape.outlineAll children)) := by
  have whole : blockTree old edit newText found =
      .ofEvents ((blockSource old edit newText found).tokens.takeWhile fun _ => true)
        (Shape.eventsOfAll (blockEnd old edit newText found).pieces.reverse) :=
    congrArg (Tree.ofEvents _) (events_runBlock old.config newText.utf8ByteSize _ found.depth)
  have inside := @tokensAt_ne_eof (Position.start.after (charsOf before)) (braced inside')
    fun lexeme member => kind_ne_eof lexeme (cut.mem_new (.inr (.inl member)))
  have ends : ∀ token ∈ [TokenSource.endToken (newStop edit found)], token.kind = .eof := by
    simp [TokenSource.endToken]
  have planted := Tree.ofEvents_node kind children inside ends
  rw [whole, List.takeWhile_eq_self_iff.mpr fun _ _ => rfl, tokens_blockSource cut read, pieces]
  rw [map_leaf_tokensAt] at planted
  exact planted

theorem node_inj {outlines children children' : List Outline} {kind : NodeKind}
    (same : outlines ++ [.node kind children] = outlines ++ [.node kind children']) :
    children = children' := by
  simpa using same

/-- Outlines that need as many leaves as a block has before its closing brace take up the block with
this brace. -/
theorem snug_braced {inner : List Outline}
    (count : countAll inner + 1 = total (leavesOf (braced inside))) :
    Snug (leavesOf (braced inside)) (inner ++ [.token]) := by
  have leaves : leavesOf (braced inside) = leavesOf (openBrace :: inside) ++ [closeBrace.leaf] :=
    leavesOf_append (openBrace :: inside) [closeBrace]
  have opens : Opens (leavesOf (openBrace :: inside) ++ [closeBrace.leaf]) :=
    opens_cons (rfl : openBrace.leaf.isSignificant = true)
  rw [leaves, total_append] at count
  rw [leaves]
  exact snug_concat opens rfl (Nat.succ.inj count)

/-- A block that is parsed on its own may be entered. -/
theorem BlockChange.exists_room (change : BlockChange old edit newText found) {limit : Nat}
    {oldText : String} (cut : BlockCut limit oldText newText before inside inside' after)
    (read : BlockRead old edit newText found before inside' after) :
    ∃ room, old.config.maxDepth - found.depth = room + 1 := by
  obtain ⟨-, -, proper⟩ := blockStart_eq cut read
  refine Nat.exists_eq_succ_of_ne_zero fun none => ?_
  have inside : (blockStart old edit newText found).atEnd = false :=
    proper.atEnd_eq_false (by rw [ahead_blockStart cut read]; exact List.cons_ne_nil _ _)
  obtain ⟨children, pieces⟩ := @pieces_block_zero old.config _ inside rfl
  have block := change.block
  rw [blockTree_eq cut read (by rw [blockEnd, none]; exact pieces)] at block
  exact absurd (Option.some.inj block) (by decide : NodeKind.error ≠ .block)

/-- The tree of a block that is read up to its closing brace. -/
theorem blockTree_of_outline {limit : Nat} {oldText : String}
    (cut : BlockCut limit oldText newText before inside inside' after)
    (read : BlockRead old edit newText found before inside' after) {room : Nat} {inner : List Outline}
    (levels : old.config.maxDepth - found.depth = room + 1)
    (outline : (blockEnd old edit newText found).outline = [.node .block (inner ++ [.token])])
    (snug : Snug (leavesOf (braced inside')) (inner ++ [.token])) :
    blockTree old edit newText found =
      .node .block (fillAll (leavesOf (braced inside')) (inner ++ [.token])).1 := by
  have brace := isAt_leftBrace (ahead_blockStart cut read) rfl
  have pieces : (blockEnd old edit newText found).pieces =
      [.node .block (insideBlock old.config room (blockStart old edit newText found)).pieces.reverse] := by
    rw [blockEnd, levels, block_of_brace brace]
    rfl
  have same : (insideBlock old.config room (blockStart old edit newText found)).outline =
      inner ++ [.token] := by
    rw [blockEnd, levels, block_of_brace brace] at outline
    exact @node_inj [] _ _ _ ((State.outline_closeNode _ _ _).symm.trans outline)
  have takes := snug.takes []
  rw [List.append_nil] at takes
  rw [blockTree_eq cut read pieces, plant]
  change Tree.node .block ((fillAll _ (insideBlock old.config room _).outline).1 ++
    (fillAll _ (insideBlock old.config room _).outline).2.map toTree) = _
  rw [same, takes]
  simp

/-- A log of the reports on a block that is parsed on its own, all of them between its braces. -/
def LogsBlock (old : Parse) (edit : TextEdit) (newText : String) (found : Enclosing)
    (before inside' : List Lexeme) (log : List Diagnostic) : Prop :=
  (blockEnd old edit newText found).reports = .ofList log ∧
    ∀ d ∈ log, WithinBraces (Text.byteLength (charsOf before)) (closeOffset before inside') d.span

/-- What comes of a block that is parsed on its own. -/
structure Rebuilt (old : Parse) (edit : TextEdit) (newText : String) (found : Enclosing)
    (before inside' : List Lexeme) (room : Nat) (inner : List Outline) : Prop where
  depth : room + 1 + found.depth = old.config.maxDepth
  snug : Snug (leavesOf (braced inside')) (inner ++ [.token])
  tree : blockTree old edit newText found =
    .node .block (fillAll (leavesOf (braced inside')) (inner ++ [.token])).1
  /-- The block is read in the same way wherever the same tokens come, and the same is reported. -/
  reads (flag : Bool) (rest : List Lookahead) (t : State) :
    t.Proper →
    t.ahead = ⟨tokenAt (Position.start.after (charsOf before)) openBrace, flag⟩ ::
      (between (Position.start.after (charsOf before)) inside' ++
        closing (Position.start.after (charsOf before)) inside' :: rest) →
    ∃ log, ReadsBlock old.config room t rest inner log ∧
      LogsBlock old edit newText found before inside' log

theorem exists_rebuilt (change : BlockChange old edit newText found) {limit : Nat} {oldText : String}
    (cut : BlockCut limit oldText newText before inside inside' after)
    (read : BlockRead old edit newText found before inside' after) :
    ∃ room inner, Rebuilt old edit newText found before inside' room inner := by
  obtain ⟨room, levels⟩ := change.exists_room cut read
  obtain ⟨ahead, -, proper⟩ := blockStart_eq cut read
  have alone := ahead_blockStart cut read
  have unreported := endReported_blockStart cut read
  have run : Runs (blockStart old edit newText found) (blockEnd old edit newText found) :=
    Runs.block ..
  have ended : (blockEnd old edit newText found).ahead = [] :=
    (proper.of_runs run).atEnd_iff.mp change.ended
  have good : ¬ ∃ d ∈ (blockEnd old edit newText found).reports.items, d.code = .unexpectedEnd := by
    rintro ⟨d, member, code⟩
    exact change.closes ⟨d, Diagnostics.mem_extend_of_mem _ member, code⟩
  have extent := run.extent
  rw [State.extent, State.extent, ended, ahead, length_lookaheads] at extent
  have places := @blockPlaces before inside' fun lexeme member =>
    chars_ne_nil lexeme (cut.mem_new (.inr (.inl (by simp [braced, member]))))
  rw [blockEnd, levels] at ended good extent
  have left := congrArg List.length ended
  obtain ⟨inner, log, ⟨-, outline, -, -⟩, -⟩ :=
    block_in_context places alone alone proper proper rfl unreported good left
  have snug : Snug (leavesOf (braced inside')) (inner ++ [.token]) := by
    refine snug_braced ?_
    have fresh : (blockStart old edit newText found).outline = [] := rfl
    rw [outline, fresh, List.nil_append, countAll_cons, count_node, countAll_append] at extent
    simpa using extent
  have whole : (blockEnd old edit newText found).outline = [.node .block (inner ++ [.token])] := by
    rw [blockEnd, levels]
    exact outline
  refine ⟨room, inner, by omega, snug, blockTree_of_outline cut read levels whole snug,
    fun flag rest t proper' context => ?_⟩
  obtain ⟨inner', log', reads, context', known⟩ := block_in_context places alone context proper
    proper' rfl unreported good left
  have same : inner' = inner :=
    List.append_cancel_right (node_inj (reads.outline.symm.trans outline))
  rw [same] at context'
  refine ⟨log', context', ?_, known⟩
  rw [blockEnd, levels]
  exact reads.reports

end Reparse

end LosslessSyntax
