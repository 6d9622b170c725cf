import LosslessSyntax.Proofs.Parse.Ending
import LosslessSyntax.Proofs.Reparse.Block
import LosslessSyntax.Proofs.Reparse.SegmentDiagnostics

/-! # What parsing one block again keeps of the diagnostics

A diagnostic counts as inside a block unless it ends before the opening brace or begins behind the
closing one. What the grammar reports outside the block does so, but for one place: if something is
missing in front of the block, the token that is found instead is its opening brace. Such a report is
dropped with those inside, and parsing the block on its own does not make it again. Everything else is
as in a parse of the new text (`diagnostics_of_changeBlock?`).
-/

namespace LosslessSyntax.Reparse

open Lexeme Leaf Outline Parse Grammar

/-- The diagnostics that are taken over are those outside the block, and of those behind it none is
incomplete. -/
theorem outsideBlock?_eq {start close : Nat} {delta : Int} {items outside : List Diagnostic}
    (kept : outsideBlock? start (close + 1) delta items = some outside) :
    outside = items.filterMap (outsideAt start close delta) ∧
      ∀ d ∈ items, side start close d.span = .after → d.kind ≠ .incomplete := by
  induction items generalizing outside with
  | nil => exact ⟨(Option.some.inj kept).symm, List.forall_mem_nil _⟩
  | cons first rest ih =>
    rw [outsideBlock?] at kept
    rw [List.filterMap_cons, outsideAt, List.forall_mem_cons, side]
    split at kept
    case isTrue before =>
      obtain ⟨others, known, rfl⟩ := Option.map_eq_some_iff.mp kept
      obtain ⟨rfl, complete⟩ := ih known
      rw [if_pos before]
      exact ⟨rfl, fun place => absurd place (by decide), complete⟩
    case isFalse reached =>
      rw [if_neg reached]
      split at kept
      case isTrue behind =>
        rw [if_pos (show close < first.span.start from behind)]
        split at kept
        case isTrue => cases kept
        case isFalse complete =>
          obtain ⟨others, known, rfl⟩ := Option.map_eq_some_iff.mp kept
          obtain ⟨rfl, complete'⟩ := ih known
          rw [beq_iff_eq] at complete
          exact ⟨rfl, fun _ => complete, complete'⟩
      case isFalse inside =>
        rw [if_neg (show ¬ close < first.span.start from inside)]
        split at kept
        · cases kept
        · obtain ⟨rfl, complete⟩ := ih kept
          exact ⟨rfl, fun place => absurd place (by decide), complete⟩

/-- Whether a span is another one than that of an opening brace. -/
def notBrace (opening : Nat) (span : Span) : Bool := span ≠ ⟨opening, opening + 1⟩

section Brace

variable {opening close : Nat} {span : Span}

theorem notBrace_of_apart (behind : opening < span.start) : notBrace opening span = true := by
  refine decide_eq_true fun same => ?_
  rw [same] at behind
  exact Nat.lt_irrefl opening behind

theorem before_of_upToBrace (upTo : UpToBrace opening span) (other : notBrace opening span = true) :
    span.stop ≤ opening := upTo.resolve_right (of_decide_eq_true other)

theorem side_of_withinBraces (within : WithinBraces opening close span) :
    side opening close span = .within :=
  side_eq_within (Nat.lt_of_lt_of_le within.1 within.2.2) within.2.1

/-- What is about the opening brace is not outside the block. -/
theorem filterMap_outsideAt_notBrace {delta : Int} (ordered : opening ≤ close)
    (items : List Diagnostic) :
    (items.filter fun d => notBrace opening d.span).filterMap (outsideAt opening close delta) =
      items.filterMap (outsideAt opening close delta) := by
  rw [List.filterMap_filter]
  refine List.filterMap_congr fun d _ => ?_
  split
  · rfl
  case isFalse brace =>
    have same : d.span = ⟨opening, opening + 1⟩ := by simpa [notBrace] using brace
    rw [outsideAt, same, side_eq_within (Nat.lt_succ_self opening) ordered]

end Brace

/-- Diagnostics up to the opening brace of a block, between its braces and behind it, where the closing
brace stands at one place in a text and at another one in the text after an edit. Those in front are
the same in both texts, those between the braces belong to one of them, and those behind are carried
with the text. -/
structure AroundBlock (text : String) (opening close close' : Nat)
    (front middle middle' back : List Diagnostic) : Prop where
  front : ∀ d ∈ front, UpToBrace opening d.span
  middle : ∀ d ∈ middle, WithinBraces opening close d.span
  middle' : ∀ d ∈ middle', WithinBraces opening close' d.span
  back : ∀ d ∈ back, close < d.span.start ∧ Inside text d.span

section Around

variable {text : String} {opening close close' : Nat} {front middle middle' back : List Diagnostic}
  (logs : AroundBlock text opening close close' front middle middle' back)

/-- Only diagnostics in front may be about the opening brace. -/
theorem filter_notBrace (inside : ∀ d ∈ middle, opening < d.span.start)
    (behind : ∀ d ∈ back, opening < d.span.start) :
    (front ++ middle ++ back).filter (fun d => notBrace opening d.span) =
      (front.filter fun d => notBrace opening d.span) ++ middle ++ back := by
  have keeps {list : List Diagnostic} (later : ∀ d ∈ list, opening < d.span.start) :
      list.filter (fun d => notBrace opening d.span) = list :=
    List.filter_eq_self.mpr fun d member => notBrace_of_apart (later d member)
  rw [List.filter_append, List.filter_append, keeps inside, keeps behind]

include logs

/-- But for those about the opening brace, they are around the block as around a segment. -/
theorem AroundBlock.segment : Around opening close close'
    (front.filter fun d => notBrace opening d.span) middle middle' back where
  front d member := by
    obtain ⟨member, other⟩ := List.mem_filter.mp member
    exact before_of_upToBrace (logs.front d member) other
  middle d member := side_of_withinBraces (logs.middle d member)
  middle' d member := side_of_withinBraces (logs.middle' d member)
  back d member := (logs.back d member).imp_right And.left

theorem AroundBlock.filter_old (ordered : opening ≤ close) :
    (front ++ middle ++ back).filter (fun d => notBrace opening d.span) =
      (front.filter fun d => notBrace opening d.span) ++ middle ++ back :=
  filter_notBrace (fun d member => (logs.middle d member).1)
    fun d member => Nat.lt_of_le_of_lt ordered (logs.back d member).1

theorem AroundBlock.filter_new (ordered : opening ≤ close') :
    (front ++ middle' ++ back.map (carried (shifted close close'))).filter
        (fun d => notBrace opening d.span) =
      (front.filter fun d => notBrace opening d.span) ++ middle' ++
        back.map (carried (shifted close close')) := by
  refine filter_notBrace (fun d member => (logs.middle' d member).1)
    (List.forall_mem_map.mpr fun d member => ?_)
  have place := (logs.back d member).1
  simp only [carried, shifted]
  omega

/-- If what is outside the block is taken over, what is logged and what is wrong with the lexemes are
pushed as if they had been pushed for the new text, but for what is about the opening brace. -/
theorem AroundBlock.ofList_eq {front₂ middle₂ middle₂' back₂ : List Diagnostic} {delta : Int}
    (faults : AroundBlock text opening close close' front₂ middle₂ middle₂' back₂)
    (ordered : opening ≤ close) (ordered' : opening ≤ close')
    (moves : ∀ d, close < d.span.start → Inside text d.span →
      d.shift delta = carried (shifted close close') d) :
    (Diagnostics.ofList
        ((Diagnostics.ofList (front ++ middle ++ back ++ (front₂ ++ middle₂ ++ back₂))).items.filterMap
          (outsideAt opening close delta) ++ (middle' ++ middle₂'))).items =
      (Diagnostics.ofList (front ++ middle' ++ back.map (carried (shifted close close')) ++
        (front₂ ++ middle₂' ++ back₂.map (carried (shifted close close'))))).items.filter
          fun d => notBrace opening d.span := by
  rw [← filterMap_outsideAt_notBrace ordered, Diagnostics.ofList_filter (notBrace opening),
    Diagnostics.ofList_filter (notBrace opening), List.filter_append (front ++ middle ++ back),
    List.filter_append (front ++ middle' ++ _), logs.filter_old ordered, logs.filter_new ordered',
    faults.filter_old ordered, faults.filter_new ordered',
    logs.segment.ofList_eq faults.segment ordered ordered' fun d member => ?_]
  rcases List.mem_append.mp member with member | member
  · exact moves d (logs.back d member).1 (logs.back d member).2
  · exact moves d (faults.back d member).1 (faults.back d member).2

end Around

section Faults

variable {before inside after : List Lexeme} {d : Diagnostic}

theorem le_closeOffset (before inside : List Lexeme) :
    Text.byteLength (charsOf before) ≤ closeOffset before inside := by
  rw [closeOffset, charsOf_append, Text.byteLength_append]
  exact Nat.le_add_right _ _

/-- What is wrong between the braces of a block. -/
theorem withinBraces_of_fault (solid : ∀ lexeme ∈ inside, lexeme.chars ≠ [])
    (member : d ∈ faultsAt (Position.start.after (charsOf before)) (openBrace :: inside)) :
    WithinBraces (Text.byteLength (charsOf before)) (closeOffset before inside) d.span := by
  -- the brace itself is sound
  have sound : faultsAt (Position.start.after (charsOf before)) (openBrace :: inside) =
      faultsAt ((Position.start.after (charsOf before)).after openBrace.chars) inside := rfl
  have brace : Text.byteLength openBrace.chars = 1 := by decide
  rw [sound] at member
  have place := span_of_mem_faultsAt solid member
  rw [Position.offset_after, Position.offset_after_start, brace] at place
  rw [closeOffset, charsOf_append, Text.byteLength_append, charsOf_cons, Text.byteLength_append, brace]
  exact ⟨by omega, by omega, by omega⟩

/-- What is wrong from the closing brace of a block on is wrong behind this brace. -/
theorem behind_of_fault (solid : ∀ lexeme ∈ after, lexeme.chars ≠ [])
    (member : d ∈ faultsAt (Position.start.after (charsOf (before ++ openBrace :: inside)))
      (closeBrace :: after)) :
    closeOffset before inside < d.span.start := by
  have sound : faultsAt (Position.start.after (charsOf (before ++ openBrace :: inside)))
        (closeBrace :: after) =
      faultsAt ((Position.start.after (charsOf (before ++ openBrace :: inside))).after
        closeBrace.chars) after := rfl
  have brace : Text.byteLength closeBrace.chars = 1 := by decide
  rw [sound] at member
  have place := span_of_mem_faultsAt solid member
  rw [Position.offset_after, Position.offset_after_start, brace] at place
  exact place.1

variable {limit : Nat} {text : String}
  (split : Lexeme.lexemes limit text.toList = before ++ (braced inside ++ after))
include split

/-- What is wrong with a text is wrong before a block, in it, or behind it. -/
theorem faultsAt_block :
    faultsAt .start (Lexeme.lexemes limit text.toList) = faultsAt .start before ++
      faultsAt (Position.start.after (charsOf before)) (openBrace :: inside) ++
      faultsAt (Position.start.after (charsOf (before ++ openBrace :: inside)))
        (closeBrace :: after) := by
  have whole : before ++ (braced inside ++ after) =
      before ++ openBrace :: inside ++ closeBrace :: after := by simp [braced]
  rw [split, whole, faultsAt_parts]

/-- What is left open is left open behind the block. -/
theorem mem_behind_of_incomplete (wrong : d ∈ faultsAt .start (Lexeme.lexemes limit text.toList))
    (incomplete : d.kind = .incomplete) :
    d ∈ faultsAt (Position.start.after (charsOf (before ++ openBrace :: inside)))
      (closeBrace :: after) := by
  have stop := stop_of_incomplete_fault wrong incomplete
  rw [Text.byteLength_toList, size_behindBlock split, offset_behindBlock] at stop
  have solid : ∀ lexeme ∈ before ++ openBrace :: inside, lexeme.chars ≠ [] := by
    intro lexeme member
    refine chars_ne_nil lexeme (show lexeme ∈ Lexeme.lexemes limit text.toList from ?_)
    rw [split, braced, ← List.cons_append, List.append_assoc, ← List.append_assoc]
    exact List.mem_append_left _ member
  rw [faultsAt_block split, ← faultsAt_append] at wrong
  refine (List.mem_append.mp wrong).resolve_left fun early => ?_
  have place := span_of_mem_faultsAt solid early
  have zero : Position.start.offset = 0 := rfl
  rw [closeOffset] at stop
  omega

end Faults

section Site

variable {old : Parse} {edit : TextEdit} {newText : String} {found : Enclosing}
  {before inside inside' after : List Lexeme} {room level : Nat} {inner : List Outline}
  (site : BlockSite old edit newText found before inside inside' after room inner level)
include site

theorem BlockSite.start_eq : found.start = Text.byteLength (charsOf before) := by
  rw [site.embraces.start_eq, width_leavesOf, Nat.zero_add]

theorem BlockSite.stop_eq : found.stop = closeOffset before inside + 1 := by
  rw [← offset_behindBlock, behindBlock, blockPosition, Position.offset_after,
    Position.offset_after_start, site.embraces.stop_eq, width_leavesOf, site.start_eq]

/-- The closing brace moves with the text. -/
theorem BlockSite.moved :
    (closeOffset before inside : Int) + edit.delta = closeOffset before inside' := by
  have stop := site.read.stop
  have ends := offset_behindBlock before inside'
  rw [behindBlock, blockPosition, Position.offset_after, Position.offset_after_start] at ends
  rw [newStop, site.stop_eq, ends] at stop
  omega

/-- If no diagnostic behind the block is incomplete, none of the text is. -/
theorem BlockSite.complete
    (behind : ∀ d ∈ (ofText old.config old.text).diagnostics.items,
      side (Text.byteLength (charsOf before)) (closeOffset before inside) d.span = .after →
        d.kind ≠ .incomplete) :
    ∀ d ∈ (ofText old.config old.text).diagnostics.items, d.kind ≠ .incomplete := by
  intro d member incomplete
  refine behind d member (side_eq_after (le_closeOffset before inside) (span_of_mem member).1 ?_)
    incomplete
  rcases mem_diagnostics member with reported | wrong
  · rw [(ending_run reported incomplete).2.1, size_behindBlock site.cut.old, offset_behindBlock]
    change _ < _ + _
    omega
  · refine behind_of_fault (fun lexeme member => ?_)
      (mem_behind_of_incomplete site.cut.old wrong incomplete)
    exact chars_ne_nil lexeme (site.cut.mem_old (.inr (.inr member)))

/-- Then the end of neither text has been reported before the grammar comes to it. -/
theorem BlockSite.unreported
    (complete : ∀ d ∈ (ofText old.config old.text).diagnostics.items, d.kind ≠ .incomplete) :
    (beginning old.config old.text).endReported = false ∧
      (beginning old.config newText).endReported = false := by
  have fresh : (beginning old.config old.text).endReported = false := by
    refine Bool.eq_false_iff.mpr fun reported => ?_
    obtain ⟨d, member, incomplete⟩ :=
      exists_incomplete ((reporting_run old.config old.text).known reported)
    exact complete d member incomplete
  refine ⟨fresh, Bool.eq_false_iff.mpr fun reported => ?_⟩
  rw [endReported_beginning, List.any_eq_true] at reported
  obtain ⟨d, wrong, test⟩ := reported
  rw [Bool.and_eq_true, beq_iff_eq, beq_iff_eq] at test
  -- what is left open in the new text is left open in the old one
  have behind := mem_behind_of_incomplete site.cut.new wrong test.1
  rw [faultsAt_behind before (openBrace :: inside)] at behind
  obtain ⟨e, listed, rfl⟩ := List.mem_map.mp behind
  have wrong' : e ∈ faultsAt .start (Parse.lexemes old.config old.text) := by
    rw [Parse.lexemes, faultsAt_block site.cut.old]
    exact List.mem_append_right _ listed
  rw [endReported_of_fault wrong' test.1] at fresh
  cases fresh

/-- What is reported for both texts: the same up to the opening brace of the block, then what is
between the braces, then the same behind it, moved with the text. -/
theorem BlockSite.exists_logs
    (complete : ∀ d ∈ (ofText old.config old.text).diagnostics.items, d.kind ≠ .incomplete) :
    ∃ early amid amid' late,
      (run old.config old.text).reports =
        (beginning old.config old.text).reports.extend (early ++ amid ++ late) ∧
      (run old.config newText).reports =
        (beginning old.config newText).reports.extend (early ++ amid' ++ late.map (carried
          (shifted (closeOffset before inside) (closeOffset before inside')))) ∧
      (blockEnd old edit newText found).reports = .ofList amid' ∧
      AroundBlock old.text (Text.byteLength (charsOf before)) (closeOffset before inside)
        (closeOffset before inside') early amid amid' late := by
  have unended : ¬ ∃ d ∈ (run old.config old.text).reports.items, d.code = .unexpectedEnd := by
    rintro ⟨d, member, code⟩
    refine complete d ?_ (by rw [Diagnostic.kind, code]; rfl)
    rw [diagnostics_ofText]
    exact Diagnostics.mem_extend_of_mem _ member
  obtain ⟨early, early', amid, amid', late, late', made, made', same, within, ⟨alone, within'⟩, same'⟩ :=
    (site.crosses True (fun _ => site.unreported complete) fun _ => unended).logged trivial
  obtain ⟨rfl, upTo⟩ := eq_of_within same
  obtain ⟨rfl, reached⟩ := eq_map_carried same'
  rw [blockPosition, Position.offset_after_start] at upTo
  rw [offset_behindBlock] at reached
  refine ⟨early', amid, amid', late, made, made', alone, upTo, within, within', fun d member => ?_⟩
  exact ⟨reached d member, inside_of_log made d (by simp [member])⟩

/-- What is wrong with the lexemes of both texts. -/
theorem BlockSite.around_faults :
    AroundBlock old.text (Text.byteLength (charsOf before)) (closeOffset before inside)
      (closeOffset before inside') (faultsAt .start before)
      (faultsAt (Position.start.after (charsOf before)) (openBrace :: inside))
      (faultsAt (Position.start.after (charsOf before)) (openBrace :: inside'))
      (faultsAt (Position.start.after (charsOf (before ++ openBrace :: inside)))
        (closeBrace :: after)) where
  front d member := by
    have place := span_of_mem_faultsAt (fun lexeme member =>
      chars_ne_nil lexeme (site.cut.mem_old (.inl member))) member
    have zero : Position.start.offset = 0 := rfl
    exact .inl (by omega)
  middle d := withinBraces_of_fault fun lexeme member =>
    chars_ne_nil lexeme (site.cut.mem_old (.inr (.inl (by simp [braced, member]))))
  middle' d := withinBraces_of_fault fun lexeme member =>
    chars_ne_nil lexeme (site.cut.mem_new (.inr (.inl (by simp [braced, member]))))
  back d member := by
    refine ⟨behind_of_fault (fun lexeme member => ?_) member, ?_⟩
    · exact chars_ne_nil lexeme (site.cut.mem_old (.inr (.inr member)))
    · have wrong : d ∈ faultsAt .start (Parse.lexemes old.config old.text) := by
        rw [Parse.lexemes, faultsAt_block site.cut.old]
        exact List.mem_append_right _ member
      obtain ⟨token, listed, span⟩ := mem_faultsAt wrong
      rw [span]
      exact (placed_of_mem_tokensAt listed).1.inside

/-- What is found when the block is parsed on its own. -/
theorem BlockSite.diagnostics_outcome {log : List Diagnostic}
    (alone : (blockEnd old edit newText found).reports = .ofList log) :
    (blockOutcome old edit newText found).diagnostics =
      .ofList (log ++ faultsAt (Position.start.after (charsOf before)) (openBrace :: inside')) := by
  have all : ((blockSource old edit newText found).diagnostics.items.filter fun _ => true) =
      (blockSource old edit newText found).diagnostics.items := List.filter_true _
  change (blockEnd old edit newText found).reports.extend
    ((blockSource old edit newText found).diagnostics.items.filter fun _ => true) = _
  rw [all, alone, diagnostics_blockSource site.cut site.read,
    Diagnostics.extend_items_ofList (Diagnostics.ordered_ofList log), Diagnostics.ofList_extend]

/-- What is reported behind the block moves with it. -/
theorem BlockSite.shift_eq (small : newText.utf8ByteSize < 0x100000000) {d : Diagnostic}
    (behind : closeOffset before inside < d.span.start) (placed : Inside old.text d.span) :
    d.shift edit.delta =
      carried (shifted (closeOffset before inside) (closeOffset before inside')) d := by
  refine Reparse.shift_eq site.moved (Nat.le_of_lt behind) placed.1 (Nat.lt_of_le_of_lt ?_ small)
  have stop := placed.2
  rw [size_behindBlock site.cut.old, offset_behindBlock] at stop
  rw [size_behindBlock site.cut.new, offset_behindBlock, shifted]
  omega

end Site

/-- Parsing one block again yields those diagnostics of the new text that are not about the opening
brace of the block, if the text is small enough for their places to be stored. -/
theorem diagnostics_of_changeBlock? {old : Parse} {edit : TextEdit} {newText : String}
    {result : Result} (fresh : old = ofText old.config old.text)
    (applies : edit.apply old.text = .ok newText) (small : newText.utf8ByteSize < 0x100000000)
    (changed : changeBlock? old edit newText = some result) :
    ∃ found, enclosing? edit 0 0 old.tree = some found ∧
      result.diagnostics.items = (ofText old.config newText).diagnostics.items.filter fun d =>
        notBrace found.start d.span := by
  obtain ⟨start, replaced, stop, applied⟩ := TextEdit.exists_applied applies
  obtain ⟨found, outside, change, -, kept, diagnostics⟩ := changeBlock?_eq_some changed
  obtain ⟨before, inside, inside', after, room, inner, level, site⟩ :=
    change.exists_site (congrArg Parse.tree fresh) applied
  refine ⟨found, change.search, ?_⟩
  rw [site.start_eq, site.stop_eq, congrArg Parse.diagnostics fresh] at kept
  obtain ⟨rfl, behind⟩ := outsideBlock?_eq kept
  obtain ⟨early, amid, amid', late, made, made', alone, logs⟩ :=
    site.exists_logs (site.complete behind)
  rw [diagnostics, site.diagnostics_outcome alone,
    Diagnostics.extend_items_ofList (Diagnostics.ordered_ofList _), Diagnostics.ofList_extend,
    diagnostics_of_log made, diagnostics_of_log made', Parse.lexemes, Parse.lexemes,
    faultsAt_block site.cut.old, faultsAt_block site.cut.new,
    faultsAt_behind before (openBrace :: inside) (openBrace :: inside'), site.start_eq]
  exact logs.ofList_eq site.around_faults (le_closeOffset before inside)
    (le_closeOffset before inside') fun d => site.shift_eq small

end LosslessSyntax.Reparse
