import Mathlib.Data.List.Induction
import LosslessSyntax.Proofs.Parse.Ending
import LosslessSyntax.Proofs.Reparse.Session

/-! # Diagnostics of an editing session

Parsing one block again may lose reports or keep stale ones, so in a session the diagnostics are not
always those that a parse of the whole text would give. But they stay in order and in place
(`Tidy`): a reparse takes over diagnostics in front of the edit and behind it (`TakenOver`), adds
some that it has found in the new text (`Found`), and never does both with the report that the text
ends too early (`Renewed`). So every reparse keeps diagnostics tidy (`Tidy.reparse`), and so does a
session (`session_diagnostics`).
-/

namespace LosslessSyntax.Parse

open Lexeme Grammar

/-- The span is that of a report that the text ends too early: it ends where the text does. -/
def AtEnd (text : String) (span : Span) : Prop := 0 < span.stop ∧ span.stop = text.utf8ByteSize

/-- Diagnostics that are in order, are about whole characters of a text and report once at most that
the text ends too early, at its end. -/
structure Tidy (text : String) (diagnostics : Diagnostics) : Prop where
  ordered : diagnostics.Ordered
  placed : ∀ d ∈ diagnostics.items, Placed text d.span
  ending : ∀ d ∈ diagnostics.items, d.kind = .incomplete → AtEnd text d.span
  single : ∀ d ∈ diagnostics.items, ∀ e ∈ diagnostics.items, d.kind = .incomplete →
    e.kind = .incomplete → d.sameProblem e = true

section Whole

variable {config : Config} {text : String}

/-- An empty text has no diagnostics. -/
theorem diagnostics_of_empty (empty : text.utf8ByteSize = 0) :
    (ofText config text).diagnostics.items = [] := by
  have none : text.toList = [] :=
    Text.eq_nil_of_byteLength ((Text.byteLength_toList text).trans empty)
  have nothing : lexemes config text = [] := by rw [lexemes, none, lexemes_nil]
  have ended : (upTo config text 0).ahead = [] := by
    obtain ⟨broken, ahead⟩ := (stands_beginning config text).ahead
    rw [nothing] at ahead
    exact ahead
  have run : run config text = beginning config text :=
    run_eq_of_ended (fun k earlier => absurd earlier (Nat.not_lt_zero k)) ended
  rw [diagnostics_ofText, run, reports_beginning, nothing]
  rfl

/-- The diagnostics of a parse of the whole text are tidy. -/
theorem tidy_ofText (config : Config) (text : String) :
    Tidy text (ofText config text).diagnostics where
  ordered := ordered_diagnostics config text
  placed := fun _ => placed_of_mem
  ending := by
    intro d member incomplete
    have stop := stop_of_incomplete member incomplete
    constructor
    · apply Nat.pos_of_ne_zero
      intro none
      rw [diagnostics_of_empty (stop.symm.trans none)] at member
      exact absurd member List.not_mem_nil
    · exact stop
  single := by
    intro d member e member' incomplete incomplete'
    rw [incomplete_unique member member' incomplete incomplete']
    exact Diagnostic.sameProblem_self e

end Whole

/-- A diagnostic that a reparse takes over: one in front of the edit, which stays where it is, or one
behind the edit, which moves with the text. -/
inductive TakenOver (edit : TextEdit) (diagnostics : Diagnostics) : Diagnostic → Prop
  | stays {d : Diagnostic} (known : d ∈ diagnostics.items) (before : d.span.stop ≤ edit.offset)
    (complete : d.kind ≠ .incomplete) : TakenOver edit diagnostics d
  | moves {d : Diagnostic} (known : d ∈ diagnostics.items) (behind : edit.oldStop < d.span.start) :
    TakenOver edit diagnostics (d.shift edit.delta)

/-- What is known of a diagnostic that a reparse has found in the new text. -/
structure Found (text : String) (d : Diagnostic) : Prop where
  placed : Placed text d.span
  ending : d.kind = .incomplete → AtEnd text d.span

/-- The diagnostics that a reparse takes over and those that it has found: that the text ends too
early is reported by the one or by the other. -/
structure Renewed (edit : TextEdit) (diagnostics : Diagnostics) (newText : String)
    (outside found : List Diagnostic) : Prop where
  taken : ∀ d ∈ outside, TakenOver edit diagnostics d
  sound : ∀ d ∈ found, Found newText d
  single : (∀ d ∈ found, d.kind ≠ .incomplete) ∨ (∀ d ∈ outside, d.kind ≠ .incomplete) ∧
    ∀ d ∈ found, ∀ e ∈ found, d.kind = .incomplete → e.kind = .incomplete →
      d.sameProblem e = true

section Step

variable {edit : TextEdit} {text newText : String} {front replaced back : List Char}
  {diagnostics : Diagnostics} {outside found : List Diagnostic}

/-- What is behind an edit moves with the text. -/
theorem exists_shifted (applied : edit.Applied text newText front replaced back)
    (small : newText.utf8ByteSize < 0x100000000) {d : Diagnostic} (placed : Placed text d.span)
    (behind : edit.oldStop ≤ d.span.start) :
    ∃ start stop, (d.shift edit.delta).span = ⟨start, stop⟩ ∧
      (d.span.start : Int) + edit.delta = start ∧ (d.span.stop : Int) + edit.delta = stop := by
  have size := applied.size_eq
  have delta := applied.delta_eq
  have old := applied.byteLength_old
  rw [Text.byteLength_append] at old
  obtain ⟨ordered, inside⟩ := placed.inside
  refine ⟨_, _, rfl, ?_, ?_⟩
  · rw [Span.shiftOffset]
    omega
  · rw [Span.shiftOffset]
    omega

/-- What is taken over is about whole characters of the new text. -/
theorem TakenOver.placed (applied : edit.Applied text newText front replaced back)
    (small : newText.utf8ByteSize < 0x100000000) (placed : ∀ d ∈ diagnostics.items, Placed text d.span)
    {d : Diagnostic} (taken : TakenOver edit diagnostics d) : Placed newText d.span := by
  cases taken with
  | stays known before =>
    obtain ⟨ordered, start, stop⟩ := placed d known
    exact ⟨ordered, applied.isBoundary_before (Nat.le_trans ordered before) start,
      applied.isBoundary_before before stop⟩
  | @moves e known behind =>
    have whole := placed e known
    obtain ⟨start, stop, span, start_eq, stop_eq⟩ :=
      exists_shifted applied small whole (Nat.le_of_lt behind)
    obtain ⟨ordered, starts, stops⟩ := whole
    rw [span]
    refine ⟨?_, ?_, ?_⟩
    · change start ≤ stop
      omega
    · exact applied.isBoundary_behind (Nat.le_of_lt behind) start_eq starts
    · exact applied.isBoundary_behind (Nat.le_of_lt (Nat.lt_of_lt_of_le behind ordered)) stop_eq stops

/-- A report that the text ends too early moves to the new end. -/
theorem TakenOver.ending (applied : edit.Applied text newText front replaced back)
    (small : newText.utf8ByteSize < 0x100000000) (tidy : Tidy text diagnostics) {d : Diagnostic}
    (taken : TakenOver edit diagnostics d) (incomplete : d.kind = .incomplete) :
    AtEnd newText d.span := by
  cases taken with
  | stays _ _ complete => exact absurd incomplete complete
  | @moves e known behind =>
    have placed := tidy.placed e known
    obtain ⟨start, stop, span, start_eq, stop_eq⟩ :=
      exists_shifted applied small placed (Nat.le_of_lt behind)
    have ends := (tidy.ending e known incomplete).2
    have size := applied.size_eq
    have old := applied.byteLength_old
    have delta := applied.delta_eq
    have ordered := placed.ordered
    rw [Text.byteLength_append] at old
    rw [span]
    constructor
    · change 0 < stop
      omega
    · change stop = _
      omega

/-- It is taken over once at most. -/
theorem TakenOver.single (tidy : Tidy text diagnostics) {d e : Diagnostic}
    (taken : TakenOver edit diagnostics d) (taken' : TakenOver edit diagnostics e)
    (incomplete : d.kind = .incomplete) (incomplete' : e.kind = .incomplete) :
    d.sameProblem e = true := by
  cases taken with
  | stays _ _ complete => exact absurd incomplete complete
  | moves known =>
    cases taken' with
    | stays _ _ complete => exact absurd incomplete' complete
    | moves known' =>
      have same := tidy.single _ known _ known' incomplete incomplete'
      obtain ⟨span, code⟩ := Diagnostic.sameProblem_iff.mp same
      exact Diagnostic.sameProblem_iff.mpr ⟨congrArg (Span.shift edit.delta) span, code⟩

/-- A reparse keeps diagnostics tidy. -/
theorem Renewed.tidy (renewed : Renewed edit diagnostics newText outside found)
    (applied : edit.Applied text newText front replaced back)
    (small : newText.utf8ByteSize < 0x100000000) (tidy : Tidy text diagnostics) :
    Tidy newText ((Diagnostics.ofList outside).extend found) := by
  have origin {d : Diagnostic}
      (member : d ∈ ((Diagnostics.ofList outside).extend found).items) : d ∈ outside ∨ d ∈ found :=
    (Diagnostics.mem_extend.mp member).imp (fun member => (Diagnostics.mem_ofList.mp member).mem)
      fun added => added.2.mem
  refine ⟨(Diagnostics.ordered_ofList outside).extend found, ?_, ?_, ?_⟩
  · intro d member
    rcases origin member with kept | added
    · exact (renewed.taken d kept).placed applied small tidy.placed
    · exact (renewed.sound d added).placed
  · intro d member incomplete
    rcases origin member with kept | added
    · exact (renewed.taken d kept).ending applied small tidy incomplete
    · exact (renewed.sound d added).ending incomplete
  · intro d member e member' incomplete incomplete'
    rcases renewed.single with complete | ⟨complete, single⟩
    · have kept := (origin member).resolve_right fun added => complete d added incomplete
      have kept' := (origin member').resolve_right fun added => complete e added incomplete'
      exact (renewed.taken d kept).single tidy (renewed.taken e kept') incomplete incomplete'
    · have added := (origin member).resolve_left fun kept => complete d kept incomplete
      have added' := (origin member').resolve_left fun kept => complete e kept incomplete'
      exact single d added e added' incomplete incomplete'

end Step

end LosslessSyntax.Parse

namespace LosslessSyntax.Reparse

open Lexeme Grammar Parse

variable {old : Parse} {edit : TextEdit} {newText : String} {result : Result}
  {front replaced back : List Char}

/-- Changing one leaf keeps diagnostics tidy. -/
theorem tidy_of_changeLeafAt? {offset : Nat}
    (applied : edit.Applied old.text newText front replaced back)
    (small : newText.utf8ByteSize < 0x100000000) (tidy : Tidy old.text old.diagnostics)
    (changed : changeLeafAt? old edit newText offset = some result) :
    Tidy newText result.diagnostics := by
  obtain ⟨path, start, kind, text, token, scanner, change, -, diagnostics⟩ :=
    changeLeafAt?_eq_some changed
  have starts := change.starts
  have stops := change.stops
  have within := applied.offset_le
  have taken : ∀ d ∈ old.diagnostics.items,
      TakenOver edit old.diagnostics (movedPast (start + text.utf8ByteSize) edit.delta d) := by
    intro d member
    have ordered := (tidy.placed d member).ordered
    rcases change.untouched d member with before | behind
    · have complete : d.kind ≠ .incomplete := by
        intro incomplete
        have ends := (tidy.ending d member incomplete).2
        omega
      rw [movedPast, if_neg (by omega)]
      exact .stays member (by omega) complete
    · rw [movedPast, if_pos behind]
      exact .moves member (by omega)
  have renewed : Renewed edit old.diagnostics newText (old.diagnostics.items.map
      (movedPast (start + text.utf8ByteSize) edit.delta)) [] :=
    ⟨List.forall_mem_map.mpr taken, fun _ member => absurd member List.not_mem_nil,
      .inl fun _ member => absurd member List.not_mem_nil⟩
  rw [diagnostics]
  exact renewed.tidy applied small tidy

section Block

variable {found : Enclosing} {before inside inside' after : List Lexeme}
  (cut : BlockCut old.config.operatorLimit old.text newText before inside inside' after)
  (read : BlockRead old edit newText found before inside' after)
include cut

/-- The tokens of the block are tokens of the text. -/
theorem mem_tokens_of_block {token : Token}
    (member : token ∈ tokensAt (Position.start.after (charsOf before)) (braced inside')) :
    token ∈ tokensAt .start (Parse.lexemes old.config newText) := by
  rw [Parse.lexemes, cut.new, tokensAt_append, tokensAt_append]
  exact List.mem_append_right _ (List.mem_append_left _ member)

/-- What is wrong in the block is wrong in the text. -/
theorem mem_faults_of_block {d : Diagnostic}
    (member : d ∈ faultsAt (Position.start.after (charsOf before)) (openBrace :: inside')) :
    d ∈ faultsAt .start (Parse.lexemes old.config newText) := by
  rw [Parse.lexemes, cut.new, faultsAt_append, faultsAt_append, braced, ← List.cons_append,
    faultsAt_append]
  exact List.mem_append_right _ (List.mem_append_left _ (List.mem_append_left _ member))

include read

/-- The grammar reports at whole characters of the block. -/
theorem placed_blockEnd {d : Diagnostic}
    (member : d ∈ (blockEnd old edit newText found).reports.items) : Placed newText d.span := by
  obtain ⟨ahead, finish, proper⟩ := blockStart_eq cut read
  have stop : Placed newText (.empty (newStop edit found)) := by
    apply placed_empty
    rw [TextEdit.isBoundary_iff]
    refine ⟨charsOf before ++ charsOf (braced inside'), charsOf after, ?_, ?_⟩
    · rw [← Parse.charsOf_lexemes old.config, Parse.lexemes, cut.new, charsOf_append, charsOf_append,
        List.append_assoc]
    · rw [read.stop, Text.byteLength_append]
  have abreast : Abreast (.within (Placed newText)) [] [] (blockStart old edit newText found)
      (blockStart old edit newText found) := by
    apply abreast_fresh proper rfl
    · intro a member
      exact placed_of_mem_tokensAt
        (mem_tokens_of_block cut (Lookahead.mem_ofTokens (ahead ▸ member)).1)
    · rw [finish]
      exact ⟨stop, stop⟩
  obtain ⟨log, made, placed⟩ :=
    @exists_log_block old.config (old.config.maxDepth - found.depth) _ _ _ abreast (Nat.zero_le _)
  rw [blockEnd, made] at member
  exact placed d (Diagnostics.mem_ofList.mp member).mem

/-- What is found when a block is parsed again is about whole characters, and none of it says that
the text ends too early. -/
theorem BlockChange.found_of_mem (change : BlockChange old edit newText found) {d : Diagnostic}
    (member : d ∈ (blockOutcome old edit newText found).diagnostics.items) :
    Placed newText d.span ∧ d.kind ≠ .incomplete := by
  rcases Diagnostics.mem_extend.mp member with reported | ⟨-, added⟩
  · refine ⟨placed_blockEnd cut read reported, ?_⟩
    intro incomplete
    apply change.closes
    refine ⟨d, member, ?_⟩
    have run := Reporting.block old.config (old.config.maxDepth - found.depth)
      (blockStart old edit newText found)
    have made := (run.made d reported).resolve_left List.not_mem_nil
    exact made.code_of_incomplete incomplete
  · have listed : d ∈ (blockSource old edit newText found).diagnostics.items :=
      (List.mem_filter.mp added.mem).1
    rw [diagnostics_blockSource cut read] at listed
    have within := (Diagnostics.mem_ofList.mp listed).mem
    have known := mem_faults_of_block cut within
    constructor
    · obtain ⟨token, inside, span⟩ := mem_faultsAt known
      rw [span]
      exact (placed_of_mem_tokensAt inside).1
    · intro incomplete
      have stop := stop_of_incomplete_fault known incomplete
      have early := cut.stop_of_mem_faults within
      rw [Text.byteLength_toList] at stop
      change _ = 0 + _ at stop
      omega

end Block

/-- Parsing one block again keeps diagnostics tidy. -/
theorem tidy_of_changeBlock? (fresh : old.Fresh)
    (applied : edit.Applied old.text newText front replaced back)
    (small : newText.utf8ByteSize < 0x100000000) (tidy : Tidy old.text old.diagnostics)
    (changed : changeBlock? old edit newText = some result) : Tidy newText result.diagnostics := by
  obtain ⟨found, outside, change, -, kept, diagnostics⟩ := changeBlock?_eq_some changed
  have search := change.search
  rw [fresh, Parse.tree_ofText] at search
  obtain ⟨_, _, _, _, embraces, -⟩ :=
    exists_of_enclosing? search change.closed (Nat.le_of_eq Parse.countAll_run)
  obtain ⟨before, inside, inside', after, -, -, -, cut, read⟩ := change.exists_cut applied embraces
  have starts := embraces.starts
  have stops := embraces.stops
  have within := applied.offset_le
  have renewed : Renewed edit old.diagnostics newText outside
      (blockOutcome old edit newText found).diagnostics.items := by
    refine ⟨?_, ?_, ?_⟩
    · intro d member
      obtain ⟨close, stop⟩ := Nat.exists_eq_succ_of_ne_zero (Nat.ne_of_gt (Nat.zero_lt_of_lt stops))
      rw [stop] at kept
      obtain ⟨rfl, -⟩ := outsideBlock?_eq kept
      obtain ⟨e, known, place⟩ := List.mem_filterMap.mp member
      rcases of_outsideAt place with ⟨before, rfl⟩ | ⟨behind, rfl⟩
      · have complete : d.kind ≠ .incomplete := by
          intro incomplete
          have ends := (tidy.ending d known incomplete).2
          omega
        exact .stays known (by omega) complete
      · exact .moves known (by omega)
    · intro d member
      obtain ⟨placed, complete⟩ := change.found_of_mem cut read member
      exact ⟨placed, fun incomplete => absurd incomplete complete⟩
    · left
      intro d member
      exact (change.found_of_mem cut read member).2
  rw [diagnostics]
  exact renewed.tidy applied small tidy

/-- The segment begins with the text or before the edit. -/
theorem ChangedSegment.start_lt {first start last : Nat} {outside : List Diagnostic}
    (change : ChangedSegment old edit newText result first start last outside) :
    start = 0 ∨ start < edit.offset := by
  rcases change.starts with ⟨-, start⟩ | ⟨child, -, start, -, before, -⟩
  · exact .inl start
  · have within : child.start ≤ child.span.stop := Nat.le_add_right _ _
    exact .inr (by omega)

section Segment

variable {first start last : Nat} {head behind lexemes tail oldFront : List Lexeme}
  {before others outlines oldBefore after : List Outline} {log : List Diagnostic}
  (cut : SegmentCut old edit newText first start last head behind lexemes tail oldFront before others
    outlines oldBefore after log)
include cut

/-- What the grammar logs in the segment is reported when the whole text is parsed. -/
theorem SegmentCut.exists_reported {d : Diagnostic} (logged : d ∈ log) :
    ∃ e ∈ (run old.config newText).reports.items, e.span = d.span ∧ e.code = d.code := by
  obtain ⟨e, reported, same⟩ := Diagnostics.exists_mem_extend
    (upTo old.config newText before.length).reports logged
  rw [← cut.stretch.reports] at reported
  refine ⟨e, ?_, same⟩
  rw [cut.stretch.seam.run_eq.1]
  exact (runs_statements _ _).kept e reported

/-- What is wrong with the lexemes of the segment is wrong in the whole text. -/
theorem SegmentCut.mem_faults {d : Diagnostic}
    (wrong : d ∈ faultsAt (Position.start.after (charsOf head)) lexemes) :
    d ∈ faultsAt .start (Parse.lexemes old.config newText) := by
  rw [cut.stretch.seam.lexemes, faultsAt_append, faultsAt_append]
  exact List.mem_append_left _ (List.mem_append_right _ wrong)

/-- What is found in the segment is found in the whole text. -/
theorem SegmentCut.exists_found {d : Diagnostic}
    (member : d ∈ log ++ faultsAt (Position.start.after (charsOf head)) lexemes) :
    ∃ e ∈ (ofText old.config newText).diagnostics.items, e.span = d.span ∧ e.code = d.code := by
  rw [diagnostics_ofText]
  rcases List.mem_append.mp member with logged | wrong
  · obtain ⟨e, reported, same⟩ := cut.exists_reported logged
    exact ⟨e, Diagnostics.mem_extend_of_mem _ reported, same⟩
  · exact Diagnostics.exists_mem_extend _ (cut.mem_faults wrong)

/-- It is in place. -/
theorem SegmentCut.found_of_mem {d : Diagnostic}
    (member : d ∈ log ++ faultsAt (Position.start.after (charsOf head)) lexemes) :
    Found newText d := by
  have whole := tidy_ofText old.config newText
  obtain ⟨e, known, span, code⟩ := cut.exists_found member
  have kind : e.kind = d.kind := congrArg DiagnosticCode.kind code
  constructor
  · rw [← span]
    exact whole.placed e known
  · intro incomplete
    rw [← span]
    exact whole.ending e known (kind.trans incomplete)

/-- That the text ends too early is found once at most. -/
theorem SegmentCut.sameProblem_of_mem {d d' : Diagnostic}
    (member : d ∈ log ++ faultsAt (Position.start.after (charsOf head)) lexemes)
    (member' : d' ∈ log ++ faultsAt (Position.start.after (charsOf head)) lexemes)
    (incomplete : d.kind = .incomplete) (incomplete' : d'.kind = .incomplete) :
    d.sameProblem d' = true := by
  have whole := tidy_ofText old.config newText
  obtain ⟨e, known, span, code⟩ := cut.exists_found member
  obtain ⟨e', known', span', code'⟩ := cut.exists_found member'
  have kind : e.kind = .incomplete := (congrArg DiagnosticCode.kind code).trans incomplete
  have kind' : e'.kind = .incomplete := (congrArg DiagnosticCode.kind code').trans incomplete'
  have same := whole.single e known e' known' kind kind'
  obtain ⟨spans, codes⟩ := Diagnostic.sameProblem_iff.mp same
  exact Diagnostic.sameProblem_iff.mpr
    ⟨span.symm.trans (spans.trans span'), code.symm.trans (codes.trans code')⟩

/-- If the old text is taken over again, the end of the text is not reported before. -/
theorem SegmentCut.complete_of_mem (some : tail ≠ []) {d : Diagnostic}
    (member : d ∈ log ++ faultsAt (Position.start.after (charsOf head)) lexemes) :
    d.kind ≠ .incomplete := by
  intro incomplete
  obtain ⟨target, rest, rfl⟩ := List.exists_cons_of_ne_nil some
  have size := cut.stretch.seam.size
  have later := Text.byteLength_pos (cut.stretch.seam.solid target (by simp))
  rw [charsOf_cons, Text.byteLength_append] at size
  rcases List.mem_append.mp member with logged | wrong
  · obtain ⟨e, reported, span, code⟩ := cut.exists_reported logged
    have kind : e.kind = .incomplete := (congrArg DiagnosticCode.kind code).trans incomplete
    have ending := (ending_run reported kind).2.1
    have reached := (cut.stretch.amid d logged).2.1
    rw [← span, ending] at reached
    change newText.utf8ByteSize ≤ _ at reached
    omega
  · have ending := stop_of_incomplete_fault (cut.mem_faults wrong) incomplete
    have solid : ∀ lexeme ∈ lexemes, lexeme.chars ≠ [] := fun lexeme member =>
      cut.stretch.seam.solid lexeme (by simp [member])
    have span := span_of_mem_faultsAt solid wrong
    rw [Text.byteLength_toList] at ending
    rw [Position.offset_after_start] at span
    change _ = 0 + _ at ending
    rw [charsOf_append, Text.byteLength_append] at size
    omega

/-- What is behind the place at which the old text is taken over again is behind the edit. -/
theorem SegmentCut.behind_edit {span : Span} (inside : Inside old.text span)
    (reached : Text.byteLength (charsOf oldFront) < span.start) :
    edit.oldStop < span.start ∧ tail ≠ [] := by
  have size := cut.resumes.size
  obtain ⟨ordered, within⟩ := inside
  have some : tail ≠ [] := by
    rintro rfl
    rw [charsOf_nil, Text.byteLength_nil] at size
    omega
  rcases cut.stops with ⟨-, none, -⟩ | ⟨-, -, later, -⟩
  · exact absurd none some
  · exact ⟨Nat.lt_of_le_of_lt later reached, some⟩

end Segment

/-- Parsing some statements again keeps diagnostics tidy. -/
theorem tidy_of_changeSegment? (fresh : old.Fresh)
    (applied : edit.Applied old.text newText front replaced back)
    (small : newText.utf8ByteSize < 0x100000000) (tidy : Tidy old.text old.diagnostics)
    (changed : changeSegment? old edit newText = some result) : Tidy newText result.diagnostics := by
  obtain ⟨first, start, last, outside, change⟩ := changeSegment?_eq_some changed
  obtain ⟨head, behind, lexemes, tail, oldFront, before, others, outlines, oldBefore, after, log, cut⟩ :=
    exists_segmentCut fresh applied change
  have within := applied.offset_le
  have kept := cut.outside_eq change fun d member => (tidy.placed d member).inside
  -- what is outside stays, or moves behind the place at which the old text is taken over again
  have taken : ∀ d ∈ outside, TakenOver edit old.diagnostics d ∧
      (d.kind = .incomplete → tail ≠ []) := by
    intro d member
    rw [kept, List.mem_filterMap] at member
    obtain ⟨e, known, place⟩ := member
    rcases of_outsideAt place with ⟨before, rfl⟩ | ⟨later, rfl⟩
    · have complete : d.kind ≠ .incomplete := by
        intro incomplete
        have ends := tidy.ending d known incomplete
        have begins := change.start_lt
        rw [AtEnd] at ends
        omega
      exact ⟨.stays known (Nat.le_trans before cut.starts) complete, fun incomplete =>
        absurd incomplete complete⟩
    · obtain ⟨past, some⟩ := cut.behind_edit (tidy.placed e known).inside later
      exact ⟨.moves known past, fun _ => some⟩
  have listed : ∀ d ∈ (segmentOutcome old edit newText start).diagnostics.items,
      d ∈ log ++ faultsAt (Position.start.after (charsOf head)) lexemes := by
    intro d member
    rw [cut.diagnostics_outcome] at member
    exact (Diagnostics.mem_ofList.mp member).mem
  have renewed : Renewed edit old.diagnostics newText outside
      (segmentOutcome old edit newText start).diagnostics.items := by
    refine ⟨?_, ?_, ?_⟩
    · intro d member
      exact (taken d member).1
    · intro d member
      exact cut.found_of_mem (listed d member)
    · by_cases none : tail = []
      · right
        constructor
        · intro d member incomplete
          exact (taken d member).2 incomplete none
        · intro d member e member'
          exact cut.sameProblem_of_mem (listed d member) (listed e member')
      · left
        intro d member
        exact cut.complete_of_mem none (listed d member)
  rw [change.diagnostics]
  exact renewed.tidy applied small tidy

end LosslessSyntax.Reparse

namespace LosslessSyntax.Parse

variable {config : Config} {edit : TextEdit} {old new : Parse} {strategy : Strategy}

/-- A reparse that succeeds keeps diagnostics tidy, whichever strategy it takes, if the new text is
small enough for their places to be stored. -/
theorem Tidy.reparse (tidy : Tidy old.text old.diagnostics) (fresh : old.Fresh)
    (reparsed : old.reparse config edit = .ok (new, strategy))
    (small : new.text.utf8ByteSize < 0x100000000) : Tidy new.text new.diagnostics := by
  obtain ⟨newText, applies, ⟨rfl, -⟩ | ⟨result, rfl, change, rfl⟩⟩ := reparse_eq_ok reparsed
  · exact tidy_ofText config newText
  · obtain ⟨front, replaced, back, applied⟩ := TextEdit.exists_applied applies
    cases change with
    | leaf offset change => exact Reparse.tidy_of_changeLeafAt? applied small tidy change
    | block change => exact Reparse.tidy_of_changeBlock? fresh applied small tidy change
    | segment change => exact Reparse.tidy_of_changeSegment? fresh applied small tidy change

theorem Tidy.revise (tidy : Tidy old.text old.diagnostics) (fresh : old.Fresh) (revision : Revision)
    (small : (old.revise revision).text.utf8ByteSize < 0x100000000) :
    Tidy (old.revise revision).text (old.revise revision).diagnostics := by
  rw [Parse.revise] at small ⊢
  cases answered : old.answer revision with
  | error => exact tidy
  | ok found =>
    obtain ⟨new, strategy⟩ := found
    rw [answered] at small
    exact tidy.reparse fresh answered small

/-- Sessions keep diagnostics tidy. -/
theorem tidy_session {text : String} {revisions : List Revision}
    (small : ∀ count ≤ revisions.length,
      (session config text (revisions.take count)).text.utf8ByteSize < 0x100000000) :
    Tidy (session config text revisions).text (session config text revisions).diagnostics := by
  induction revisions using List.reverseRecOn with
  | nil => exact tidy_ofText config text
  | append_singleton earlier last ih =>
    have step : session config text (earlier ++ [last]) =
        (session config text earlier).revise last := List.foldl_concat ..
    have before := ih fun count within => by
      have known := small count (by rw [List.length_append]; omega)
      rwa [List.take_append_of_le_length within] at known
    have here := small _ (Nat.le_refl _)
    rw [List.take_length] at here
    rw [step] at here ⊢
    exact before.revise (fresh_session config text earlier) last here

/-- At any point of a session the diagnostics increase strictly by start, end and code, lie within the
text with both ends between characters, and hold at most one report of an incomplete text, as long as
the texts are small enough for the places to be stored. -/
theorem session_diagnostics (config : Config) (text : String) (revisions : List Revision)
    (small : ∀ count ≤ revisions.length,
      (session config text (revisions.take count)).text.utf8ByteSize < 0x100000000) :
    let parse := session config text revisions
    parse.diagnostics.items.Pairwise Diagnostic.Precedes ∧
      (∀ d ∈ parse.diagnostics.items, d.span.start ≤ d.span.stop ∧
        d.span.stop ≤ parse.text.utf8ByteSize ∧ Text.isBoundary parse.text d.span.start = true ∧
        Text.isBoundary parse.text d.span.stop = true) ∧
      (parse.diagnostics.items.filter fun d => d.kind = .incomplete).length ≤ 1 := by
  have tidy := tidy_session small
  refine ⟨tidy.ordered.precedes, ?_, ?_⟩
  · intro d member
    have placed := tidy.placed d member
    exact ⟨placed.ordered, placed.inside.2, placed.start, placed.stop⟩
  · apply tidy.ordered.length_filter_le
    intro d member e member' incomplete incomplete'
    apply tidy.ordered.eq_of_sameProblem member member'
    exact tidy.single d member e member' (of_decide_eq_true incomplete) (of_decide_eq_true incomplete')

/-- A block that is parsed again, some statements at the end, and then a name in front of them: the
report that the text ends too early moves, the one that is lost does not come back. -/
theorem session_diagnostics_behind_edits :
    let parse := session ⟨3, .empty, 4⟩ "if \x7b \x7d\nb\nc\nd"
      [⟨none, ⟨4, 0, "a"⟩⟩, ⟨none, ⟨13, 0, "(é"⟩⟩, ⟨none, ⟨8, 0, "b"⟩⟩]
    (parse.text = "if \x7ba \x7d\nbb\nc\nd(é" ∧ parse.diagnostics.items.map (·.text) =
        ["error[P003]: expected `)`, found end of input at 17..17"]) ∧
      parse.diagnostics.items.Pairwise Diagnostic.Precedes ∧
      (∀ d ∈ parse.diagnostics.items, d.span.start ≤ d.span.stop ∧
        d.span.stop ≤ parse.text.utf8ByteSize ∧ Text.isBoundary parse.text d.span.start = true ∧
        Text.isBoundary parse.text d.span.stop = true) ∧
      (parse.diagnostics.items.filter fun d => d.kind = .incomplete).length ≤ 1 :=
  ⟨by decide +kernel, session_diagnostics _ _ _ (by decide +kernel)⟩

end LosslessSyntax.Parse
