import LosslessSyntax.Proofs.Reparse.Segment

/-! # Parsing some statements again gives the diagnostics of the new text

The diagnostics of a text fall into those before, within and after the statements that are parsed
again (`Side`). Those before are the same in both texts, those after have moved with the text, and
those within are the ones that parsing the statements again yields (`diagnostics_of_changeSegment?`).
-/

namespace LosslessSyntax.Reparse

open Lexeme Leaf Outline Parse Grammar

/-- Where a place lies, seen from a segment. -/
inductive Side where
  | before
  | within
  | after
deriving DecidableEq

/-- Where a span lies, seen from the segment between two offsets. -/
def side (start stop : Nat) (span : Span) : Side :=
  if span.stop ≤ start then .before else if stop < span.start then .after else .within

theorem side_eq_before_iff {start stop : Nat} {span : Span} :
    side start stop span = .before ↔ span.stop ≤ start := by
  rw [side]
  split
  · exact iff_of_true rfl ‹_›
  · split <;> exact iff_of_false (fun same => nomatch same) ‹_›

theorem side_eq_within {start stop : Nat} {span : Span} (some : start < span.stop)
    (reached : span.start ≤ stop) : side start stop span = .within := by
  rw [side, if_neg (by omega), if_neg (by omega)]

theorem side_eq_after {start stop : Nat} {span : Span} (ordered : start ≤ stop)
    (some : span.start ≤ span.stop) (behind : stop < span.start) :
    side start stop span = .after := by
  rw [side, if_neg (by omega), if_pos behind]

/-- Diagnostics before, within and after a segment. -/
structure Parted (start stop : Nat) (front middle back : List Diagnostic) : Prop where
  front : ∀ d ∈ front, side start stop d.span = .before
  middle : ∀ d ∈ middle, side start stop d.span = .within
  back : ∀ d ∈ back, side start stop d.span = .after

/-- Of parted diagnostics, the part on one side. -/
def Side.pick (front middle back : List Diagnostic) : Side → List Diagnostic
  | before => front
  | within => middle
  | after => back

theorem pick_append {front middle back front' middle' back' : List Diagnostic} (here : Side) :
    here.pick front middle back ++ here.pick front' middle' back' =
      here.pick (front ++ front') (middle ++ middle') (back ++ back') := by
  cases here <;> rfl

theorem Parted.filter {start stop : Nat} {front middle back : List Diagnostic}
    (parted : Parted start stop front middle back) (here : Side) :
    (front ++ middle ++ back).filter (fun d => side start stop d.span = here) =
      here.pick front middle back := by
  have picks {list : List Diagnostic} {there : Side}
      (all : ∀ d ∈ list, side start stop d.span = there) :
      list.filter (fun d => side start stop d.span = here) = if there = here then list else [] := by
    split
    case isTrue same =>
      exact List.filter_eq_self.mpr fun d member => decide_eq_true ((all d member).trans same)
    case isFalse different =>
      refine List.filter_eq_nil_iff.mpr fun d member => ?_
      rw [all d member, decide_eq_true_eq]
      exact different
  rw [List.filter_append, List.filter_append, picks parted.front, picks parted.middle,
    picks parted.back]
  cases here <;> simp [Side.pick]

/-- What becomes of a diagnostic outside the statements that are parsed again. -/
def outsideAt (start stop : Nat) (delta : Int) (d : Diagnostic) : Option Diagnostic :=
  match side start stop d.span with
  | .before => some d
  | .within => none
  | .after => some (d.shift delta)

/-- Diagnostics outside a segment stay or move. -/
theorem of_outsideAt {start stop : Nat} {delta : Int} {d e : Diagnostic}
    (taken : outsideAt start stop delta e = some d) :
    e.span.stop ≤ start ∧ d = e ∨ stop < e.span.start ∧ d = e.shift delta := by
  rw [outsideAt] at taken
  split at taken
  case h_1 place => exact .inl ⟨side_eq_before_iff.mp place, (Option.some.inj taken).symm⟩
  case h_2 => cases taken
  case h_3 place =>
    rw [side] at place
    split at place
    · cases place
    · split at place
      case isTrue behind => exact .inr ⟨behind, (Option.some.inj taken).symm⟩
      case isFalse => cases place

/-- The diagnostics that are taken over are those outside the segment, which may reach up to the end
of the text. -/
theorem outsideSegment?_eq {start stop : Nat} {upTo : Option Nat} {delta : Int}
    {items outside : List Diagnostic}
    (ends : upTo = some stop ∨ upTo = none ∧ ∀ d ∈ items, d.span.start ≤ stop)
    (kept : outsideSegment? start upTo delta items = some outside) :
    outside = items.filterMap (outsideAt start stop delta) := by
  induction items generalizing outside with
  | nil => exact (Option.some.inj kept).symm
  | cons first rest ih =>
    have ends' : upTo = some stop ∨ upTo = none ∧ ∀ d ∈ rest, d.span.start ≤ stop :=
      ends.imp_right (And.imp_right fun all d member => all d (List.mem_cons_of_mem first member))
    rw [outsideSegment?.eq_def] at kept
    simp only at kept
    rw [List.filterMap_cons, outsideAt, side]
    split at kept
    case isTrue before =>
      obtain ⟨others, known, rfl⟩ := Option.map_eq_some_iff.mp kept
      rw [if_pos before, ih ends' known]
    case isFalse behind =>
      rw [if_neg behind]
      rcases ends with rfl | ⟨rfl, all⟩
      · simp only at kept
        split at kept
        case isTrue after =>
          obtain ⟨others, known, rfl⟩ := Option.map_eq_some_iff.mp kept
          rw [if_pos after, ih ends' known]
        case isFalse within =>
          rw [if_neg within]
          split at kept
          · exact ih ends' kept
          · exact nomatch kept
      · have within : ¬ stop < first.span.start := Nat.not_lt.mpr (all first List.mem_cons_self)
        simp only at kept
        rw [if_neg within]
        split at kept
        · exact ih ends' kept
        · exact nomatch kept

/-- On each side, the diagnostics that are taken over are those that were there. -/
theorem filter_outsideAt {start stop stop' : Nat} {delta : Int} {items : List Diagnostic}
    (moves : ∀ d ∈ items, side start stop d.span = .after →
      side start stop' (d.shift delta).span = .after) (here : Side) :
    (items.filterMap (outsideAt start stop delta)).filter
        (fun d => side start stop' d.span = here) =
      here.pick (items.filter fun d => side start stop d.span = .before) []
        ((items.filter fun d => side start stop d.span = .after).map (·.shift delta)) := by
  induction items with
  | nil => cases here <;> rfl
  | cons first rest ih =>
    have ih := ih fun d member => moves d (List.mem_cons_of_mem first member)
    rw [List.filterMap_cons, List.filter_cons, List.filter_cons, outsideAt]
    cases place : side start stop first.span with
    | before =>
      have place' : side start stop' first.span = .before :=
        side_eq_before_iff.mpr (side_eq_before_iff.mp place)
      rw [List.filter_cons, ih, place']
      cases here <;> rfl
    | within =>
      rw [ih]
      cases here <;> rfl
    | after =>
      rw [List.filter_cons, ih, moves first List.mem_cons_self place]
      cases here <;> rfl

/-- Diagnostics are pushed alike if those outside are taken over and those within are the same. -/
theorem ofList_outsideAt {start stop stop' : Nat} {delta : Int} {change : Diagnostic → Diagnostic}
    {old new front middle middle' back : List Diagnostic}
    (parts : ∀ here : Side, (old.filter fun d => side start stop d.span = here) =
      here.pick front middle back)
    (parts' : ∀ here : Side, (new.filter fun d => side start stop' d.span = here) =
      here.pick front middle' (back.map change))
    (within : ∀ d ∈ middle', side start stop' d.span = .within)
    (moves : ∀ d ∈ back, d.shift delta = change d)
    (apart : ∀ d ∈ back, ∀ e ∈ back, (change d).sameProblem (change e) = d.sameProblem e) :
    Diagnostics.ofList ((Diagnostics.ofList old).items.filterMap (outsideAt start stop delta) ++
      middle') = .ofList new := by
  have places (here : Side) : ((Diagnostics.ofList old).items.filter fun d =>
      side start stop d.span = here) = (Diagnostics.ofList (here.pick front middle back)).items := by
    rw [← parts here]
    exact Diagnostics.ofList_filter (fun span => side start stop span = here) old
  have stays : ∀ d ∈ (Diagnostics.ofList old).items, side start stop d.span = .after →
      side start stop' (d.shift delta).span = .after := by
    intro d member place
    have known : d ∈ old.filter fun d => side start stop d.span = .after :=
      List.mem_filter.mpr ⟨(Diagnostics.mem_ofList.mp member).mem, decide_eq_true place⟩
    rw [parts .after] at known
    have moved : change d ∈ new.filter fun d => side start stop' d.span = .after := by
      rw [parts' .after]
      exact List.mem_map_of_mem known
    rw [moves d known]
    exact of_decide_eq_true (List.mem_filter.mp moved).2
  have again (list : List Diagnostic) :
      Diagnostics.ofList (Diagnostics.ofList list).items = .ofList list :=
    Diagnostics.extend_items_ofList Diagnostics.ordered_empty list
  have picks (here : Side) : middle'.filter (fun d => side start stop' d.span = here) =
      here.pick [] middle' [] := by
    have parted : Parted start stop' [] middle' [] :=
      ⟨fun _ member => (nomatch member), within, fun _ member => (nomatch member)⟩
    have filtered := parted.filter here
    rwa [List.nil_append, List.append_nil] at filtered
  refine Diagnostics.ofList_eq_of_places (side start stop') fun here => ?_
  rw [List.filter_append, filter_outsideAt stays, parts' here, picks here]
  cases here with
  | before =>
    rw [Side.pick, places]
    simp only [Side.pick, List.append_nil, again]
  | within => rfl
  | after =>
    have moved : (Diagnostics.ofList back).items.map (·.shift delta) =
        (Diagnostics.ofList back).items.map change :=
      List.map_congr_left fun d member => moves d (Diagnostics.mem_ofList.mp member).mem
    rw [Side.pick, places]
    simp only [Side.pick, List.append_nil]
    rw [moved, Diagnostics.ofList_map apart]

section Places

variable {place place' : Nat} {d e : Diagnostic}

theorem shift_eq {delta : Int} (moved : (place : Int) + delta = place')
    (reached : place ≤ d.span.start) (some : d.span.start ≤ d.span.stop)
    (small : shifted place place' d.span.stop < 0x100000000) :
    d.shift delta = carried (shifted place place') d := by
  obtain ⟨severity, code, message, start, stop⟩ := d
  simp only [shifted] at reached some small
  have moves (x : Nat) (reached : place ≤ x) (within : x ≤ stop) :
      (((x : Int) + delta).toNat % 0x100000000) = x - place + place' := by omega
  simp only [Diagnostic.shift, Span.shift, Span.shiftOffset, carried, shifted,
    moves start reached some, moves stop (by omega) (Nat.le_refl _)]

theorem sameProblem_shifted (reached : place ≤ d.span.start) (some : d.span.start ≤ d.span.stop)
    (reached' : place ≤ e.span.start) (some' : e.span.start ≤ e.span.stop) :
    (carried (shifted place place') d).sameProblem (carried (shifted place place') e) =
      d.sameProblem e := by
  rw [Bool.eq_iff_iff, Diagnostic.sameProblem_iff, Diagnostic.sameProblem_iff]
  refine and_congr_left fun _ => ?_
  obtain ⟨severity, code, message, start, stop⟩ := d
  obtain ⟨severity', code', message', start', stop'⟩ := e
  simp only [carried, shifted, Span.mk.injEq] at reached some reached' some' ⊢
  omega

end Places

/-- Diagnostics in front of, inside and behind a segment, which ends at one place in a text and at
another one in the text after an edit. Those in front are the same in both texts, those inside belong
to one of them, and those behind are carried with the text. -/
structure Around (start stop stop' : Nat) (front middle middle' back : List Diagnostic) : Prop where
  front : ∀ d ∈ front, d.span.stop ≤ start
  middle : ∀ d ∈ middle, side start stop d.span = .within
  middle' : ∀ d ∈ middle', side start stop' d.span = .within
  back : ∀ d ∈ back, stop < d.span.start ∧ d.span.start ≤ d.span.stop

theorem side_of_amid {start stop : Nat} {span : Span} (amid : Amid start stop span) :
    side start stop span = .within := side_eq_within amid.2.2.1 amid.2.1

/-- What is wrong with a text is wrong in front of a part of it, inside this part, or behind it. -/
theorem faultsAt_parts (head middle tail : List Lexeme) :
    faultsAt .start (head ++ middle ++ tail) = faultsAt .start head ++
      faultsAt (Position.start.after (charsOf head)) middle ++
      faultsAt (Position.start.after (charsOf (head ++ middle))) tail := by
  rw [faultsAt_append, faultsAt_append]

/-- What is wrong behind a part of a text moves with the end of this part. -/
theorem faultsAt_behind (head middle middle' tail : List Lexeme) :
    faultsAt (Position.start.after (charsOf (head ++ middle'))) tail =
      (faultsAt (Position.start.after (charsOf (head ++ middle))) tail).map
        (carried (shifted (Text.byteLength (charsOf (head ++ middle)))
          (Text.byteLength (charsOf (head ++ middle'))))) := by
  have moved := @faultsAt_shifted tail (Position.start.after (charsOf (head ++ middle)))
    (Position.start.after (charsOf (head ++ middle')))
  rwa [Position.offset_after_start, Position.offset_after_start] at moved

/-- What is wrong with the lexemes in front of, inside and behind a segment. -/
theorem around_faults {head middle lexemes tail : List Lexeme}
    (solid : ∀ lexeme ∈ head ++ middle ++ tail, lexeme.chars ≠ [])
    (solid' : ∀ lexeme ∈ lexemes, lexeme.chars ≠ [])
    (behind : ∀ d ∈ faultsAt (Position.start.after (charsOf (head ++ middle))) tail,
      d.span.start ≠ Text.byteLength (charsOf (head ++ middle))) :
    Around (Text.byteLength (charsOf head)) (Text.byteLength (charsOf (head ++ middle)))
      (Text.byteLength (charsOf (head ++ lexemes))) (faultsAt .start head)
      (faultsAt (Position.start.after (charsOf head)) middle)
      (faultsAt (Position.start.after (charsOf head)) lexemes)
      (faultsAt (Position.start.after (charsOf (head ++ middle))) tail) := by
  have inside {middle : List Lexeme} (solid : ∀ lexeme ∈ middle, lexeme.chars ≠ []) :
      ∀ d ∈ faultsAt (Position.start.after (charsOf head)) middle,
        side (Text.byteLength (charsOf head)) (Text.byteLength (charsOf (head ++ middle))) d.span =
          .within := by
    intro d member
    have place := span_of_mem_faultsAt solid member
    rw [Position.offset_after_start] at place
    rw [charsOf_append, Text.byteLength_append]
    exact side_eq_within (by omega) (by omega)
  refine ⟨fun d member => ?_, inside fun lexeme member => solid lexeme (by simp [member]),
    inside solid', fun d member => ?_⟩
  · have place := span_of_mem_faultsAt (fun lexeme member => solid lexeme (by simp [member])) member
    change _ ∧ _ ∧ _ ≤ 0 + _ at place
    omega
  · have place := span_of_mem_faultsAt (fun lexeme member => solid lexeme (by simp [member])) member
    rw [Position.offset_after_start] at place
    exact ⟨Nat.lt_of_le_of_ne place.1 (behind d member).symm, Nat.le_of_lt place.2.1⟩

section Around

variable {start stop stop' : Nat} {front middle middle' back : List Diagnostic}
  (around : Around start stop stop' front middle middle' back)
include around

theorem Around.parted (ordered : start ≤ stop) : Parted start stop front middle back :=
  ⟨fun d member => side_eq_before_iff.mpr (around.front d member), around.middle, fun d member =>
    side_eq_after ordered (around.back d member).2 (around.back d member).1⟩

theorem Around.parted' (ordered : start ≤ stop') :
    Parted start stop' front middle' (back.map (carried (shifted stop stop'))) := by
  refine ⟨fun d member => side_eq_before_iff.mpr (around.front d member), around.middle',
    fun d member => ?_⟩
  obtain ⟨e, listed, rfl⟩ := List.mem_map.mp member
  have place := around.back e listed
  refine side_eq_after ordered ?_ ?_
  · simp only [carried, shifted]
    omega
  · simp only [carried, shifted]
    omega

/-- If what is outside the segment is taken over, what is logged and what is wrong with the lexemes
are pushed as if they had been pushed for the new text. -/
theorem Around.ofList_eq {front₂ middle₂ middle₂' back₂ : List Diagnostic} {delta : Int}
    (faults : Around start stop stop' front₂ middle₂ middle₂' back₂)
    (ordered : start ≤ stop) (ordered' : start ≤ stop')
    (moves : ∀ d ∈ back ++ back₂, d.shift delta = carried (shifted stop stop') d) :
    Diagnostics.ofList
        ((Diagnostics.ofList (front ++ middle ++ back ++ (front₂ ++ middle₂ ++ back₂))).items.filterMap
          (outsideAt start stop delta) ++ (middle' ++ middle₂')) =
      .ofList (front ++ middle' ++ back.map (carried (shifted stop stop')) ++
        (front₂ ++ middle₂' ++ back₂.map (carried (shifted stop stop')))) := by
  have far : ∀ d ∈ back ++ back₂, stop ≤ d.span.start ∧ d.span.start ≤ d.span.stop := by
    intro d member
    refine (List.mem_append.mp member).elim (fun member => ?_) fun member => ?_
    · exact (around.back d member).imp_left Nat.le_of_lt
    · exact (faults.back d member).imp_left Nat.le_of_lt
  refine @ofList_outsideAt start stop stop' delta (carried (shifted stop stop')) _ _
    (front ++ front₂) (middle ++ middle₂) (middle' ++ middle₂') (back ++ back₂) (fun here => ?_)
    (fun here => ?_) (fun d member => ?_) moves fun d member e member' => ?_
  · rw [List.filter_append, (around.parted ordered).filter, (faults.parted ordered).filter]
    exact pick_append here
  · rw [List.filter_append, (around.parted' ordered').filter, (faults.parted' ordered').filter,
      List.map_append]
    exact pick_append here
  · exact (List.mem_append.mp member).elim (around.middle' d) (faults.middle' d)
  · obtain ⟨behind, some⟩ := far d member
    obtain ⟨behind', some'⟩ := far e member'
    exact sameProblem_shifted behind some behind' some'

end Around

section Cut

variable {old : Parse} {edit : TextEdit} {newText : String} {result : Result}
  {first start last : Nat} {head back lexemes tail oldFront : List Lexeme}
  {before others outlines oldBefore after : List Outline} {log : List Diagnostic}
  (cut : SegmentCut old edit newText first start last head back lexemes tail oldFront before others
    outlines oldBefore after log)
include cut

/-- The old text is taken over again behind the place at which the segment begins. -/
theorem SegmentCut.exists_between :
    ∃ middle skipped, oldFront = head ++ middle ∧ back = middle ++ tail ∧
      oldBefore = before ++ skipped ∧ others = skipped ++ after := by
  refine cut.shared.seam.exists_between cut.resumes ?_
  rcases cut.stops with ⟨-, rfl, -⟩ | ⟨-, -, later, -⟩
  · have whole := cut.shared.seam.size
    have whole' := cut.resumes.size
    rw [charsOf_nil, Text.byteLength_nil] at whole'
    omega
  · have starts := cut.starts
    rw [cut.start_eq] at starts
    rw [TextEdit.oldStop] at later
    omega

/-- What is reported behind the segment is carried with the text. -/
theorem SegmentCut.exists_late :
    ∃ late, (run old.config old.text).reports =
        (upTo old.config old.text oldBefore.length).reports.extend late ∧
      (run old.config newText).reports =
        (upTo old.config newText (before ++ outlines).length).reports.extend
          (late.map (carried (shifted (Text.byteLength (charsOf oldFront))
            (Text.byteLength (charsOf (head ++ lexemes)))))) ∧
      (∀ d ∈ late, Text.byteLength (charsOf oldFront) ≤ d.span.start) ∧
      (tail = [] ∧ late = [] ∨
        (Text.byteLength (charsOf oldFront) : Int) + edit.delta =
            Text.byteLength (charsOf (head ++ lexemes)) ∧
          ∀ d ∈ old.diagnostics.items, d.span.start ≠ Text.byteLength (charsOf oldFront)) := by
  rcases cut.stops with ⟨-, rfl, rfl⟩ | ⟨-, moved, -, unreported⟩
  · have whole := (Parse.run_eq old.config old.text).1
    have whole' := (Parse.run_eq old.config newText).1
    rw [cut.resumes.outline, List.append_nil] at whole
    rw [cut.stretch.seam.outline, List.append_nil] at whole'
    rw [whole, whole']
    exact ⟨[], rfl, rfl, fun _ member => (nomatch member), .inl ⟨rfl, rfl⟩⟩
  · obtain ⟨late, late', made, made', same⟩ := cut.ends trivial
    obtain ⟨rfl, reached⟩ := eq_map_carried same
    exact ⟨late, made, made', reached, .inr ⟨moved, unreported⟩⟩

/-- What is reported before the segment is the same in both texts. -/
theorem SegmentCut.exists_early
    (known : ∀ early, (upTo old.config old.text before.length).reports =
      (beginning old.config old.text).reports.extend early → ∀ d ∈ early,
        ∃ e ∈ old.diagnostics.items, e.span = d.span) :
    ∃ early, (upTo old.config old.text before.length).reports =
        (beginning old.config old.text).reports.extend early ∧
      (upTo old.config newText before.length).reports =
        (beginning old.config newText).reports.extend early ∧
      ∀ d ∈ early, d.span.stop ≤ start := by
  obtain ⟨early, early', made, made', same⟩ := cut.begins trivial
  rcases cut.unreported with rfl | unreported
  · have none : before = [] := by
      cases before with
      | nil => rfl
      | cons outline rest =>
        have positive := @count_pos_of_mem old.config old.text outline (by
            rw [cut.shared.seam.outline]
            exact List.mem_append_left _ List.mem_cons_self)
        have count := cut.count
        rw [countAll_cons] at count
        change _ = 0 at count
        omega
    subst none
    exact ⟨[], rfl, rfl, fun _ member => nomatch member⟩
  · obtain ⟨rfl, within⟩ := eq_of_upToToken same fun d member => by
      obtain ⟨e, reported, span⟩ := known early made d member
      rw [← span, ← cut.start_eq]
      exact unreported e reported
    rw [← cut.start_eq] at within
    exact ⟨_, made, made', within⟩

/-- What is reported for the old text and for the new one, in front of, inside and behind the
segment. -/
theorem SegmentCut.exists_reports
    (diagnostics : old.diagnostics = (ofText old.config old.text).diagnostics) :
    ∃ early amid late, (run old.config old.text).reports =
        (beginning old.config old.text).reports.extend (early ++ amid ++ late) ∧
      (run old.config newText).reports = (beginning old.config newText).reports.extend
        (early ++ log ++ late.map (carried (shifted (Text.byteLength (charsOf oldFront))
          (Text.byteLength (charsOf (head ++ lexemes)))))) ∧
      (∀ d ∈ early, d.span.stop ≤ start) ∧
      (∀ d ∈ amid, Amid start (Text.byteLength (charsOf oldFront)) d.span) ∧
      (∀ d ∈ late, Text.byteLength (charsOf oldFront) ≤ d.span.start) ∧
      (tail = [] ∧ late = [] ∨
        (Text.byteLength (charsOf oldFront) : Int) + edit.delta =
            Text.byteLength (charsOf (head ++ lexemes)) ∧
          ∀ d ∈ old.diagnostics.items, d.span.start ≠ Text.byteLength (charsOf oldFront)) := by
  obtain ⟨late, madeLate, madeLate', reached, apart⟩ := cut.exists_late
  obtain ⟨middle, skipped, rfl, rfl, rfl, rfl⟩ := cut.exists_between
  obtain ⟨amid, madeAmid, amid_spans⟩ := cut.shared.seam.exists_log_to rfl rfl cut.resumes
  have whole (early : List Diagnostic)
      (made : (upTo old.config old.text before.length).reports =
        (beginning old.config old.text).reports.extend early) :
      (run old.config old.text).reports =
        (beginning old.config old.text).reports.extend (early ++ amid ++ late) := by
    rw [madeLate, madeAmid, made, Diagnostics.extend_append, Diagnostics.extend_append]
  obtain ⟨early, made, made', early_spans⟩ := cut.exists_early fun early made d member => by
    rw [diagnostics]
    exact exists_reported (whole early made) d (by simp [member])
  refine ⟨early, amid, late, whole early made, ?_, early_spans, ?_, reached, apart⟩
  · rw [madeLate', cut.stretch.reports, made', Diagnostics.extend_append, Diagnostics.extend_append]
  · rw [cut.start_eq]
    exact amid_spans

/-- What is found when the statements are parsed again. -/
theorem SegmentCut.diagnostics_outcome :
    (segmentOutcome old edit newText start).diagnostics =
      .ofList (log ++ faultsAt (Position.start.after (charsOf head)) lexemes) := by
  rw [segmentOutcome, cut.start_eq]
  exact cut.stretch.diagnostics

/-- The diagnostics that are taken over are those outside the segment. -/
theorem SegmentCut.outside_eq {outside : List Diagnostic}
    (change : ChangedSegment old edit newText result first start last outside)
    (known : ∀ d ∈ old.diagnostics.items, Inside old.text d.span) :
    outside = old.diagnostics.items.filterMap
      (outsideAt start (Text.byteLength (charsOf oldFront)) edit.delta) := by
  refine outsideSegment?_eq ?_ change.kept
  rcases cut.stops with ⟨resumed, rfl, -⟩ | ⟨resumed, -⟩
  · refine .inr ⟨resumed, fun d member => ?_⟩
    have whole := cut.resumes.size
    rw [charsOf_nil, Text.byteLength_nil] at whole
    have inside := known d member
    rw [Inside] at inside
    omega
  · exact .inl resumed

/-- If nothing is reported at the end of the segment, what is found behind it begins later. -/
theorem SegmentCut.behind (diagnostics : old.diagnostics = (ofText old.config old.text).diagnostics)
    {reported late : List Diagnostic} (made : (run old.config old.text).reports =
      (beginning old.config old.text).reports.extend (reported ++ late))
    (unreported : ∀ d ∈ old.diagnostics.items, d.span.start ≠ Text.byteLength (charsOf oldFront))
    {d : Diagnostic}
    (member : d ∈ late ++ faultsAt (Position.start.after (charsOf oldFront)) tail) :
    d.span.start ≠ Text.byteLength (charsOf oldFront) ∧ Inside old.text d.span := by
  have found : d ∈ reported ++ late ++ faultsAt .start (Parse.lexemes old.config old.text) := by
    rw [cut.resumes.lexemes, faultsAt_append]
    rcases List.mem_append.mp member with member | member <;> simp [member]
  obtain ⟨e, known, span⟩ := exists_reported made d found
  rw [← span]
  rw [diagnostics] at unreported
  exact ⟨unreported e known, span_of_mem known⟩

/-- What is found behind the segment moves with its end. -/
theorem SegmentCut.shift_eq (small : newText.utf8ByteSize < 0x100000000)
    (moved : (Text.byteLength (charsOf oldFront) : Int) + edit.delta =
      Text.byteLength (charsOf (head ++ lexemes))) {d : Diagnostic}
    (reached : Text.byteLength (charsOf oldFront) ≤ d.span.start) (placed : Inside old.text d.span) :
    d.shift edit.delta = carried (shifted (Text.byteLength (charsOf oldFront))
      (Text.byteLength (charsOf (head ++ lexemes)))) d := by
  refine Reparse.shift_eq moved reached placed.1 (Nat.lt_of_le_of_lt ?_ small)
  have stop := placed.2
  rw [cut.resumes.size] at stop
  rw [cut.stretch.seam.size, shifted]
  omega

end Cut

/-- Parsing some statements again yields the diagnostics of the new text, if it is small enough for
their places to be stored. -/
theorem diagnostics_of_changeSegment? {old : Parse} {edit : TextEdit} {newText : String}
    {result : Result} (fresh : old = ofText old.config old.text)
    (applies : edit.apply old.text = .ok newText) (small : newText.utf8ByteSize < 0x100000000)
    (changed : changeSegment? old edit newText = some result) :
    result.diagnostics = (ofText old.config newText).diagnostics := by
  have diagnostics := congrArg Parse.diagnostics fresh
  obtain ⟨front, replaced, back, applied⟩ := TextEdit.exists_applied applies
  obtain ⟨first, start, last, outside, change⟩ := changeSegment?_eq_some changed
  obtain ⟨head, back, lexemes, tail, oldFront, before, others, outlines, oldBefore, after, log, cut⟩ :=
    exists_segmentCut (congrArg Parse.tree fresh) applied change
  obtain ⟨early, amid, late, made, made', early_spans, amid_spans, reached, apart⟩ :=
    cut.exists_reports diagnostics
  obtain ⟨middle, skipped, rfl, rfl, rfl, rfl⟩ := cut.exists_between
  obtain rfl := cut.start_eq
  have inside : ∀ d ∈ old.diagnostics.items, Inside old.text d.span := by
    rw [diagnostics]
    exact fun d => span_of_mem
  have behind : ∀ d ∈ late ++ faultsAt (Position.start.after (charsOf (head ++ middle))) tail,
      d.span.start ≠ Text.byteLength (charsOf (head ++ middle)) ∧ Inside old.text d.span := by
    intro d member
    rcases apart with ⟨rfl, rfl⟩ | ⟨-, unreported⟩
    · exact absurd member List.not_mem_nil
    · exact cut.behind diagnostics made unreported member
  have logs : Around (Text.byteLength (charsOf head)) (Text.byteLength (charsOf (head ++ middle)))
      (Text.byteLength (charsOf (head ++ lexemes))) early amid log late := by
    refine ⟨early_spans, fun d member => side_of_amid (amid_spans d member),
      fun d member => side_of_amid (cut.stretch.amid d member), fun d member => ?_⟩
    have place := behind d (List.mem_append_left _ member)
    exact ⟨Nat.lt_of_le_of_ne (reached d member) place.1.symm, place.2.1⟩
  have wrong := @around_faults head middle lexemes tail cut.resumes.solid
    (fun lexeme member => cut.stretch.seam.solid lexeme (by simp [member]))
    fun d member => (behind d (List.mem_append_right _ member)).1
  have ordered (middle : List Lexeme) :
      Text.byteLength (charsOf head) ≤ Text.byteLength (charsOf (head ++ middle)) := by
    rw [charsOf_append, Text.byteLength_append]
    exact Nat.le_add_right _ _
  rw [change.diagnostics, cut.diagnostics_outcome,
    Diagnostics.extend_items_ofList (Diagnostics.ordered_ofList outside),
    Diagnostics.ofList_extend, diagnostics_of_log made', cut.outside_eq change inside, diagnostics,
    diagnostics_of_log made, cut.resumes.lexemes, cut.stretch.seam.lexemes, faultsAt_parts,
    faultsAt_parts, faultsAt_behind head middle lexemes]
  refine logs.ofList_eq wrong (ordered middle) (ordered lexemes) fun d member => ?_
  rcases apart with ⟨rfl, rfl⟩ | ⟨moved, -⟩
  · exact absurd member List.not_mem_nil
  · have far := (List.mem_append.mp member).elim (logs.back d) (wrong.back d)
    exact cut.shift_eq small moved (Nat.le_of_lt far.1) (behind d member).2

end LosslessSyntax.Reparse
