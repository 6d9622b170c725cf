import LosslessSyntax.Proofs.Grammar.Onward
import LosslessSyntax.Proofs.Parse.Reported
import LosslessSyntax.Reparse.Segment

/-! # Places between statements

A text falls apart where a statement begins: its lexemes, its outlines, the trees below the root
(`Seam.children`), and the run of the grammar, which stands there before the tokens of the lexemes
that are left (`Seam.stands`). The child of the root at which a statement begins is such a place
(`exists_seam`).
-/

namespace LosslessSyntax.Parse

open Lexeme Leaf Outline Grammar Lookahead

/-- A place at which a statement of a text begins, or one of the ends of the text. -/
structure Seam (config : Config) (text : String) (front back : List Lexeme)
    (before after : List Outline) : Prop where
  lexemes : lexemes config text = front ++ back
  outline : (run config text).outline = before ++ after
  count : countAll before = total (leavesOf front)
  opens : Opens (leavesOf back) ∨ front = [] ∧ before = []

variable {config : Config} {text : String} {front back : List Lexeme} {before after : List Outline}

/-- The state of the parse of a text after so many statements. -/
def upTo (config : Config) (text : String) (count : Nat) : State :=
  statements config config.maxDepth count (beginning config text)

theorem proper_upTo (config : Config) (text : String) (count : Nat) :
    (upTo config text count).Proper :=
  proper_statements config config.maxDepth (proper_beginning config text) count

theorem upTo_add (config : Config) (text : String) (first second : Nat) :
    upTo config text (first + second) =
      statements config config.maxDepth second (upTo config text first) :=
  statements_add first second (beginning config text)

theorem outline_beginning : (beginning config text).outline = [] := State.outline_openNode _

theorem stands_beginning (config : Config) (text : String) :
    Stands (beginning config text) (tokensAt .start (lexemes config text)) text.utf8ByteSize := by
  have stands := stands_programStart text.utf8ByteSize
    (Scanner.between_ofText text config.operatorLimit) rfl
  have size : (Scanner.ofText text config.operatorLimit).position.offset +
      Text.byteLength (Scanner.ofText text config.operatorLimit).rest = text.utf8ByteSize := by
    rw [← Text.byteLength_toList]
    exact Nat.zero_add _
  rwa [size] at stands

/-- As many statements are read as there are outlines. -/
theorem run_eq (config : Config) (text : String) :
    run config text = upTo config text (run config text).outline.length ∧
      ∀ k < (run config text).outline.length, (upTo config text k).ahead ≠ [] := by
  obtain ⟨count, same, inside⟩ := @items_eq_statements (endsProgram fun _ => false) _ config
    config.maxDepth (proper_beginning config text) (endsProgram_of_atEnd fun _ => false)
  obtain ⟨added, outlines, length⟩ := outline_statements (proper_beginning config text)
    fun k earlier => (inside k earlier).2
  have same : run config text = upTo config text count := same
  have outlines : (run config text).outline = [] ++ added := by
    rw [same, ← @outline_beginning config text]
    exact outlines
  rw [outlines, List.nil_append, length]
  exact ⟨same, fun k earlier => (inside k earlier).2⟩

/-- The run of the grammar is known as soon as it comes to the end. -/
theorem run_eq_of_ended {count : Nat}
    (inside : ∀ k < count, (upTo config text k).ahead ≠ [])
    (ended : (upTo config text count).ahead = []) :
    run config text = upTo config text count := by
  have goes : ∀ k < count, endsProgram (fun _ => false) (upTo config text k) = false ∧
      (upTo config text k).ahead ≠ [] := by
    intro k earlier
    have some := inside k earlier
    refine ⟨?_, some⟩
    rw [endsProgram, Bool.or_false]
    exact (proper_upTo config text k).atEnd_eq_false some
  refine (items_statements (proper_beginning config text) goes).trans (items_of_stop ?_)
  exact endsProgram_of_atEnd _ _ ((proper_upTo config text count).atEnd_iff.mpr ended)

theorem ahead_run (config : Config) (text : String) : (run config text).ahead = [] := by
  have atEnd := atEnd_run config text
  rw [(run_eq config text).1] at atEnd ⊢
  exact (proper_upTo config text _).atEnd_iff.mp atEnd

/-- The outlines hold all tokens of the text. -/
theorem countAll_run : countAll (run config text).outline = total (leavesOf (lexemes config text)) := by
  have extent := (@runs_statements config config.maxDepth
    (run config text).outline.length (beginning config text)).extent
  change (upTo config text _).extent = _ at extent
  rw [← (run_eq config text).1, State.extent, State.extent, ahead_run, outline_beginning,
    (stands_beginning config text).length, map_leaf_tokensAt] at extent
  simpa using extent

theorem extent_run : (run config text).extent = total (leavesOf (lexemes config text)) := by
  rw [State.extent, countAll_run, ahead_run]
  rfl

namespace Seam

theorem first (config : Config) (text : String) :
    Seam config text [] (Parse.lexemes config text) [] (run config text).outline :=
  ⟨rfl, rfl, rfl, .inr ⟨rfl, rfl⟩⟩

theorem last (config : Config) (text : String) :
    Seam config text (Parse.lexemes config text) [] (run config text).outline [] :=
  ⟨(List.append_nil _).symm, (List.append_nil _).symm, countAll_run, .inl opens_nil⟩

/-- The trees below the root are those of both parts. -/
theorem children (seam : Seam config text front back before after) :
    (ofText config text).tree.children =
      plant (leavesOf front) before ++ plant (leavesOf back) after := by
  rw [tree_ofText, Tree.children, seam.lexemes, seam.outline, leavesOf_append]
  rcases seam.opens with opens | ⟨rfl, rfl⟩
  · exact plant_append (.inl opens) seam.count after
  · rfl

/-- The statements before a seam are those of the first outlines. -/
theorem outline_before (seam : Seam config text front back before after) :
    (upTo config text before.length).outline = before := by
  obtain ⟨same, inside⟩ := run_eq config text
  have outlines := seam.outline
  rw [outlines, List.length_append] at same inside
  obtain ⟨first, first_eq, first_length⟩ := @outline_statements _ _ _ (proper_beginning config text)
    before.length fun k earlier => inside k (by omega)
  obtain ⟨second, second_eq, -⟩ := @outline_statements config config.maxDepth _
    (proper_upTo config text before.length) after.length fun k earlier => by
      have some := inside (before.length + k) (by omega)
      rwa [upTo_add] at some
  rw [outline_beginning, List.nil_append] at first_eq
  rw [← upTo_add, ← same, seam.outline] at second_eq
  have first_eq : (upTo config text before.length).outline = first := first_eq
  rw [first_eq] at second_eq ⊢
  exact (List.append_inj second_eq first_length.symm).1.symm

/-- At a seam the parse stands before the tokens of the lexemes that are left. -/
theorem stands (seam : Seam config text front back before after) :
    Stands (upTo config text before.length) (tokensAt (Position.start.after (charsOf front)) back)
      text.utf8ByteSize := by
  have start := stands_beginning config text
  rw [seam.lexemes, tokensAt_append] at start
  have run := @runs_statements config config.maxDepth before.length
    (beginning config text)
  refine start.of_runs run ?_
  have extent := run.extent
  have length := start.length
  change (upTo config text before.length).extent = _ at extent
  rw [State.extent, State.extent, seam.outline_before, outline_beginning, seam.count, length,
    List.map_append, map_leaf_tokensAt, map_leaf_tokensAt, total_append, countAll_nil] at extent
  rw [map_leaf_tokensAt]
  change (upTo config text before.length).ahead.length = _
  omega

theorem solid (seam : Seam config text front back before after) :
    ∀ lexeme ∈ front ++ back, lexeme.chars ≠ [] := by
  rw [← seam.lexemes]
  exact fun lexeme => chars_ne_nil lexeme

theorem chars (seam : Seam config text front back before after) :
    text.toList = charsOf front ++ charsOf back := by
  rw [← charsOf_append, ← seam.lexemes, Parse.charsOf_lexemes]

theorem size (seam : Seam config text front back before after) :
    text.utf8ByteSize = Text.byteLength (charsOf front) + Text.byteLength (charsOf back) := by
  rw [← Text.byteLength_toList, seam.chars, Text.byteLength_append]

/-- Whether the end of the text has been reported depends on the lexemes that are left. -/
theorem endReported (seam : Seam config text front back before after)
    (left : (upTo config text before.length).ahead ≠ []) :
    (upTo config text before.length).endReported =
      (faultsAt (Position.start.after (charsOf front)) back).any fun d =>
        d.kind == .incomplete && d.span.stop == text.utf8ByteSize := by
  have run := @runs_statements config config.maxDepth before.length
    (beginning config text)
  have same := run.endReported_eq (proper_beginning config text).inside left
  refine same.trans (endReported_beginning.trans ?_)
  rw [seam.lexemes, faultsAt_append, List.any_append]
  have some : back ≠ [] := fun none => by
    obtain ⟨broken, ahead⟩ := seam.stands.ahead
    rw [none] at ahead
    exact left ahead
  have early : (faultsAt .start front).any (fun d =>
      d.kind == .incomplete && d.span.stop == text.utf8ByteSize) = false := by
    rw [List.any_eq_false]
    intro d member
    obtain ⟨token, inside, span⟩ := mem_faultsAt member
    have place := (mem_tokensAt (fun lexeme member =>
      seam.solid lexeme (List.mem_append_left _ member)) inside).2.2
    obtain ⟨target, others, rfl⟩ := List.exists_cons_of_ne_nil some
    have later := Text.byteLength_pos (seam.solid target (by simp))
    have size := seam.size
    rw [charsOf_cons, Text.byteLength_append] at size
    rw [Bool.and_eq_true, beq_iff_eq, beq_iff_eq, span]
    change ¬ (_ ∧ token.stop = _)
    change token.stop ≤ 0 + _ at place
    omega
  rw [early, Bool.false_or]

/-- The statements after a seam come to the end. -/
theorem run_eq (seam : Seam config text front back before after) :
    run config text =
        statements config config.maxDepth after.length (upTo config text before.length) ∧
      (∀ k < before.length, (upTo config text k).ahead ≠ []) ∧
      ∀ k < after.length, (statements config config.maxDepth k
        (upTo config text before.length)).ahead ≠ [] := by
  obtain ⟨same, inside⟩ := Parse.run_eq config text
  rw [seam.outline, List.length_append] at same inside
  refine ⟨same.trans (upTo_add ..), fun k earlier => inside k (by omega), fun k earlier => ?_⟩
  rw [← upTo_add]
  exact inside _ (by omega)

end Seam

/-- Every statement of a text takes up some tokens. -/
theorem count_pos_of_mem {outline : Outline} (member : outline ∈ (run config text).outline) :
    0 < outline.count := by
  rw [(Parse.run_eq config text).1] at member
  refine (count_pos_statements (proper_beginning config text)
    (Parse.run_eq config text).2 outline member).resolve_left fun none => ?_
  rw [outline_beginning] at none
  exact nomatch none

/-- Of two seams, the later one comes some lexemes and statements after the earlier one. -/
theorem Seam.exists_between {front' back' : List Lexeme} {before' after' : List Outline}
    (seam : Seam config text front back before after)
    (seam' : Seam config text front' back' before' after')
    (earlier : Text.byteLength (charsOf front) ≤ Text.byteLength (charsOf front')) :
    ∃ lexemes outlines, front' = front ++ lexemes ∧ back = lexemes ++ back' ∧
      before' = before ++ outlines ∧ after = outlines ++ after' := by
  have split := seam.lexemes.symm.trans seam'.lexemes
  have outlines := seam.outline.symm.trans seam'.outline
  obtain ⟨lexemes, rfl, rfl⟩ : ∃ lexemes, front' = front ++ lexemes ∧ back = lexemes ++ back' := by
    rcases List.append_eq_append_iff.mp split with ⟨more, rfl, rfl⟩ | ⟨more, rfl, rfl⟩
    · exact ⟨more, rfl, rfl⟩
    · cases more with
      | nil => exact ⟨[], by simp⟩
      | cons target others =>
        have some := Text.byteLength_pos (seam.solid target (by simp))
        rw [charsOf_append, Text.byteLength_append, charsOf_cons, Text.byteLength_append] at earlier
        omega
  have count := seam'.count
  rw [leavesOf_append, total_append, ← seam.count] at count
  rcases List.append_eq_append_iff.mp outlines with ⟨more, rfl, rfl⟩ | ⟨more, rfl, rfl⟩
  · exact ⟨lexemes, more, rfl, rfl, rfl, rfl⟩
  · cases more with
    | nil => exact ⟨lexemes, [], by simp⟩
    | cons outline others =>
      have some := @count_pos_of_mem config text outline (by
        rw [seam.outline]
        simp)
      rw [countAll_append, countAll_cons] at count
      omega

/-- The parse has come to a seam as soon as it has as many tokens ahead as are left there. -/
theorem exists_seam_of_length {count : Nat} (lexemes_eq : lexemes config text = front ++ back)
    (opens : Opens (leavesOf back)) (left : (upTo config text count).ahead ≠ [])
    (length : (upTo config text count).ahead.length = total (leavesOf back)) :
    ∃ after, Seam config text front back (upTo config text count).outline after ∧
      (upTo config text count).outline.length = count := by
  obtain ⟨same, inside⟩ := run_eq config text
  have earlier : count ≤ (run config text).outline.length := by
    refine Nat.le_of_not_lt fun later => left ?_
    obtain ⟨more, rfl⟩ := Nat.exists_eq_add_of_le (Nat.le_of_lt later)
    rw [upTo_add]
    refine (runs_statements more _).nil_of_nil ?_
    rw [← same]
    exact ahead_run config text
  obtain ⟨more, total_length⟩ := Nat.exists_eq_add_of_le earlier
  rw [total_length] at same inside
  obtain ⟨before, before_eq, before_length⟩ := @outline_statements _ _ _ (proper_beginning config text)
    count fun k earlier => inside k (by omega)
  obtain ⟨after, after_eq, -⟩ := @outline_statements config config.maxDepth _
    (proper_upTo config text count) more fun k earlier => by
      have some := inside (count + k) (by omega)
      rwa [upTo_add] at some
  have before_eq : (upTo config text count).outline = [] ++ before := by
    rw [← @outline_beginning config text]
    exact before_eq
  refine ⟨after, ⟨lexemes_eq, ?_, ?_, .inl opens⟩, ?_⟩
  · rw [same, upTo_add, after_eq]
  · have extent := (@runs_statements config config.maxDepth count
      (beginning config text)).extent
    change (upTo config text count).extent = _ at extent
    rw [State.extent, State.extent, length, (stands_beginning config text).length,
      map_leaf_tokensAt, lexemes_eq, leavesOf_append, total_append, outline_beginning,
      countAll_nil] at extent
    omega
  · rw [before_eq, List.nil_append, before_length]

/-- Where the lexemes after a seam stand if so many bytes come before them instead of others. -/
def shifted (place place' : Nat) (x : Nat) : Nat := x - place + place'

theorem faultsAt_shifted {lexemes : List Lexeme} (position position' : Position) :
    faultsAt position' lexemes = (faultsAt position lexemes).map
      (carried (shifted position.offset position'.offset)) :=
  faultsAt_carried fun x reached _ => by
    rw [shifted]
    omega

section TwoTexts

variable {text' : String} {front' : List Lexeme} {before' after' : List Outline}
  (seam : Seam config text front back before after)
  (seam' : Seam config text' front' back before' after')
include seam seam'

theorem Seam.shifted_size :
    shifted (Text.byteLength (charsOf front)) (Text.byteLength (charsOf front')) text.utf8ByteSize =
      text'.utf8ByteSize := by
  rw [seam.size, seam'.size, shifted]
  omega

theorem Seam.ahead_ne_nil (left : (upTo config text before.length).ahead ≠ []) :
    (upTo config text' before'.length).ahead ≠ [] := by
  rw [← List.length_pos_iff] at left ⊢
  rw [seam.stands.length, map_leaf_tokensAt] at left
  rwa [seam'.stands.length, map_leaf_tokensAt]

/-- The end of the one text is reported as incomplete if that of the other one is. -/
theorem Seam.endReported_congr (left : (upTo config text before.length).ahead ≠ []) :
    (upTo config text before.length).endReported =
      (upTo config text' before'.length).endReported := by
  rw [seam.endReported left, seam'.endReported (seam.ahead_ne_nil seam' left),
    faultsAt_shifted (Position.start.after (charsOf front)) (Position.start.after (charsOf front')),
    List.any_map, Bool.eq_iff_iff, List.any_eq_true, List.any_eq_true, Position.offset_after_start,
    Position.offset_after_start]
  refine exists_congr fun d => and_congr_right fun member => ?_
  obtain ⟨token, member, span⟩ := mem_faultsAt member
  have reached := mem_tokensAt (fun lexeme member =>
    seam.solid lexeme (List.mem_append_right front member)) member
  rw [Position.offset_after_start] at reached
  have stop : d.span.stop = token.stop := congrArg Span.stop span
  change _ ↔ (d.kind == .incomplete && (shifted _ _ d.span.stop == text'.utf8ByteSize)) = true
  rw [Bool.and_eq_true, Bool.and_eq_true, beq_iff_eq, beq_iff_eq, beq_iff_eq,
    ← seam.shifted_size seam', shifted, shifted, seam.size, stop]
  refine and_congr_right fun _ => ?_
  omega

/-- The parses of the two texts are abreast, once nothing is said to come before. -/
theorem Seam.abreast (left : (upTo config text before.length).ahead ≠ []) :
    Abreast (.along (Text.byteLength (charsOf front))
        (shifted (Text.byteLength (charsOf front)) (Text.byteLength (charsOf front'))) True) [] []
      ((upTo config text before.length).reopen false none)
      ((upTo config text' before'.length).reopen false none) := by
  have place := Position.offset_after_start (charsOf front)
  have inside : ∀ lexeme ∈ back, lexeme.kind ≠ .eof := fun lexeme member =>
    kind_ne_eof lexeme (show lexeme ∈ Parse.lexemes config text by
      rw [seam.lexemes]
      exact List.mem_append_right front member)
  have alike : List.Forall₂ (Alike (.along (Text.byteLength (charsOf front))
      (shifted (Text.byteLength (charsOf front)) (Text.byteLength (charsOf front'))) True))
      (tokensAt (Position.start.after (charsOf front)) back)
      (tokensAt (Position.start.after (charsOf front')) back) := by
    refine alike_tokensAt inside (Nat.le_of_eq place.symm) fun x reached within => ?_
    rw [place, Position.offset_after_start, shifted]
    omega
  have reached : Text.byteLength (charsOf front) ≤ text.utf8ByteSize := by
    rw [seam.size]
    exact Nat.le_add_right _ _
  have size := seam.shifted_size seam'
  exact seam.stands.abreast seam'.stands alike left ⟨reached, size.symm, size.symm⟩ fun _ =>
    seam.endReported_congr seam' left

/-- What follows a seam is known from the lexemes that are left, in whatever text they stand. -/
theorem Seam.follows (left : (upTo config text before.length).ahead ≠ []) :
    after' = after ∧ Logged (.along (Text.byteLength (charsOf front))
        (shifted (Text.byteLength (charsOf front)) (Text.byteLength (charsOf front'))) True)
      (upTo config text before.length) (upTo config text' before'.length)
      (run config text) (run config text') := by
  obtain ⟨ends, -, inside⟩ := seam.run_eq
  have onward {count : Nat} (le : count ≤ after.length) :=
    @keeps_onward _ _ _ config config.maxDepth _ (proper_upTo config text _)
      (proper_upTo config text' _) left (seam.abreast seam' left) fun k earlier =>
        inside k (Nat.lt_of_lt_of_le earlier le)
  obtain ⟨added, first, second, -, logged, length⟩ := onward (Nat.le_refl _)
  have last : run config text' = statements config config.maxDepth after.length
      (upTo config text' before'.length) := by
    rw [← ends, ahead_run] at length
    rw [← upTo_add] at length ⊢
    refine run_eq_of_ended (fun k earlier => ?_) (List.eq_nil_of_length_eq_zero length)
    rcases Nat.lt_or_ge k before'.length with early | late
    · exact seam'.run_eq.2.1 k early
    · obtain ⟨more, rfl⟩ := Nat.exists_eq_add_of_le late
      obtain ⟨-, -, -, -, -, same⟩ := @onward more (by omega)
      have some := inside more (by omega)
      rw [← List.length_pos_iff] at some ⊢
      rwa [upTo_add, same]
  rw [← ends] at first logged
  rw [← last] at second logged
  rw [seam.outline, seam.outline_before] at first
  rw [seam'.outline, seam'.outline_before] at second
  exact ⟨(List.append_cancel_left second).trans (List.append_cancel_left first).symm, logged⟩

end TwoTexts

/-- A statement begins at every child of the root that is not an insignificant leaf. -/
theorem exists_seam {index : Nat} {child : Tree}
    (found : (ofText config text).tree.children[index]? = some child)
    (anchor : Reparse.isAnchor child = true) :
    ∃ front target rest before after, Seam config text front (target :: rest) before after ∧
      target.kind.isSignificant = true ∧ index = (plant (leavesOf front) before).length ∧
      child.leaves.head? = some target.leaf := by
  rw [tree_ofText, Tree.children] at found
  obtain ⟨front, leaf, rest, before, after, split, significant, outlines, count, index_eq, head⟩ :=
    exists_cut countAll_run (fun _ => count_pos_of_mem) found fun leaf same => by
      subst same
      exact anchor
  obtain ⟨front, target, rest, lexemes_eq, rfl, rfl, rfl⟩ := leavesOf_cut split
  exact ⟨front, target, rest, before, after,
    ⟨lexemes_eq, outlines, count, .inl (opens_cons significant)⟩, significant, index_eq, head⟩

end LosslessSyntax.Parse
