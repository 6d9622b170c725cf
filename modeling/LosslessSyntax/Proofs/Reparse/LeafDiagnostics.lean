import LosslessSyntax.Proofs.Reparse.Leaf

/-! # Changing one leaf gives the diagnostics of the new text

No diagnostic touches a leaf that is changed, so each of them stays where it is or moves with the
text after the leaf (`moved_eq`). The scanner finds the same wrong at the moved places, and so
does the grammar, since the texts look alike to it.
-/

namespace LosslessSyntax.Reparse

open Lexeme Text
open Grammar (carried eq_map_carried faultsAt_carried)

section Places

variable {place size size' : Nat} {span span' : Span}

/-- A diagnostic that is apart from the leaf is moved to where it is carried. -/
theorem moved_eq {delta : Int} (grown : (size' : Int) = size + delta) {d : Diagnostic}
    (ordered : d.span.start ≤ d.span.stop) (apart : Apart place size d.span)
    (small : carry place size size' d.span.stop < 0x100000000) :
    movedPast (place + size) delta d = carried (carry place size size') d := by
  obtain ⟨severity, code, message, start, stop⟩ := d
  simp only at ordered apart small
  rw [movedPast, carried]
  rcases apart with before | behind
  · rw [if_neg (by simp only at before ⊢; omega), carry, carry, if_pos (by simp only at before ⊢; omega), if_pos (by simp only at before ⊢; omega)]
  · simp only at behind
    rw [if_pos behind, Diagnostic.shift, Span.shift, Span.shiftOffset, Span.shiftOffset, carry,
      carry, if_neg (by simp only; omega), if_neg (by simp only; omega)]
    rw [carry, if_neg (by omega)] at small
    have moved (x : Nat) (reached : place + size < x) (within : x ≤ stop) :
        (((x : Int) + delta).toNat % 0x100000000) = x - size + size' := by omega
    simp only [moved start behind ordered, moved stop (by omega) (Nat.le_refl _)]

/-- Places apart from the leaf are carried to different places. -/
theorem carry_inj {x y : Nat} (some : 0 < size) (apart : x < place ∨ place + size < x)
    (outside : y < place ∨ place + size ≤ y) :
    carry place size size' x = carry place size size' y ↔ x = y := by
  rw [carry, carry]
  split <;> split <;> omega

theorem carry_le {x y : Nat} (outside : y < place ∨ place + size ≤ y) (le : x ≤ y) :
    carry place size size' x ≤ carry place size size' y := by
  rw [carry, carry]
  split <;> split <;> omega

theorem sameProblem_carried {d e : Diagnostic} (some : 0 < size)
    (ordered : d.span.start ≤ d.span.stop) (apart : Apart place size d.span)
    (ordered' : e.span.start ≤ e.span.stop) (apart' : Apart place size e.span) :
    (carried (carry place size size') d).sameProblem (carried (carry place size size') e) =
      d.sameProblem e := by
  rw [Bool.eq_iff_iff, Diagnostic.sameProblem_iff, Diagnostic.sameProblem_iff]
  refine and_congr_left fun _ => ?_
  rw [carried, carried, Span.mk.injEq]
  have start := @carry_inj _ _ size' d.span.start e.span.start some
    (apart.imp_left fun before => by omega)
    (apart'.imp (fun before => by omega) Nat.le_of_lt)
  have stop := @carry_inj _ _ size' d.span.stop e.span.stop some
    (apart.imp_right fun behind => by omega)
    (apart'.imp id fun behind => by omega)
  rw [start, stop]
  constructor
  · rintro ⟨start, stop⟩
    cases h : d.span
    cases h' : e.span
    rw [h, h'] at start stop
    exact congrArg₂ Span.mk start stop
  · rintro same
    rw [same]
    exact ⟨rfl, rfl⟩

end Places

/-- The token of a leaf and at most one token before it touch the leaf. -/
theorem not_apart {position : Position} {previous : List Lexeme} {target : Lexeme}
    (single : previous.length ≤ 1) {token : Token}
    (member : token ∈ tokensAt position (previous ++ [target])) :
    ¬ Apart (position.after (charsOf previous)).offset (byteLength target.chars) token.span := by
  rw [tokensAt_append, List.mem_append] at member
  rintro (before | behind)
  · change token.stop < _ at before
    rcases member with member | member
    · obtain ⟨last, rfl⟩ : ∃ last, previous = [last] := by
        refine List.length_eq_one_iff.mp (Nat.le_antisymm single ?_)
        exact List.length_pos_iff.mpr fun none => by simp [none, tokensAt] at member
      obtain rfl := List.mem_singleton.mp member
      rw [stop_tokenAt, Position.offset_after, charsOf_cons, charsOf_nil, List.append_nil] at before
      omega
    · obtain rfl := List.mem_singleton.mp member
      rw [stop_tokenAt] at before
      omega
  · change _ < token.start at behind
    rcases member with member | member
    · obtain ⟨last, rfl⟩ : ∃ last, previous = [last] := by
        refine List.length_eq_one_iff.mp (Nat.le_antisymm single ?_)
        exact List.length_pos_iff.mpr fun none => by simp [none, tokensAt] at member
      obtain rfl := List.mem_singleton.mp member
      change _ < position.offset at behind
      rw [Position.offset_after] at behind
      omega
    · obtain rfl := List.mem_singleton.mp member
      change _ < (position.after (charsOf previous)).offset at behind
      omega

section Cut

variable {config : Config} {oldText newText : String} {front previous after previous' : List Lexeme}
  {target target' : Lexeme}

/-- What is wrong with the new lexemes is what was wrong with the old ones, at the places to which
it is carried. -/
theorem LeafCut.faults (cut : LeafCut config.operatorLimit oldText newText front previous target
    target' after previous')
    (apart : ∀ d ∈ faultsAt .start (Parse.lexemes config oldText),
      Apart (placeOf front previous) (byteLength target.chars) d.span) :
    faultsAt .start (Parse.lexemes config newText) =
      (faultsAt .start (Parse.lexemes config oldText)).map
        (carried (carry (placeOf front previous) (byteLength target.chars)
          (byteLength target'.chars))) := by
  have size : 0 < byteLength target.chars :=
    byteLength_pos (chars_ne_nil target (cut.mem_old (by simp)))
  have place : byteLength (charsOf front) + byteLength (charsOf previous) =
      placeOf front previous := by
    rw [← byteLength_append, ← charsOf_append]
    rfl
  have reached : ((Position.start.after (charsOf front)).after (charsOf previous)).offset =
      placeOf front previous := by
    rw [Position.offset_after, Position.offset_after, ← place]
    exact congrArg (· + _) (Nat.zero_add _)
  obtain ⟨-, chars⟩ := tokensAt_of_leavesOf cut.same .start
  have old : Parse.lexemes config oldText = front ++ ((previous ++ [target]) ++ after) := by
    rw [Parse.lexemes, cut.old, List.append_assoc, List.singleton_append]
  have new : Parse.lexemes config newText = front ++ ((previous' ++ [target']) ++ after) := by
    rw [Parse.lexemes, cut.new, List.append_assoc, List.singleton_append]
  -- nothing is wrong with the lexemes that are read again
  have sound' : faultsAt (Position.start.after (charsOf front)) (previous' ++ [target']) = [] :=
    faultsAt_eq_nil.mpr cut.sound
  have sound : faultsAt (Position.start.after (charsOf front)) (previous ++ [target]) = [] := by
    refine List.eq_nil_iff_forall_not_mem.mpr fun d member => ?_
    obtain ⟨token, inside, span⟩ := mem_faultsAt member
    have touches := not_apart cut.single inside
    rw [reached, ← span] at touches
    refine touches (apart d ?_)
    rw [old, faultsAt_append, faultsAt_append]
    exact List.mem_append_right _ (List.mem_append_left _ member)
  rw [old, new]
  simp only [faultsAt_append _ front, faultsAt_append _ (_ ++ _), sound, sound', List.nil_append,
    List.map_append]
  congr 1
  · refine faultsAt_carried fun x _ within => ?_
    change x ≤ 0 + _ at within
    change _ = 0 + (x - 0)
    rw [carry, if_pos (by omega)]
    omega
  · refine faultsAt_carried fun x start _ => ?_
    simp only [charsOf_append, charsOf_cons, charsOf_nil, List.append_nil, Position.after_append,
      chars, Position.offset_after _ target.chars, Position.offset_after _ target'.chars,
      reached] at start ⊢
    rw [carry, if_neg (by omega)]
    omega

theorem LeafCut.place_le (cut : LeafCut config.operatorLimit oldText newText front previous target
    target' after previous') :
    placeOf front previous + byteLength target.chars ≤ oldText.utf8ByteSize := by
  have chars := congrArg charsOf cut.old
  rw [Lexeme.charsOf_lexemes] at chars
  rw [← byteLength_toList, chars, placeOf]
  simp only [charsOf_append, charsOf_cons, byteLength_append]
  omega

/-- The end of the text has been reported in both texts or in neither. -/
theorem LeafCut.ended (cut : LeafCut config.operatorLimit oldText newText front previous target
    target' after previous')
    (apart : ∀ d ∈ faultsAt .start (Parse.lexemes config oldText),
      Apart (placeOf front previous) (byteLength target.chars) d.span) :
    (Parse.beginning config oldText).endReported =
      (Parse.beginning config newText).endReported := by
  have size : 0 < byteLength target.chars :=
    byteLength_pos (chars_ne_nil target (cut.mem_old (by simp)))
  rw [Parse.endReported_beginning, Parse.endReported_beginning, cut.faults apart, List.any_map,
    ← cut.carry_size]
  rw [Bool.eq_iff_iff, List.any_eq_true, List.any_eq_true]
  refine exists_congr fun d => and_congr_right fun member => ?_
  obtain ⟨token, inside, span⟩ := mem_faultsAt member
  have ordered := (Parse.placed_of_mem_tokensAt inside).1.ordered
  rw [← span] at ordered
  have stop := @carry_inj _ _ (byteLength target'.chars) d.span.stop oldText.utf8ByteSize size
    ((apart d member).imp_right fun behind => Nat.lt_of_lt_of_le behind ordered) (.inr cut.place_le)
  change _ ↔ (d.kind == .incomplete && (carry _ _ _ d.span.stop == carry _ _ _ _)) = true
  rw [Bool.and_eq_true, Bool.and_eq_true, beq_iff_eq, beq_iff_eq, beq_iff_eq, stop]

end Cut

/-- Changing one leaf of the parse of a text gives the diagnostics of the new text. -/
theorem diagnostics_of_changeLeafAt? {old : Parse} {edit : TextEdit} {newText : String}
    {offset : Nat} {result : Result} (fresh : old = Parse.ofText old.config old.text)
    (applies : edit.apply old.text = .ok newText) (small : newText.utf8ByteSize < 0x100000000)
    (changed : changeLeafAt? old edit newText offset = some result) :
    result.diagnostics = (Parse.ofText old.config newText).diagnostics := by
  obtain ⟨front, previous, target, target', after, previous', leaf⟩ :=
    exists_changedLeaf (congrArg Parse.tree fresh) applies changed
  have diagnostics := congrArg Parse.diagnostics fresh
  have known (d : Diagnostic) (reported : ∃ e ∈ old.diagnostics.items, e.span = d.span) :
      Parse.Inside old.text d.span ∧
        Apart (placeOf front previous) (byteLength target.chars) d.span := by
    obtain ⟨e, member, span⟩ := reported
    rw [← span]
    exact ⟨Parse.span_of_mem (diagnostics ▸ member), leaf.apart e member⟩
  have apart : ∀ d ∈ faultsAt .start (Parse.lexemes old.config old.text),
      Apart (placeOf front previous) (byteLength target.chars) d.span := by
    intro d member
    obtain ⟨e, reported, span, -⟩ :=
      Diagnostics.exists_mem_extend (Parse.run old.config old.text).reports member
    rw [← Parse.diagnostics_ofText, ← diagnostics] at reported
    exact (known d ⟨e, reported, span⟩).2
  have ended := leaf.cut.ended apart
  obtain ⟨log, log', made, made', same⟩ :=
    (@LeafCut.keeps _ _ _ _ _ _ _ _ _ leaf.cut True leaf.changeable leaf.breaks fun _ => ended).1
      trivial
  have moved : log' = log.map (carried (carry (placeOf front previous) (byteLength target.chars)
      (byteLength target'.chars))) := (eq_map_carried same).1
  have old_eq := diagnostics.trans (Parse.diagnostics_of_log made)
  have known' (d : Diagnostic)
      (member : d ∈ log ++ faultsAt .start (Parse.lexemes old.config old.text)) :
      Parse.Inside old.text d.span ∧
        Apart (placeOf front previous) (byteLength target.chars) d.span := by
    obtain ⟨e, reported, span, -⟩ := Diagnostics.exists_mem_extend .empty member
    refine known d ⟨e, ?_, span⟩
    rw [old_eq]
    exact reported
  have size : 0 < byteLength target.chars :=
    byteLength_pos (chars_ne_nil target (leaf.cut.mem_old (by simp)))
  have pushed := @Diagnostics.ofList_map _ (log ++ faultsAt .start _) fun d member e member' => by
    obtain ⟨⟨ordered, -⟩, apart⟩ := known' d member
    obtain ⟨⟨ordered', -⟩, apart'⟩ := known' e member'
    exact @sameProblem_carried _ _ (byteLength target'.chars) _ _ size ordered apart ordered' apart'
  rw [leaf.diagnostics, Parse.diagnostics_of_log made', moved, leaf.cut.faults apart,
    ← List.map_append, ← pushed, old_eq]
  refine congrArg Diagnostics.ofList (List.map_congr_left fun d member => ?_)
  obtain ⟨⟨ordered, inside⟩, apart⟩ := known' d (Diagnostics.mem_ofList.mp member).mem
  refine moved_eq leaf.grown ordered apart (Nat.lt_of_le_of_lt ?_ small)
  rw [← leaf.cut.carry_size]
  exact carry_le (.inr leaf.cut.place_le) inside

end LosslessSyntax.Reparse
