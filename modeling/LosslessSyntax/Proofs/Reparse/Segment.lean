import LosslessSyntax.Proofs.Parse.Resuming
import LosslessSyntax.Proofs.Reparse.SharedStart
import LosslessSyntax.Proofs.Text.Bytes

/-! # Parsing some statements again gives the tree of the new text

The statements that are parsed again begin at a seam, before which the texts are the same
(`exists_sharedStart`), and end with the text or at a seam after which the texts are the same
(`exists_resumption`). So the outlines of the new text are those of the old one outside and those of
the statements parsed again inside (`tree_of_changeSegment?`).
-/

namespace LosslessSyntax.Reparse

open Lexeme Leaf Outline Parse Grammar

/-- A child of the root that holds a significant token. -/
def AnchorAt (children : List Cursor) (index : Nat) : Prop :=
  ∃ child, children[index]? = some child ∧ isAnchor child.tree = true

theorem lastAnchor_cases (children : List Cursor) (count : Nat) :
    lastAnchor children count = 0 ∨
      lastAnchor children count < count ∧ AnchorAt children (lastAnchor children count) := by
  induction count with
  | zero => exact .inl rfl
  | succ count ih =>
    rw [lastAnchor]
    split
    case isTrue anchor =>
      refine .inr ⟨Nat.lt_succ_self count, ?_⟩
      exact (Option.any_eq_true _ _).mp anchor
    case isFalse => exact ih.imp_right (And.imp_left Nat.lt_succ_of_lt)

/-- The segment begins with the text, or at an anchor where no diagnostic starts. -/
theorem firstChanged_cases (diagnostics : Diagnostics) (children : List Cursor) {index : Nat}
    (anchor : index = 0 ∨ AnchorAt children index) :
    firstChanged diagnostics children index = 0 ∨
      firstChanged diagnostics children index ≤ index ∧
      ∃ child, children[firstChanged diagnostics children index]? = some child ∧
        isAnchor child.tree = true ∧ hasDiagnosticAt diagnostics child.start = false := by
  fun_induction firstChanged diagnostics children index with
  | case1 => exact .inl rfl
  | case2 index reported ih =>
    have next := lastAnchor_cases children (index + 1)
    refine (ih (next.imp_right And.right)).imp_right fun ⟨le, found⟩ => ⟨?_, found⟩
    exact Nat.le_trans le (Nat.le_of_lt (lastAnchor_lt children index))
  | case3 index unreported =>
    obtain ⟨child, found, anchor⟩ := anchor.resolve_left (Nat.succ_ne_zero index)
    refine .inr ⟨Nat.le_refl _, child, found, anchor, ?_⟩
    rw [found, Option.any_some] at unreported
    exact Bool.eq_false_iff.mpr unreported

/-- What the grammar yields for the statements that are parsed again. -/
def segmentOutcome (old : Parse) (edit : TextEdit) (newText : String) (start : Nat) :
    Grammar.Outcome :=
  Grammar.runProgram old.config (resumesAt edit (boundaries old.diagnostics old.root.children))
    newText.utf8ByteSize (.onDemand (.resume newText start .normal old.config.operatorLimit))

/-- Where the old text is taken over again. -/
def resumption (edit : TextEdit) (outcome : Grammar.Outcome) : Option Nat :=
  outcome.haltedAt.map fun offset => ((offset : Int) - edit.delta).toNat

/-- Which statements are parsed again, and what becomes of the parse. -/
structure ChangedSegment (old : Parse) (edit : TextEdit) (newText : String) (result : Result)
    (first start last : Nat) (outside : List Diagnostic) : Prop where
  starts : first = 0 ∧ start = 0 ∨ ∃ child, old.root.children[first]? = some child ∧
    start = child.start ∧ isAnchor child.tree = true ∧ child.span.stop < edit.offset ∧
    hasDiagnosticAt old.diagnostics child.start = false
  stops : resumption edit (segmentOutcome old edit newText start) = none ∧
      last = old.root.children.length ∨
    ∃ child, resumption edit (segmentOutcome old edit newText start) = some child.start ∧
      old.root.children[last]? = some child ∧ beginsItem child.tree = true
  kept : outsideSegment? start (resumption edit (segmentOutcome old edit newText start))
    edit.delta old.diagnostics.items = some outside
  tree : result.tree = old.tree.spliceChildren first last (Tree.ofEvents
    (segmentOutcome old edit newText start).tokens
    (segmentOutcome old edit newText start).events).children
  diagnostics : result.diagnostics = (Diagnostics.ofList outside).extend
    (segmentOutcome old edit newText start).diagnostics.items

theorem start_children_zero (parse : Parse) :
    ((parse.root.children[0]?).map (·.start)).getD 0 = 0 := by
  rw [root, Cursor.children, Cursor.ofRoot]
  cases parse.tree.children <;> rfl

/-- The first child of the root that is parsed again. -/
def segmentFirst (old : Parse) (edit : TextEdit) : Nat :=
  firstChanged old.diagnostics old.root.children (lastAnchor old.root.children
    (old.root.children.takeWhile fun child => child.span.stop < edit.offset).length)

theorem segmentFirst_cases (old : Parse) (edit : TextEdit) :
    segmentFirst old edit = 0 ∨ ∃ child, old.root.children[segmentFirst old edit]? = some child ∧
      isAnchor child.tree = true ∧ child.span.stop < edit.offset ∧
      hasDiagnosticAt old.diagnostics child.start = false := by
  have anchor := lastAnchor_cases old.root.children
    (old.root.children.takeWhile fun child => child.span.stop < edit.offset).length
  rcases firstChanged_cases old.diagnostics old.root.children (anchor.imp_right And.right) with
    none | ⟨le, child, found, here, unreported⟩
  · exact .inl none
  · rcases anchor with zero | ⟨before, -⟩
    · rw [zero] at le
      exact .inl (Nat.le_zero.mp (by rwa [segmentFirst, zero]))
    · refine .inr ⟨child, found, here, ?_, unreported⟩
      have split := List.takeWhile_append_dropWhile
        (p := fun child : Cursor => decide (child.span.stop < edit.offset))
        (l := old.root.children)
      have within : segmentFirst old edit < _ := Nat.lt_of_le_of_lt le before
      have found := (congrArg (·[segmentFirst old edit]?) split).trans found
      rw [List.getElem?_append_left within] at found
      have inside := List.all_eq_true.mp List.all_takeWhile child (List.mem_of_getElem? found)
      exact of_decide_eq_true inside

theorem changeSegment?_eq_some {old : Parse} {edit : TextEdit} {newText : String} {result : Result}
    (changed : changeSegment? old edit newText = some result) :
    ∃ first start last outside,
      ChangedSegment old edit newText result first start last outside := by
  let first := segmentFirst old edit
  let start := ((old.root.children[first]?).map (·.start)).getD 0
  let outcome := segmentOutcome old edit newText start
  unfold changeSegment? at changed
  simp only [Option.bind_eq_bind, Option.bind_eq_some_iff] at changed
  obtain ⟨outside, kept, changed⟩ := changed
  have starts : first = 0 ∧ start = 0 ∨ ∃ child, old.root.children[first]? = some child ∧
      start = child.start ∧ isAnchor child.tree = true ∧ child.span.stop < edit.offset ∧
      hasDiagnosticAt old.diagnostics child.start = false := by
    change segmentFirst old edit = 0 ∧
      ((old.root.children[segmentFirst old edit]?).map (·.start)).getD 0 = 0 ∨
      ∃ child, old.root.children[segmentFirst old edit]? = some child ∧
        ((old.root.children[segmentFirst old edit]?).map (·.start)).getD 0 = child.start ∧ _
    rcases segmentFirst_cases old edit with zero | ⟨child, found, rest⟩
    · rw [zero]
      exact .inl ⟨rfl, start_children_zero old⟩
    · rw [found]
      exact .inr ⟨child, rfl, rfl, rest⟩
  split at changed
  case h_1 resumed =>
    simp only [Option.bind_some, Option.bind_none, Option.ite_none_left_eq_some,
      Option.some.injEq] at changed
    obtain ⟨-, rfl⟩ := changed
    exact ⟨first, start, _, outside, starts, .inl ⟨resumed, rfl⟩, kept, rfl, rfl⟩
  case h_2 offset resumed =>
    simp only [Option.bind_eq_some_iff, Option.bind_none, Option.ite_none_left_eq_some,
      Option.some.injEq] at changed
    obtain ⟨last, found, -, rfl⟩ := changed
    obtain ⟨within, here, -⟩ := List.findIdx?_eq_some_iff_getElem.mp found
    rw [Bool.and_eq_true, beq_iff_eq] at here
    refine ⟨first, start, last, outside, starts, .inr ⟨old.root.children[last], ?_, ?_, here.2⟩,
      kept, rfl, rfl⟩
    · rw [here.1]
      exact resumed
    · exact List.getElem?_eq_getElem within

section Seams

variable {old : Parse} {edit : TextEdit} {newText : String} {result : Result}
  {first start last : Nat} {outside : List Diagnostic}
  {front replaced back : List Char}

/-- A child of the root at which a statement begins is a seam. -/
theorem exists_seam_of_child {config : Config} {text : String} {index : Nat} {child : Cursor}
    (found : (ofText config text).root.children[index]? = some child)
    (anchor : isAnchor child.tree = true) :
    ∃ front target rest before after, Seam config text front (target :: rest) before after ∧
      target.kind.isSignificant = true ∧ index = (plant (leavesOf front) before).length ∧
      child.start = Text.byteLength (charsOf front) ∧
      child.start + Text.byteLength target.chars ≤ child.span.stop := by
  obtain ⟨tree, place⟩ := Cursor.getElem?_sequence found
  obtain ⟨front, target, rest, before, after, seam, significant, index_eq, head⟩ :=
    exists_seam tree anchor
  refine ⟨front, target, rest, before, after, seam, significant, index_eq, ?_, ?_⟩
  · have children : (ofText config text).root.tree.children = _ := seam.children
    rw [place, children, index_eq, List.take_left, ← Tree.width_leavesAll, leavesAll_plant,
      width_leavesOf]
    exact Nat.zero_add _
  · obtain ⟨others, leaves⟩ := List.head?_eq_some_iff.mp head
    have size : target.leaf.2.utf8ByteSize = Text.byteLength target.chars :=
      Text.utf8ByteSize_ofList target.chars
    have width := Tree.width_leaves child.tree
    rw [leaves, Leaf.width_cons, size] at width
    change _ ≤ child.start + child.tree.width
    omega

variable {old : Parse} {edit : TextEdit} {newText : String} {result : Result}
  {first start last : Nat} {outside : List Diagnostic} {front replaced back : List Char}

/-- Text that stays the same behind a lexeme, up to the edit. -/
theorem exists_sharedStart (tree : old.tree = (ofText old.config old.text).tree)
    (applied : edit.Applied old.text newText front replaced back)
    (change : ChangedSegment old edit newText result first start last outside) :
    ∃ front back back' before after,
      SharedStart old.config old.text newText front back back' before after ∧
      start = Text.byteLength (charsOf front) ∧ start ≤ edit.offset ∧
      first = (plant (leavesOf front) before).length ∧
      (front = [] ∨ ∀ d ∈ old.diagnostics.items, d.span.start ≠ start) := by
  rcases change.starts with ⟨rfl, rfl⟩ | ⟨child, found, rfl, anchor, before, unreported⟩
  · refine ⟨[], _, _, [], _, ⟨.first old.config old.text, rfl, .inl ⟨rfl, rfl⟩⟩, rfl, Nat.zero_le _, ?_, .inl rfl⟩
    rw [plant_nil]
    rfl
  · rw [root, tree] at found
    obtain ⟨front', target, rest, before', after, seam, significant, index, place, width⟩ :=
      exists_seam_of_child found anchor
    have chars := seam.chars
    rw [applied.old, charsOf_cons, ← List.append_assoc (charsOf front'), List.append_assoc] at chars
    have offset := applied.offset
    obtain ⟨between, front_eq, rest_eq⟩ := Text.exists_between_of_le chars.symm
      (by rw [Text.byteLength_append, offset]; omega)
    obtain ⟨c, more, rfl⟩ : ∃ c more, between = c :: more := by
      refine List.exists_cons_of_ne_nil fun none => ?_
      rw [front_eq, none, List.append_nil, Text.byteLength_append] at offset
      omega
    have new : newText.toList =
        charsOf front' ++ (target.chars ++ c :: (more ++ edit.inserted.toList ++ back)) := by
      rw [applied.new, front_eq]
      simp only [List.append_assoc, List.cons_append]
    obtain ⟨back', shared⟩ := exists_sharedStart_of_chars seam significant rest_eq new
    refine ⟨front', _, back', before', after, shared, place, ?_, index, .inr fun d member => ?_⟩
    · omega
    · rw [hasDiagnosticAt, List.any_eq_false] at unreported
      simpa using unreported d member

theorem isAnchor_of_beginsItem {tree : Tree} (begins : beginsItem tree = true) :
    isAnchor tree = true := by
  cases tree with
  | node => rfl
  | leaf kind text =>
    have semicolon : kind = .semicolon := beq_iff_eq.mp begins
    rw [semicolon]
    rfl

/-- Texts in which the same number of bytes comes after the edit end alike. -/
theorem charsOf_back {oldFront oldBack newFront newBack : List Lexeme}
    (applied : edit.Applied old.text newText front replaced back)
    (old_eq : old.text.toList = charsOf oldFront ++ charsOf oldBack)
    (new_eq : newText.toList = charsOf newFront ++ charsOf newBack)
    (after : edit.oldStop ≤ Text.byteLength (charsOf oldFront))
    (place : (Text.byteLength (charsOf oldFront) : Int) + edit.delta =
      Text.byteLength (charsOf newFront)) : charsOf newBack = charsOf oldBack := by
  rw [applied.old] at old_eq
  rw [applied.new] at new_eq
  obtain ⟨between, front_eq, back_eq⟩ := Text.exists_between_of_le old_eq
    (by rw [applied.byteLength_old]; exact after)
  rw [back_eq, ← List.append_assoc] at new_eq
  refine (Text.eq_of_byteLength_eq new_eq.symm ?_).2
  have length := congrArg Text.byteLength front_eq
  have delta := applied.delta_eq
  simp only [Text.byteLength_append] at length ⊢
  omega

/-- The segment ends at a seam after which the texts are the same. -/
theorem exists_resumption (tree : old.tree = (ofText old.config old.text).tree)
    (applied : edit.Applied old.text newText front replaced back)
    (change : ChangedSegment old edit newText result first start last outside)
    {newFront rest : List Lexeme} {target : Lexeme}
    (lexemes_eq : Parse.lexemes old.config newText = newFront ++ target :: rest)
    (halted : (segmentOutcome old edit newText start).haltedAt =
      some (Text.byteLength (charsOf newFront)))
    (resumes : resumesAt edit (boundaries old.diagnostics old.root.children)
      (Text.byteLength (charsOf newFront)) = true) :
    ∃ oldFront before after, Seam old.config old.text oldFront (target :: rest) before after ∧
      last = (plant (leavesOf oldFront) before).length ∧
      (Text.byteLength (charsOf oldFront) : Int) + edit.delta =
        Text.byteLength (charsOf newFront) ∧
      edit.oldStop ≤ Text.byteLength (charsOf oldFront) ∧
      ∀ d ∈ old.diagnostics.items, d.span.start ≠ Text.byteLength (charsOf oldFront) := by
  rw [resumesAt, Bool.and_eq_true, decide_eq_true_eq, List.contains_iff_mem, boundaries,
    List.mem_map] at resumes
  obtain ⟨after, other, member, same⟩ := resumes
  rw [List.mem_filter, Bool.and_eq_true, Bool.not_eq_true'] at member
  obtain ⟨-, -, unreported⟩ := member
  have resumed : resumption edit (segmentOutcome old edit newText start) =
      some ((Text.byteLength (charsOf newFront) : Int) - edit.delta).toNat := by
    rw [resumption, halted]
    rfl
  have stops := change.stops
  rw [resumed] at stops
  obtain ⟨child, place, found, begins⟩ := stops.resolve_left fun none => nomatch none.1
  rw [root, tree] at found
  obtain ⟨oldFront, target', rest', before, after', seam, significant, index, start', -⟩ :=
    exists_seam_of_child found (isAnchor_of_beginsItem begins)
  have place := Option.some.inj place
  have moved : (Text.byteLength (charsOf oldFront) : Int) + edit.delta =
      Text.byteLength (charsOf newFront) := by omega
  have later : edit.oldStop ≤ Text.byteLength (charsOf oldFront) := by omega
  have new_eq : newText.toList = charsOf newFront ++ charsOf (target :: rest) := by
    rw [← charsOf_append, ← lexemes_eq, Parse.charsOf_lexemes]
  have chars := charsOf_back applied seam.chars new_eq later moved
  have same_lexemes : target :: rest = target' :: rest' := by
    rw [← lexemes_back lexemes_eq, chars, lexemes_back seam.lexemes]
  rw [← same_lexemes] at seam
  refine ⟨oldFront, before, after', seam, index, moved, later, fun d member => ?_⟩
  rw [hasDiagnosticAt, List.any_eq_false] at unreported
  have apart := unreported d member
  rw [beq_iff_eq] at apart
  omega

/-- The old and the new text where statements are parsed again: they share the lexemes `head`, of
which `before` are the outlines, and the lexemes `tail`, of which `after` are the outlines. -/
structure SegmentCut (old : Parse) (edit : TextEdit) (newText : String) (first start last : Nat)
    (head back lexemes tail oldFront : List Lexeme)
    (before others outlines oldBefore after : List Outline) (log : List Diagnostic) : Prop where
  shared : SharedStart old.config old.text newText head back (lexemes ++ tail) before others
  begins : Logged (upToToken (Text.byteLength (charsOf head))) (beginning old.config old.text)
    (beginning old.config newText) (upTo old.config old.text before.length)
    (upTo old.config newText before.length)
  opens : Opens (leavesOf lexemes) ∨ head = [] ∧ before = []
  count : countAll before = total (leavesOf head)
  stretch : Stretch old.config (resumesAt edit (boundaries old.diagnostics old.root.children))
    newText head lexemes tail before outlines after log
  resumes : Seam old.config old.text oldFront tail oldBefore after
  ends : Logged (.along (Text.byteLength (charsOf oldFront))
      (shifted (Text.byteLength (charsOf oldFront)) (Text.byteLength (charsOf (head ++ lexemes))))
      True)
    (upTo old.config old.text oldBefore.length)
    (upTo old.config newText (before ++ outlines).length) (run old.config old.text)
    (run old.config newText)
  start_eq : start = Text.byteLength (charsOf head)
  starts : start ≤ edit.offset
  unreported : head = [] ∨ ∀ d ∈ old.diagnostics.items, d.span.start ≠ start
  first_eq : first = (plant (leavesOf head) before).length
  last_eq : last = (plant (leavesOf oldFront) oldBefore).length
  stops : resumption edit (segmentOutcome old edit newText start) = none ∧ tail = [] ∧ after = [] ∨
    resumption edit (segmentOutcome old edit newText start) =
        some (Text.byteLength (charsOf oldFront)) ∧
      (Text.byteLength (charsOf oldFront) : Int) + edit.delta =
        Text.byteLength (charsOf (head ++ lexemes)) ∧
      edit.oldStop ≤ Text.byteLength (charsOf oldFront) ∧
      ∀ d ∈ old.diagnostics.items, d.span.start ≠ Text.byteLength (charsOf oldFront)

/-- The children of the root are what is planted from all statements. -/
theorem length_children (tree : old.tree = (ofText old.config old.text).tree) :
    old.root.children.length = (plant (leavesOf (Parse.lexemes old.config old.text))
      (run old.config old.text).outline).length := by
  have children := (Seam.last old.config old.text).children
  have none : plant (leavesOf []) [] = [] := plant_nil []
  rw [none, List.append_nil] at children
  rw [root, tree, Cursor.children, Cursor.length_sequence, ← children]
  rfl

theorem exists_segmentCut (tree : old.tree = (ofText old.config old.text).tree)
    (applied : edit.Applied old.text newText front replaced back)
    (change : ChangedSegment old edit newText result first start last outside) :
    ∃ head back lexemes tail oldFront before others outlines oldBefore after log,
      SegmentCut old edit newText first start last head back lexemes tail oldFront before others
        outlines oldBefore after log := by
  obtain ⟨head, back, back', before, others, shared, start_eq, starts, first_eq, unreported⟩ :=
    exists_sharedStart tree applied change
  obtain ⟨after', seam, begins⟩ := shared.exists_seam
  obtain ⟨lexemes, tail, outlines, after, log, rfl, stretch⟩ := seam.exists_stretch
    (resumesAt edit (boundaries old.diagnostics old.root.children))
  have opens : Opens (leavesOf lexemes) ∨ head = [] ∧ before = [] := by
    refine seam.opens.imp_left fun opens => @Opens.of_append _ (leavesOf tail) ?_
    rw [← leavesOf_append]
    exact opens
  have outcome : segmentOutcome old edit newText start = runProgram old.config
      (resumesAt edit (boundaries old.diagnostics old.root.children)) newText.utf8ByteSize
      (.onDemand (scannerAt old.config newText head)) := by
    rw [segmentOutcome, start_eq]
    rfl
  rcases stretch.stops with ⟨halted, rfl, rfl⟩ | ⟨halted, resumes, target, rest, rfl, significant⟩
  · have resumed : resumption edit (segmentOutcome old edit newText start) = none := by
      rw [resumption, outcome, halted]
      rfl
    have last_eq : last = old.root.children.length := by
      refine (change.stops.resolve_right ?_).2
      rintro ⟨child, resumed', -⟩
      rw [resumed] at resumed'
      exact nomatch resumed'
    refine ⟨head, back, lexemes, [], _, before, others, outlines, _, [], log, shared, begins, opens,
      seam.count, stretch, Seam.last old.config old.text, ?_, start_eq, starts, unreported, first_eq,
      last_eq.trans (length_children tree), .inl ⟨resumed, rfl, rfl⟩⟩
    have whole : upTo old.config newText (before ++ outlines).length = run old.config newText := by
      rw [(Parse.run_eq old.config newText).1, stretch.seam.outline, List.append_nil]
    rw [whole, ← (Parse.run_eq old.config old.text).1]
    exact .refl _ _
  · have place : Parse.lexemes old.config newText = (head ++ lexemes) ++ target :: rest := by
      rw [shared.lexemes, List.append_assoc]
    have halted' : (segmentOutcome old edit newText start).haltedAt =
        some (Text.byteLength (charsOf (head ++ lexemes))) := by rw [outcome, halted]
    obtain ⟨oldFront, oldBefore, after', old_seam, last_eq, moved, later, apart⟩ :=
      exists_resumption tree applied change place halted' resumes
    have left : (upTo old.config old.text oldBefore.length).ahead ≠ [] := by
      rw [← List.length_pos_iff, old_seam.stands.length, map_leaf_tokensAt,
        total_leavesOf_cons significant]
      exact Nat.succ_pos _
    obtain ⟨rfl, ends⟩ := old_seam.follows stretch.seam left
    have resumed : resumption edit (segmentOutcome old edit newText start) =
        some (Text.byteLength (charsOf oldFront)) := by
      rw [resumption, halted']
      refine congrArg Option.some ?_
      change ((Text.byteLength (charsOf (head ++ lexemes)) : Int) - edit.delta).toNat = _
      omega
    exact ⟨head, back, lexemes, target :: rest, oldFront, before, others, outlines, oldBefore, _, log,
      shared, begins, opens, seam.count, stretch, old_seam, ends, start_eq, starts, unreported,
      first_eq, last_eq, .inr ⟨resumed, moved, later, apart⟩⟩

/-- Parsing some statements again yields the tree of the new text. -/
theorem tree_of_changeSegment? (tree : old.tree = (ofText old.config old.text).tree)
    (applies : edit.apply old.text = .ok newText)
    (changed : changeSegment? old edit newText = some result) :
    result.tree = (ofText old.config newText).tree := by
  obtain ⟨front, replaced, back, applied⟩ := TextEdit.exists_applied applies
  obtain ⟨first, start, last, outside, change⟩ := changeSegment?_eq_some changed
  obtain ⟨head, back, lexemes, tail, oldFront, before, others, outlines, oldBefore, after, log, cut⟩ :=
    exists_segmentCut tree applied change
  have start_children := cut.shared.seam.children
  have stop_children := cut.resumes.children
  have new_children := cut.stretch.seam.children
  have segment : plant (leavesOf (head ++ lexemes)) (before ++ outlines) =
      plant (leavesOf head) before ++ plant (leavesOf lexemes) outlines := by
    rw [leavesOf_append]
    rcases cut.opens with opens | ⟨rfl, rfl⟩
    · exact plant_append (.inl opens) cut.count outlines
    · rfl
  have taken : (ofText old.config old.text).tree.children.take first =
      plant (leavesOf head) before := by rw [start_children, cut.first_eq, List.take_left]
  have dropped : (ofText old.config old.text).tree.children.drop last =
      plant (leavesOf tail) after := by rw [stop_children, cut.last_eq, List.drop_left]
  have parsed : (Tree.ofEvents (segmentOutcome old edit newText start).tokens
      (segmentOutcome old edit newText start).events).children =
      plant (leavesOf lexemes) outlines := by
    have tree := cut.stretch.tree
    rw [segmentOutcome, cut.start_eq]
    exact congrArg Tree.children tree
  have spliced : ((ofText old.config old.text).tree.spliceChildren first last
      (plant (leavesOf lexemes) outlines)) = .node .root (plant (leavesOf head) before ++
        plant (leavesOf lexemes) outlines ++ plant (leavesOf tail) after) := by
    rw [← taken, ← dropped, tree_ofText]
    rfl
  rw [change.tree, parsed, tree, spliced, ← segment, ← new_children, tree_ofText]
  rfl

end Seams

end LosslessSyntax.Reparse
