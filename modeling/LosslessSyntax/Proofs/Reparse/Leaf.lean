import LosslessSyntax.Proofs.Grammar.Alike
import LosslessSyntax.Proofs.Parse.Reported
import LosslessSyntax.Reparse.Leaf

/-! # Changing one leaf gives the tree of the new text

A leaf is changed only if the scanner, begun one token before it, comes to the end of it as it did
in the old text. Then the lexemes of the two texts differ in that one lexeme (`LeafCut`), which
means the same to the grammar. So the new tree has the form of the old one, and is the old one with
that leaf changed (`tree_of_changeLeafAt?`).
-/

namespace LosslessSyntax.Reparse

open Lexeme Text

/-- What is checked before a leaf is changed. -/
structure LeafChange (old : Parse) (edit : TextEdit) (newText : String) (offset : Nat)
    (path : List Nat) (start : Nat) (kind : TokenKind) (text : String) (token : Token)
    (scanner : Scanner) : Prop where
  found : old.tree.leafAt? offset 0 = some (path, start, kind, text)
  starts : start ≤ edit.offset
  stops : edit.oldStop ≤ start + text.utf8ByteSize
  changeable : changeableKinds.contains kind = true
  untouched : ∀ d ∈ old.diagnostics.items,
    d.span.stop < start ∨ start + text.utf8ByteSize < d.span.start
  scanned :
    rescan? (if start = 0 then none else old.root.tokenAt? (start - 1))
      (.resume newText
        (((if start = 0 then none else old.root.tokenAt? (start - 1)).map (·.span.start)).getD start)
        .normal old.config.operatorLimit) = some (token, scanner)
  sameKind : token.kind = kind
  sameStart : token.start = start
  moved : (token.stop : Int) = (start + text.utf8ByteSize : Nat) + edit.delta
  mode : scanner.mode = .normal
  sound : scanner.diagnostics.items = []
  breaks : kind.isTrivia = true → hasBreak token.text = hasBreak text

/-- A diagnostic after the text up to an offset grew or shrank. -/
def movedPast (stop : Nat) (delta : Int) (d : Diagnostic) : Diagnostic :=
  if stop < d.span.start then d.shift delta else d

theorem changeLeafAt?_eq_some {old : Parse} {edit : TextEdit} {newText : String} {offset : Nat}
    {result : Result} (changed : changeLeafAt? old edit newText offset = some result) :
    ∃ path start kind text token scanner,
      LeafChange old edit newText offset path start kind text token scanner ∧
      old.tree.replaceAt? path (.leaf token.kind token.text) = some result.tree ∧
      result.diagnostics = .ofList (old.diagnostics.items.map
        (movedPast (start + text.utf8ByteSize) edit.delta)) := by
  simp only [changeLeafAt?, Option.bind_eq_bind, Option.bind_eq_some_iff] at changed
  obtain ⟨⟨path, start, kind, text⟩, found, changed⟩ := changed
  simp only [Option.bind_none, Option.ite_none_left_eq_some, Option.bind_eq_some_iff] at changed
  obtain ⟨inside, untouched, ⟨token, scanner⟩, scanned, rescanned, kept, tree, replaced, same⟩ :=
    changed
  simp only [Bool.or_eq_true, Bool.not_eq_true', Bool.and_eq_false_iff, decide_eq_false_iff_not,
    not_or, not_not, Bool.not_eq_false, decide_eq_true_eq, ne_eq] at inside rescanned
  obtain ⟨⟨⟨⟨sameKind, sameStart⟩, moved⟩, mode⟩, sound⟩ := rescanned
  refine ⟨path, start, kind, text, token, scanner, ⟨found, inside.1.1, inside.1.2, inside.2, ?_,
    scanned, sameKind, sameStart, moved, mode, List.isEmpty_iff.mp sound, ?_⟩, ?_, ?_⟩
  · intro d member
    by_contra touches
    refine untouched (List.any_eq_true.mpr ⟨d, member, ?_⟩)
    rw [Bool.and_eq_true, decide_eq_true_eq, decide_eq_true_eq]
    omega
  · intro trivia
    simpa [trivia] using kept
  · rw [← Option.some.inj same]
    exact replaced
  · rw [← Option.some.inj same]
    rfl

/-- Two texts of which the lexemes differ in one, and the old one of these. -/
structure LeafCut (limit : Nat) (oldText newText : String) (front previous : List Lexeme)
    (target target' : Lexeme) (after : List Lexeme) (previous' : List Lexeme) : Prop where
  old : lexemes limit oldText.toList = front ++ (previous ++ target :: after)
  new : lexemes limit newText.toList = front ++ (previous' ++ target' :: after)
  single : previous.length ≤ 1
  same : leavesOf previous' = leavesOf previous
  kind : target'.kind = target.kind
  sound : ∀ lexeme ∈ previous' ++ [target'], lexeme.fault? = none

/-- A text in which what an edit inserts stands within one lexeme. -/
theorem exists_edited_lexeme {edit : TextEdit} {text newText : String}
    {front replaced back : List Char} (applied : edit.Applied text newText front replaced back)
    {before after : List Lexeme} {target : Lexeme}
    (whole : text.toList = charsOf (before ++ target :: after))
    (starts : byteLength (charsOf before) ≤ edit.offset)
    (stops : edit.oldStop ≤ byteLength (charsOf before) + byteLength target.chars) :
    ∃ chars', newText.toList = charsOf before ++ (chars' ++ charsOf after) ∧
      (byteLength chars' : Int) = byteLength target.chars + edit.delta := by
  rw [charsOf_append, charsOf_cons] at whole
  obtain ⟨chars', new, length, -⟩ := applied.exists_part whole starts stops
  exact ⟨chars', new, length⟩

/-- The text from a lexeme on follows what stands before as it did, if the lexeme and the next one
are of the same kinds as before. -/
theorem follows_of_leaf {limit : Nat} {text text' : List Char} {previous previous' after : List Lexeme}
    {target target' : Lexeme} (old : lexemes limit text = previous ++ target :: after)
    (new : lexemes limit text' = previous' ++ target' :: after) (single : previous.length ≤ 1)
    (some : previous ≠ []) (same : leavesOf previous' = leavesOf previous)
    (kind : target'.kind = target.kind) : Follows text text' := by
  obtain ⟨last, rfl⟩ : ∃ last, previous = [last] :=
    List.length_eq_one_iff.mp (by
      have := List.length_pos_iff.mpr some
      omega)
  obtain ⟨last', rfl⟩ : ∃ last', previous' = [last'] := by
    have length := congrArg List.length same
    rw [leavesOf, leavesOf, List.length_map, List.length_map] at length
    exact List.length_eq_one_iff.mp length
  have chars : last'.chars = last.chars := by
    have leaf := congrArg Prod.snd (List.cons.inj same).1
    exact String.ofList_injective leaf
  have text_eq := charsOf_lexemes limit text
  have text_eq' := charsOf_lexemes limit text'
  rw [old] at text_eq
  rw [new] at text_eq'
  obtain ⟨c, more, starts⟩ := List.exists_cons_of_ne_nil
    (chars_ne_nil last (show last ∈ lexemes limit text by simp [old]))
  obtain ⟨d, others, next⟩ := List.exists_cons_of_ne_nil
    (chars_ne_nil target (show target ∈ lexemes limit text by simp [old]))
  obtain ⟨d', others', next'⟩ := List.exists_cons_of_ne_nil
    (chars_ne_nil target' (show target' ∈ lexemes limit text' by simp [new]))
  have digit : d'.isDigit = d.isDigit := by
    have number := any_isDigit_head target (show target ∈ lexemes limit text by simp [old])
    have number' := any_isDigit_head target' (show target' ∈ lexemes limit text' by simp [new])
    rw [next] at number
    rw [next', kind, ← number] at number'
    exact Bool.eq_iff_iff.mpr number'
  rw [← text_eq, ← text_eq', charsOf_append, charsOf_append, charsOf_cons, charsOf_cons, charsOf_cons,
    charsOf_cons, charsOf_nil, chars, starts, next, next']
  refine ⟨rfl, fun _ => ?_⟩
  cases more with
  | nil => exact digit
  | cons => rfl

/-- A scanner that reads as many bytes as stand before a part of the text has read what stands before
it, and has come to that part. -/
theorem exists_first_of_stop {s next : Scanner} {token : Token} {chars rest : List Char}
    (between : s.Between) (found : s.next? = some (token, next)) (inside : token.kind ≠ .eof)
    (whole : s.rest = chars ++ rest)
    (stop : token.stop = s.position.offset + byteLength chars) :
    ∃ first, s.ahead = first :: next.ahead ∧ token = tokenAt s.position first ∧ next.Between ∧
      first.chars = chars ∧ next.rest = rest ∧ next.position = s.position.after chars ∧
      next.operatorLimit = s.operatorLimit ∧
      next.diagnostics = s.diagnostics.extend (faultAt s.position first) := by
  obtain ⟨first, ahead, rfl, between', text, position, limit, diagnostics⟩ :=
    between.of_next found inside
  rw [stop_tokenAt] at stop
  obtain ⟨rfl, same⟩ := eq_of_byteLength_eq (text.symm.trans whole) (Nat.add_left_cancel stop)
  exact ⟨first, ahead, rfl, between', rfl, same, position, limit, diagnostics⟩

/-- What is read behind a token is read only if the token is as it was. -/
theorem rescan?_some_eq_some {previous : Cursor} {s scanner : Scanner} {token : Token}
    (scanned : rescan? (some previous) s = some (token, scanner)) :
    ∃ first next, s.next? = some (first, next) ∧ some first.kind = previous.tree.tokenKind? ∧
      first.span = previous.span ∧ next.next? = some (token, scanner) := by
  simp only [rescan?, Option.bind_eq_bind, Option.bind_none, Option.bind_eq_some_iff,
    Option.ite_none_left_eq_some, Bool.or_eq_true, decide_eq_true_eq, not_or, ne_eq,
    not_not] at scanned
  obtain ⟨⟨first, next⟩, found, ⟨kind, span⟩, scanned⟩ := scanned
  exact ⟨first, next, found, kind, span, scanned⟩

/-- The last byte of a lexeme is in the leaf of that lexeme. -/
theorem tokenAt?_last_byte {parse : Parse} {front after : List Lexeme} {last : Lexeme}
    (leaves : parse.tree.leaves = leavesOf (front ++ last :: after)) (solid : last.chars ≠ []) :
    parse.root.tokenAt? (byteLength (charsOf front ++ last.chars) - 1) =
      some ⟨last.leaf.toTree, byteLength (charsOf front)⟩ := by
  have length := byteLength_pos solid
  have holds : Leaf.Holds 0 (byteLength (charsOf front ++ last.chars) - 1) parse.tree.leaves
      (leavesOf front) last.leaf (leavesOf after) := by
    refine ⟨by rw [leaves]; simp [leavesOf], ?_, ?_⟩
    · rw [width_leavesOf, byteLength_append]
      omega
    · have size : last.leaf.2.utf8ByteSize = byteLength last.chars := utf8ByteSize_ofList last.chars
      rw [width_leavesOf, size, byteLength_append]
      omega
  have within : byteLength (charsOf front ++ last.chars) - 1 < 0 + parse.tree.width := by
    have := holds.within
    rw [← Tree.width_leaves, holds.split, Leaf.width_append, Leaf.width_cons]
    omega
  obtain ⟨before, leaf, after, holds', found⟩ := Cursor.tokenWithin?_eq_some (Nat.zero_le _) within
  obtain ⟨rfl, rfl⟩ := holds.unique holds'
  rw [width_leavesOf, Nat.zero_add] at found
  exact found

theorem fault?_eq_none {position : Position} {lexeme : Lexeme}
    (sound : faultAt position lexeme = []) : lexeme.fault? = none := by
  rwa [faultAt, List.map_eq_nil_iff, Option.toList_eq_nil_iff] at sound

section Change

variable {old : Parse} {edit : TextEdit} {newText : String} {offset : Nat} {path : List Nat}
  {start : Nat} {kind : TokenKind} {text : String} {token : Token} {scanner : Scanner}
  (change : LeafChange old edit newText offset path start kind text token scanner)
  {before after : List Lexeme} {target : Lexeme}
  (split : lexemes old.config.operatorLimit old.text.toList = before ++ target :: after)
  (start_eq : start = byteLength (charsOf before)) (leaf : (kind, text) = target.leaf)
  {chars' : List Char} (grown : (byteLength chars' : Int) = byteLength target.chars + edit.delta)

include change split start_eq leaf grown

/-- A scanner that stands where the leaf begins reads one lexeme of the same kind. -/
theorem LeafChange.exists_target {s : Scanner} (between : s.Between)
    (found : s.next? = some (token, scanner))
    (limit : s.operatorLimit = old.config.operatorLimit)
    (place : s.position.offset = byteLength (charsOf before))
    (rest : s.rest = chars' ++ charsOf after) :
    ∃ target', s.ahead = target' :: after ∧ target'.kind = target.kind ∧
      token.leaf = target'.leaf ∧
      scanner.diagnostics = s.diagnostics.extend (faultAt s.position target') := by
  obtain ⟨rfl, rfl⟩ : kind = target.kind ∧ text = String.ofList target.chars := Prod.mk.inj leaf
  have inside : token.kind ≠ .eof := by
    rw [change.sameKind]
    exact kind_ne_eof target (show target ∈ lexemes old.config.operatorLimit old.text.toList by
      simp [split])
  have stop : token.stop = s.position.offset + byteLength chars' := by
    have moved := change.moved
    rw [utf8ByteSize_ofList] at moved
    omega
  have after_eq : lexemes old.config.operatorLimit (charsOf after) = after := by
    rw [← List.singleton_append, ← List.append_assoc] at split
    exact lexemes_back split
  obtain ⟨target', ahead, rfl, -, -, rest_eq, -, limit', diagnostics⟩ :=
    exists_first_of_stop between found inside rest stop
  refine ⟨target', ?_, change.sameKind, rfl, diagnostics⟩
  rw [ahead, Scanner.ahead, rest_eq, limit', limit, after_eq]

/-- The first leaf is read again alone. -/
theorem LeafChange.cut_first (first : before = [])
    (new : newText.toList = charsOf before ++ (chars' ++ charsOf after)) :
    ∃ target', LeafCut old.config.operatorLimit old.text newText [] [] target target' after [] ∧
      token.leaf = target'.leaf := by
  subst first
  have scanned := change.scanned
  rw [if_pos (show start = 0 from start_eq), rescan?, Option.map_none, Option.getD_none, start_eq,
    Scanner.resume_of_append (show newText.toList = charsOf [] ++ _ from new)] at scanned
  obtain ⟨target', ahead, kind, leaf', diagnostics⟩ :=
    change.exists_target split start_eq leaf grown ⟨rfl, .inl rfl⟩ scanned rfl rfl rfl
  refine ⟨target', ⟨split, ?_, Nat.zero_le 1, rfl, kind, ?_⟩, leaf'⟩
  · rw [new]
    exact ahead
  · have sound := change.sound
    rw [diagnostics] at sound
    intro lexeme member
    obtain rfl := List.mem_singleton.mp member
    exact fault?_eq_none (Diagnostics.eq_nil_of_extend sound)

/-- Any other leaf is read again from the beginning of the lexeme before it, which has stayed as it
was. -/
theorem LeafChange.cut_behind {front : List Lexeme} {last : Lexeme} (behind : before = front ++ [last])
    (new : newText.toList = charsOf before ++ (chars' ++ charsOf after))
    (leaves : old.tree.leaves = leavesOf (before ++ target :: after)) :
    ∃ last' target',
      LeafCut old.config.operatorLimit old.text newText front [last] target target' after [last'] ∧
        token.leaf = target'.leaf := by
  subst behind
  have member : last ∈ lexemes old.config.operatorLimit old.text.toList := by simp [split]
  have length := byteLength_pos (chars_ne_nil last member)
  have chars_eq : charsOf (front ++ [last]) = charsOf front ++ last.chars := by
    rw [charsOf_append, charsOf_cons, charsOf_nil, List.append_nil]
  have later : start ≠ 0 := by
    rw [start_eq, chars_eq, byteLength_append]
    omega
  rw [List.append_assoc, List.singleton_append] at leaves
  have scanned := change.scanned
  rw [if_neg later, start_eq, chars_eq, tokenAt?_last_byte leaves (chars_ne_nil last member),
    Option.map_some, Option.getD_some] at scanned
  change rescan? _ (.resume newText (byteLength (charsOf front)) .normal _) = _ at scanned
  rw [chars_eq, List.append_assoc] at new
  rw [Scanner.resume_of_append new] at scanned
  obtain ⟨token', scanner', found, kind', span, scanned⟩ := rescan?_some_eq_some scanned
  have inside : token'.kind ≠ .eof := by
    rw [Option.some.inj kind']
    exact kind_ne_eof last member
  have stop := congrArg Span.stop span
  change token'.stop = byteLength (charsOf front) + last.leaf.toTree.width at stop
  rw [Leaf.toTree, Tree.width_leaf, Lexeme.leaf, utf8ByteSize_ofList] at stop
  obtain ⟨last', ahead, rfl, between', chars, rest, position, limit', diagnostics⟩ :=
    exists_first_of_stop ⟨rfl, .inl rfl⟩ found inside rfl (by
      rw [stop, Position.offset_after_start])
  have place : scanner'.position.offset = byteLength (charsOf (front ++ [last])) := by
    rw [position, chars_eq, ← Position.after_append, Position.offset_after_start]
  obtain ⟨target', ahead', kind, leaf', diagnostics'⟩ :=
    change.exists_target split start_eq leaf grown between' scanned limit' place rest
  have old_split : lexemes old.config.operatorLimit old.text.toList =
      front ++ ([last] ++ target :: after) := by rw [split, List.append_assoc]
  have new_split : lexemes old.config.operatorLimit (last.chars ++ (chars' ++ charsOf after)) =
      [last'] ++ target' :: after := by
    rw [ahead'] at ahead
    exact ahead
  have same : leavesOf [last'] = leavesOf [last] := by
    have kind' : last'.kind = last.kind := Option.some.inj kind'
    simp only [leavesOf, List.map_cons, List.map_nil, Lexeme.leaf, kind', chars]
  have follows := follows_of_leaf (lexemes_back old_split) new_split (Nat.le_refl 1)
    (List.cons_ne_nil last []) same kind
  refine ⟨last', target', ⟨old_split, ?_, Nat.le_refl 1, same, kind, ?_⟩, leaf'⟩
  · rw [new, lexemes_front old_split follows, new_split]
  · have sound := change.sound
    rw [diagnostics', diagnostics, ← Diagnostics.extend_append] at sound
    obtain ⟨first, second⟩ := List.append_eq_nil_iff.mp (Diagnostics.eq_nil_of_extend sound)
    intro lexeme member
    rcases List.mem_append.mp member with member | member
    · obtain rfl := List.mem_singleton.mp member
      exact fault?_eq_none first
    · obtain rfl := List.mem_singleton.mp member
      exact fault?_eq_none second

end Change

/-- What is checked before a leaf is changed cuts both texts. -/
theorem LeafChange.cut {old : Parse} {edit : TextEdit} {newText : String} {offset : Nat}
    {path : List Nat} {start : Nat} {kind : TokenKind} {text : String} {token : Token}
    {scanner : Scanner} (change : LeafChange old edit newText offset path start kind text token scanner)
    {front replaced back : List Char} (applied : edit.Applied old.text newText front replaced back)
    {before after : List Lexeme} {target : Lexeme}
    (split : lexemes old.config.operatorLimit old.text.toList = before ++ target :: after)
    (leaves : old.tree.leaves = leavesOf (before ++ target :: after))
    (start_eq : start = byteLength (charsOf before)) (leaf : (kind, text) = target.leaf) :
    ∃ front previous previous' target', before = front ++ previous ∧
      LeafCut old.config.operatorLimit old.text newText front previous target target' after
        previous' ∧
      token.leaf = target'.leaf := by
  have whole : old.text.toList = charsOf (before ++ target :: after) := by
    rw [← split, charsOf_lexemes]
  have size : text.utf8ByteSize = byteLength target.chars := by
    rw [(Prod.mk.inj leaf).2, utf8ByteSize_ofList]
  obtain ⟨chars', new, grown⟩ := exists_edited_lexeme applied whole (start_eq ▸ change.starts)
    (start_eq ▸ size ▸ change.stops)
  rcases List.eq_nil_or_concat before with first | ⟨front, last, behind⟩
  · obtain ⟨target', cut, same⟩ := change.cut_first split start_eq leaf grown first new
    exact ⟨[], [], [], target', first, cut, same⟩
  · rw [List.concat_eq_append] at behind
    obtain ⟨last', target', cut, same⟩ :=
      change.cut_behind split start_eq leaf grown behind new leaves
    exact ⟨front, [last], [last'], target', behind, cut, same⟩

/-- Where the places of the old text are in the new one, if `size` bytes from a place on have become
`size'` bytes. -/
def carry (place size size' : Nat) (x : Nat) : Nat := if x ≤ place then x else x - size + size'

theorem tokensAt_of_leavesOf {lexemes lexemes' : List Lexeme}
    (same : leavesOf lexemes = leavesOf lexemes') (position : Position) :
    tokensAt position lexemes = tokensAt position lexemes' ∧ charsOf lexemes = charsOf lexemes' := by
  induction lexemes generalizing lexemes' position with
  | nil =>
    rw [List.map_eq_nil_iff.mp same.symm]
    exact ⟨rfl, rfl⟩
  | cons first rest ih =>
    obtain ⟨first', rest', rfl, leaf, others⟩ := List.map_eq_cons_iff.mp same.symm
    obtain ⟨kind, text⟩ := Prod.mk.inj leaf
    have chars := String.ofList_injective text
    obtain ⟨tokens, left⟩ := ih others.symm (position.after first.chars)
    rw [tokensAt, tokensAt, charsOf_cons, charsOf_cons, tokens, left, tokenAt, tokenAt, kind, chars]
    exact ⟨rfl, rfl⟩

section Cut

variable {limit : Nat} {oldText newText : String} {front previous after previous' : List Lexeme}
  {target target' : Lexeme}

/-- What stands before the leaf that is changed. -/
def placeOf (front previous : List Lexeme) : Nat := byteLength (charsOf (front ++ previous))

theorem LeafCut.mem_old (cut : LeafCut limit oldText newText front previous target target' after
    previous') {lexeme : Lexeme} (member : lexeme ∈ front ++ previous ++ target :: after) :
    lexeme ∈ lexemes limit oldText.toList := by
  rw [cut.old, ← List.append_assoc]
  exact member

/-- The tokens of the two texts are alike. -/
theorem LeafCut.alike (cut : LeafCut limit oldText newText front previous target target' after
    previous') (reports : Prop) (changeable : changeableKinds.contains target.kind = true)
    (breaks : target.kind.isTrivia = true →
      hasBreak (String.ofList target'.chars) = hasBreak (String.ofList target.chars)) :
    List.Forall₂
      (Grammar.Alike (.along 0 (carry (placeOf front previous) (byteLength target.chars)
        (byteLength target'.chars)) reports))
      (tokensAt .start (lexemes limit oldText.toList))
      (tokensAt .start (lexemes limit newText.toList)) := by
  have size : 0 < byteLength target.chars :=
    byteLength_pos (chars_ne_nil target (cut.mem_old (by simp)))
  have same : leavesOf (front ++ previous') = leavesOf (front ++ previous) := by
    rw [leavesOf_append, leavesOf_append, cut.same]
  obtain ⟨tokens, chars⟩ := tokensAt_of_leavesOf same .start
  have place : (Position.start.after (charsOf (front ++ previous))).offset =
      placeOf front previous := by
    rw [Position.offset_after]
    exact Nat.zero_add _
  have stop : carry (placeOf front previous) (byteLength target.chars) (byteLength target'.chars)
      (placeOf front previous + byteLength target.chars) =
        placeOf front previous + byteLength target'.chars := by
    rw [carry, if_neg (by omega), Nat.add_sub_cancel]
  have start : carry (placeOf front previous) (byteLength target.chars) (byteLength target'.chars)
      (placeOf front previous) = placeOf front previous := if_pos (Nat.le_refl _)
  rw [cut.old, cut.new, ← List.append_assoc, ← List.append_assoc,
    tokensAt_append _ (front ++ previous), tokensAt_append _ (front ++ previous'), tokens, chars]
  refine List.rel_append ?_ (.cons ⟨cut.kind.symm, ?_, ?_, ?_, ?_, ?_, ?_⟩ ?_)
  · refine Grammar.alike_tokensAt (fun lexeme member => ?_) (Nat.zero_le _) fun x reached within => ?_
    · exact kind_ne_eof lexeme (cut.mem_old (List.mem_append_left _ member))
    · change x ≤ 0 + _ at within
      change _ = 0 + (x - 0)
      rw [carry, if_pos (by rw [placeOf]; omega)]
      omega
  · intro symbol
    rw [show target.kind = .symbol from symbol] at changeable
    exact nomatch changeable
  · rw [Lookahead.isBreak, Lookahead.isBreak]
    change (target.kind.isTrivia && hasBreak (String.ofList target.chars)) =
      (target'.kind.isTrivia && hasBreak (String.ofList target'.chars))
    rw [cut.kind]
    cases trivia : target.kind.isTrivia with
    | true => rw [breaks trivia]
    | false => rfl
  · refine ⟨Nat.zero_le _, place.trans (start.symm.trans (congrArg _ place.symm)), ?_⟩
    change (tokenAt _ target').stop = carry _ _ _ (tokenAt _ target).stop
    rw [stop_tokenAt, stop_tokenAt, place, stop]
  · have starts := place.trans (start.symm.trans (congrArg _ place.symm))
    exact ⟨Nat.zero_le _, starts, starts⟩
  · have stops : (tokenAt (Position.start.after (charsOf (front ++ previous))) target').stop =
        carry (placeOf front previous) (byteLength target.chars) (byteLength target'.chars)
          (tokenAt (Position.start.after (charsOf (front ++ previous))) target).stop := by
      rw [stop_tokenAt, stop_tokenAt, place, stop]
    exact ⟨Nat.zero_le _, stops, stops⟩
  · exact kind_ne_eof target (cut.mem_old (by simp))
  · refine Grammar.alike_tokensAt (fun lexeme member => ?_) (Nat.zero_le _) fun x reached within => ?_
    · exact kind_ne_eof lexeme (cut.mem_old (List.mem_append_right _ (List.mem_cons_of_mem _ member)))
    · simp only [Position.offset_after _ target.chars, Position.offset_after _ target'.chars, place]
        at reached ⊢
      rw [carry, if_neg (by omega)]
      omega

theorem LeafCut.carry_size (cut : LeafCut limit oldText newText front previous target target' after
    previous') :
    carry (placeOf front previous) (byteLength target.chars) (byteLength target'.chars)
      oldText.utf8ByteSize = newText.utf8ByteSize := by
  have size : 0 < byteLength target.chars :=
    byteLength_pos (chars_ne_nil target (cut.mem_old (by simp)))
  have same : leavesOf (front ++ previous') = leavesOf (front ++ previous) := by
    rw [leavesOf_append, leavesOf_append, cut.same]
  have old := congrArg charsOf cut.old
  have new := congrArg charsOf cut.new
  rw [charsOf_lexemes, ← List.append_assoc, charsOf_append, charsOf_cons] at old new
  rw [(tokensAt_of_leavesOf same .start).2] at new
  rw [← byteLength_toList, ← byteLength_toList, old, new]
  have place : byteLength (charsOf (front ++ previous)) = placeOf front previous := rfl
  simp only [byteLength_append _ (_ ++ _), byteLength_append target.chars,
    byteLength_append target'.chars, place]
  rw [carry, if_neg (by omega)]
  omega

variable {config : Config}

/-- The programs over the two texts are grouped in the same way. -/
theorem LeafCut.keeps (cut : LeafCut config.operatorLimit oldText newText front previous target
    target' after previous') {reports : Prop}
    (changeable : changeableKinds.contains target.kind = true)
    (breaks : target.kind.isTrivia = true →
      hasBreak (String.ofList target'.chars) = hasBreak (String.ofList target.chars))
    (ended : reports → (Parse.beginning config oldText).endReported =
      (Parse.beginning config newText).endReported) :
    Grammar.Logged (.along 0 (carry (placeOf front previous) (byteLength target.chars)
          (byteLength target'.chars)) reports)
        (Parse.beginning config oldText) (Parse.beginning config newText)
        (Parse.run config oldText) (Parse.run config newText) ∧
      (Parse.run config oldText).outline = (Parse.run config newText).outline := by
  have alike := cut.alike reports changeable breaks
  have ends : (Grammar.ending (.ofText newText config.operatorLimit)).token.start =
      carry (placeOf front previous) (byteLength target.chars) (byteLength target'.chars)
        (Grammar.ending (.ofText oldText config.operatorLimit)).token.start := by
    rw [Grammar.start_ending_ofText, Grammar.start_ending_ofText, cut.carry_size]
  have abreast : Grammar.Abreast (.along 0 (carry (placeOf front previous) (byteLength target.chars)
      (byteLength target'.chars)) reports) [] [] (Parse.beginning config oldText)
      (Parse.beginning config newText) :=
    Grammar.abreast_programStart (Scanner.between_ofText oldText config.operatorLimit)
      (Scanner.between_ofText newText config.operatorLimit) rfl rfl alike ⟨Nat.zero_le _, ends, ends⟩
      ⟨Nat.zero_le _, ends, ends⟩
      ended
  obtain ⟨keeps, pieces⟩ : Grammar.Keeps _ [] [] _ _ (Parse.run config oldText)
      (Parse.run config newText) ∧ _ := Grammar.keeps_programRun abreast
  exact ⟨keeps.logged, Grammar.State.outline_congr pieces⟩

/-- The trees of the two texts are of the same form, and differ in the one leaf. -/
theorem LeafCut.tree (cut : LeafCut config.operatorLimit oldText newText front previous target
    target' after previous') (changeable : changeableKinds.contains target.kind = true)
    (breaks : target.kind.isTrivia = true →
      hasBreak (String.ofList target'.chars) = hasBreak (String.ofList target.chars)) :
    (Parse.ofText config newText).tree.blank = (Parse.ofText config oldText).tree.blank ∧
      (Parse.ofText config newText).tree.leaves =
        leavesOf (front ++ previous) ++ target'.leaf :: leavesOf after := by
  have outline := (cut.keeps changeable breaks False.elim).2
  have old : leavesOf (Parse.lexemes config oldText) =
      leavesOf (front ++ previous) ++ target.leaf :: leavesOf after := by
    rw [Parse.lexemes, cut.old, ← List.append_assoc, leavesOf_append]
    rfl
  have new : leavesOf (Parse.lexemes config newText) =
      leavesOf (front ++ previous) ++ target'.leaf :: leavesOf after := by
    rw [Parse.lexemes, cut.new, leavesOf_append, leavesOf_append, cut.same, leavesOf_append,
      List.append_assoc]
    rfl
  refine ⟨?_, (Parse.leaves_ofText config newText).trans new⟩
  have significant : target'.leaf.isSignificant = target.leaf.isSignificant :=
    congrArg TokenKind.isSignificant cut.kind
  rw [Parse.tree_ofText, Parse.tree_ofText, Tree.blank_node, Tree.blank_node, outline]
  refine congrArg _ (Outline.blankAll_plant ?_ _)
  rw [old, new, List.map_append, List.map_append, List.map_cons, List.map_cons, significant]

end Cut

/-- A span that does not touch so many bytes from a place on. -/
def Apart (place size : Nat) (span : Span) : Prop := span.stop < place ∨ place + size < span.start

/-- How the texts are cut when a leaf is changed, and what becomes of the parse. -/
structure ChangedLeaf (old : Parse) (edit : TextEdit) (newText : String) (result : Result)
    (front previous : List Lexeme) (target target' : Lexeme) (after previous' : List Lexeme) :
    Prop where
  cut : LeafCut old.config.operatorLimit old.text newText front previous target target' after
    previous'
  changeable : changeableKinds.contains target.kind = true
  breaks : target.kind.isTrivia = true →
    hasBreak (String.ofList target'.chars) = hasBreak (String.ofList target.chars)
  grown : (byteLength target'.chars : Int) = byteLength target.chars + edit.delta
  apart : ∀ d ∈ old.diagnostics.items,
    Apart (placeOf front previous) (byteLength target.chars) d.span
  tree : ∀ tree : Tree, tree.blank = old.tree.blank →
    tree.leaves = leavesOf (front ++ previous) ++ target'.leaf :: leavesOf after →
    result.tree = tree
  diagnostics : result.diagnostics = .ofList (old.diagnostics.items.map
    (movedPast (placeOf front previous + byteLength target.chars) edit.delta))

/-- Where a leaf is changed, the texts are cut. -/
theorem exists_changedLeaf {old : Parse} {edit : TextEdit} {newText : String} {offset : Nat}
    {result : Result} (tree : old.tree = (Parse.ofText old.config old.text).tree)
    (applies : edit.apply old.text = .ok newText)
    (changed : changeLeafAt? old edit newText offset = some result) :
    ∃ front previous target target' after previous',
      ChangedLeaf old edit newText result front previous target target' after previous' := by
  obtain ⟨front, replaced, back, applied⟩ := TextEdit.exists_applied applies
  obtain ⟨path, start, kind, text, token, scanner, change, replaced, diagnostics⟩ :=
    changeLeafAt?_eq_some changed
  obtain ⟨before, after, holds, start_eq, replaces⟩ :=
    Tree.leafAt?_eq_some (Nat.zero_le offset) change.found
  have leaves : old.tree.leaves = leavesOf (lexemes old.config.operatorLimit old.text.toList) := by
    rw [tree]
    exact Parse.leaves_ofText old.config old.text
  obtain ⟨before, target, after, split, rfl, leaf, rfl⟩ := leavesOf_cut (leaves ▸ holds.split)
  rw [Nat.zero_add, width_leavesOf] at start_eq
  obtain ⟨front, previous, previous', target', rfl, cut, token_eq⟩ :=
    change.cut applied split (split ▸ leaves) start_eq leaf
  obtain ⟨rfl, rfl⟩ : kind = target.kind ∧ text = String.ofList target.chars := Prod.mk.inj leaf
  have place : start = placeOf front previous := start_eq
  have token_text : token.text = String.ofList target'.chars := congrArg Prod.snd token_eq
  refine ⟨front, previous, target, target', after, previous', cut, change.changeable, ?_, ?_, ?_, ?_,
    ?_⟩
  · intro trivia
    have same := change.breaks trivia
    rwa [token_text] at same
  · have moved := change.moved
    have start' := change.sameStart
    rw [Token.stop, start', token_text, utf8ByteSize_ofList, utf8ByteSize_ofList] at moved
    push_cast at moved
    omega
  · intro d member
    have untouched := change.untouched d member
    rwa [utf8ByteSize_ofList, place] at untouched
  · intro tree' form leaves'
    rcases replaces target'.leaf tree' form leaves' with ⟨rfl, -⟩ | ⟨-, put⟩
    · exact absurd replaced.symm (Option.some_ne_none _)
    · rw [← token_eq] at put
      exact Option.some.inj (replaced.symm.trans put)
  · rw [diagnostics, utf8ByteSize_ofList, place]

/-- Changing one leaf gives the tree of the new text. -/
theorem tree_of_changeLeafAt? {old : Parse} {edit : TextEdit} {newText : String} {offset : Nat}
    {result : Result} (tree : old.tree = (Parse.ofText old.config old.text).tree)
    (applies : edit.apply old.text = .ok newText)
    (changed : changeLeafAt? old edit newText offset = some result) :
    result.tree = (Parse.ofText old.config newText).tree := by
  obtain ⟨front, previous, target, target', after, previous', leaf⟩ :=
    exists_changedLeaf tree applies changed
  obtain ⟨form, leaves⟩ := leaf.cut.tree leaf.changeable leaf.breaks
  exact leaf.tree _ (tree ▸ form) leaves

end LosslessSyntax.Reparse
