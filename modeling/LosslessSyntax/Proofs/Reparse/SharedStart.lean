import LosslessSyntax.Proofs.Parse.Seams

/-! # Texts that begin alike

Two texts that are the same up to a seam, and go on there with tokens of the same kind, are parsed
alike up to the seam (`SharedStart.exists_seam`). From there on the parse of the new text is one of a
text of its own (`SharedStart.onward`).
-/

namespace LosslessSyntax.Reparse

open Lexeme Leaf Outline Grammar Lookahead Parse

/-- Two texts that are the same up to a seam of the old one, where a token of the same kind stands. -/
structure SharedStart (config : Config) (oldText newText : String) (front back back' : List Lexeme)
    (before after : List Outline) : Prop where
  seam : Seam config oldText front back before after
  lexemes : Parse.lexemes config newText = front ++ back'
  next : front = [] ∧ before = [] ∨ ∃ target rest target' rest', back = target :: rest ∧
    back' = target' :: rest' ∧ target.kind.isSignificant = true ∧ target'.kind = target.kind ∧
    (target.kind = .symbol → target'.chars = target.chars)

/-- Texts share their start if one more character stays the same behind the token at the seam. -/
theorem exists_sharedStart_of_chars {config : Config} {oldText newText : String}
    {front rest : List Lexeme} {target : Lexeme} {before after : List Outline}
    (seam : Seam config oldText front (target :: rest) before after)
    (significant : target.kind.isSignificant = true) {c : Char} {more more' : List Char}
    (old : charsOf rest = c :: more)
    (new : newText.toList = charsOf front ++ (target.chars ++ c :: more')) :
    ∃ back', SharedStart config oldText newText front (target :: rest) back' before after := by
  have known : target ∈ Parse.lexemes config oldText := by
    rw [seam.lexemes]
    exact List.mem_append_right front List.mem_cons_self
  obtain ⟨a, others, starts⟩ := List.exists_cons_of_ne_nil (chars_ne_nil target known)
  have follows : Follows (charsOf (target :: rest)) (target.chars ++ c :: more') := by
    rw [charsOf_cons, old, starts]
    refine ⟨rfl, fun _ => ?_⟩
    cases others <;> rfl
  have lexemes_eq : Parse.lexemes config newText =
      front ++ lexemes config.operatorLimit (target.chars ++ c :: more') := by
    rw [Parse.lexemes, new]
    exact lexemes_front seam.lexemes follows
  refine ⟨_, seam, lexemes_eq, .inr ⟨target, rest, ?_⟩⟩
  by_cases number : target.kind = .number
  · -- the number may go on otherwise, but it stays a number
    obtain ⟨target', rest', split⟩ : ∃ target' rest',
        lexemes config.operatorLimit (target.chars ++ c :: more') = target' :: rest' := by
      rw [starts, List.cons_append, lexemes_cons]
      exact ⟨_, _, rfl⟩
    have known' : target' ∈ lexemes config.operatorLimit (target.chars ++ c :: more') := by
      rw [split]
      exact List.mem_cons_self
    have text := charsOf_lexemes config.operatorLimit (target.chars ++ c :: more')
    obtain ⟨a', others', starts'⟩ := List.exists_cons_of_ne_nil (chars_ne_nil target' known')
    rw [split, charsOf_cons, starts, starts', List.cons_append, List.cons_append] at text
    have digit := (any_isDigit_head target known).mpr number
    rw [starts, ← (List.cons.inj text).1] at digit
    have number' := (any_isDigit_head target' known').mp (by rw [starts']; exact digit)
    refine ⟨target', rest', rfl, split, significant, number'.trans number.symm, fun symbol => ?_⟩
    rw [number] at symbol
    exact nomatch symbol
  · have split : lexemes config.operatorLimit (charsOf (target :: rest)) = target :: rest :=
      lexemes_back seam.lexemes
    refine ⟨target, _, rfl, lexemes_first split number ?_, significant, rfl, fun _ => rfl⟩
    rw [old]
    rfl

/-- The link of places before a token with themselves, and of places at the token. -/
def upToToken (place : Nat) : Link :=
  ⟨fun a b => a = b ∧ a.stop ≤ place ∨ a.start = place ∧ b.start = place, True⟩

/-- Reports that are not made at the token are the same in both texts. -/
theorem eq_of_upToToken {place : Nat} {log log' : List Diagnostic}
    (same : List.Forall₂ (SameReport (upToToken place)) log log')
    (apart : ∀ d ∈ log, d.span.start ≠ place) : log' = log ∧ ∀ d ∈ log, d.span.stop ≤ place := by
  induction same with
  | nil => exact ⟨rfl, fun _ member => nomatch member⟩
  | @cons d e log log' first _ ih =>
    obtain ⟨rfl, others⟩ := ih fun d member => apart d (List.mem_cons_of_mem _ member)
    obtain ⟨span, before⟩ := first.span.resolve_right fun here => apart d List.mem_cons_self here.1
    obtain rfl := first.eq_of_span span
    refine ⟨rfl, fun f member => ?_⟩
    rcases List.mem_cons.mp member with rfl | member
    · exact before
    · exact others f member

namespace SharedStart

variable {config : Config} {oldText newText : String} {front back back' : List Lexeme}
  {before after : List Outline}
  (start : SharedStart config oldText newText front back back' before after)
include start

/-- Where both texts are empty so far or go on with tokens of the same kind, the parses stand side by
side. -/
theorem abreast {target target' : Lexeme} {rest rest' : List Lexeme} (old : back = target :: rest)
    (new : back' = target' :: rest') (significant : target.kind.isSignificant = true)
    (kind : target'.kind = target.kind)
    (text : target.kind = .symbol → target'.chars = target.chars) :
    ∃ u u', Abreast (upToToken (Text.byteLength (charsOf front))) u u' (beginning config oldText)
        (beginning config newText) ∧
      u.length = total (leavesOf back) ∧ u'.length = total (leavesOf back') := by
  have place := Position.offset_after_start (charsOf front)
  have significant' : target'.kind.isSignificant = true := by rw [kind, significant]
  have whole {text : String} {back : List Lexeme} (split : Parse.lexemes config text = front ++ back) :
      (beginning config text).ahead = lookaheads false .start front ++
        lookaheads (breakAfter false (tokensAt .start front)) (Position.start.after (charsOf front))
          back := by
    have ahead : (beginning config text).ahead = lookaheads false .start (Parse.lexemes config text) :=
      (programStart_eq text.utf8ByteSize (Scanner.between_ofText text config.operatorLimit) rfl).1
    rw [ahead, split, lookaheads, tokensAt_append, ofTokens_append]
    rfl
  have first {target : Lexeme} {rest : List Lexeme} (significant : target.kind.isSignificant = true)
      (broken : Bool) (finish : Lookahead) :
      (lookaheads broken (Position.start.after (charsOf front)) (target :: rest)).headD finish =
        ⟨tokenAt (Position.start.after (charsOf front)) target, broken⟩ := by
    rw [lookaheads, tokensAt, ofTokens, if_pos (by exact significant), List.headD_cons]
  have inside : ∀ a ∈ lookaheads false .start front, a.kind ≠ .eof ∧
      a.token.start ≤ Text.byteLength (charsOf front) ∧
      a.token.stop ≤ Text.byteLength (charsOf front) := by
    intro a member
    have here := mem_tokensAt (fun lexeme member =>
      start.seam.solid lexeme (List.mem_append_left _ member)) (mem_ofTokens member).1
    have zero : Position.start.offset = 0 := rfl
    refine ⟨lookaheads_ne_eof (fun lexeme member => ?_) a member, by omega, by omega⟩
    refine kind_ne_eof lexeme (show lexeme ∈ Parse.lexemes config oldText from ?_)
    rw [start.seam.lexemes]
    exact List.mem_append_left _ member
  refine ⟨_, _, ⟨⟨lookaheads false .start front, lookaheads false .start front,
    whole start.seam.lexemes, whole start.lexemes,
    List.forall₂_same.mpr fun a member => ?_⟩, ?_, ?_, rfl, ?_, fun _ ends => ?_⟩,
    length_lookaheads .., length_lookaheads ..⟩
  · obtain ⟨kind, starts, stops⟩ := inside a member
    exact ⟨⟨⟨rfl, fun _ => rfl, rfl⟩, .inl ⟨rfl, stops⟩⟩, .inl ⟨rfl, stops⟩, kind⟩
  · rw [old, new, first significant, first significant']
    refine ⟨⟨kind.symm, fun symbol => ?_, rfl⟩, .inr ⟨place, place⟩⟩
    exact congrArg String.ofList (text symbol).symm
  · have filled {target : Lexeme} {rest : List Lexeme} (significant : target.kind.isSignificant = true)
        (broken : Bool) :
        lookaheads broken (Position.start.after (charsOf front)) (target :: rest) ≠ [] := by
      rw [lookaheads, tokensAt, ofTokens, if_pos (by exact significant)]
      exact List.cons_ne_nil _ _
    rw [old, new]
    exact iff_of_false (filled significant _) (filled significant' _)
  · change (upToToken _).span (.empty ((beginning config oldText).ahead.headD _).token.start)
      (.empty ((beginning config newText).ahead.headD _).token.start)
    rw [whole start.seam.lexemes, whole start.lexemes, old, new]
    cases passed : lookaheads false .start front with
    | nil =>
      rw [List.nil_append, List.nil_append, first significant, first significant']
      exact .inr ⟨place, place⟩
    | cons a others =>
      exact .inl ⟨rfl, (inside a (by rw [passed]; exact List.mem_cons_self)).2.1⟩
  · rw [old, first significant] at ends
    refine absurd ends (kind_ne_eof target (show target ∈ Parse.lexemes config oldText from ?_))
    rw [start.seam.lexemes, old]
    simp

/-- The new text has a seam where the texts cease to be the same, and the parses report the same up
to there. -/
theorem exists_seam : ∃ after', Seam config newText front back' before after' ∧
    Logged (upToToken (Text.byteLength (charsOf front))) (beginning config oldText)
      (beginning config newText) (upTo config oldText before.length)
      (upTo config newText before.length) := by
  rcases start.next with ⟨rfl, rfl⟩ | ⟨target, rest, target', rest', old, new, significant, kind, text⟩
  · obtain rfl : Parse.lexemes config newText = back' := start.lexemes
    exact ⟨_, .first config newText, .refl _ _⟩
  obtain ⟨u, u', abreast, length, length'⟩ := start.abreast old new significant kind text
  have stands := start.seam.stands.length
  rw [map_leaf_tokensAt] at stands
  obtain ⟨keeps, pieces⟩ := @keeps_statements config config.maxDepth _ _ _ _ _ abreast rfl
    before.length (Nat.le_of_eq (length.trans stands.symm))
  have left : (upTo config newText before.length).ahead.length = total (leavesOf back') := by
    obtain ⟨count, first, second⟩ := keeps.abreast.length_eq
    change (upTo config oldText before.length).ahead.length = _ at first
    change (upTo config newText before.length).ahead.length = _ at second
    omega
  have significant' : target'.leaf.isSignificant = true :=
    (congrArg TokenKind.isSignificant kind).trans significant
  have opens : Opens (leavesOf back') := by
    rw [new]
    exact opens_cons significant'
  have some : (upTo config newText before.length).ahead ≠ [] := by
    rw [← List.length_pos_iff, left, new,
      total_leavesOf_cons ((congrArg TokenKind.isSignificant kind).trans significant)]
    exact Nat.succ_pos _
  obtain ⟨after', seam, -⟩ := exists_seam_of_length start.lexemes opens some left
  have outline : (upTo config newText before.length).outline = before :=
    (State.outline_congr pieces).symm.trans start.seam.outline_before
  rw [outline] at seam
  exact ⟨after', seam, keeps.logged⟩

end SharedStart

end LosslessSyntax.Reparse
