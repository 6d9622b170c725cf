import LosslessSyntax.Proofs.Derivation.Clean
import LosslessSyntax.Proofs.Grammar.Alike
import LosslessSyntax.Proofs.Grammar.ObliviousRules
import LosslessSyntax.Proofs.Grammar.Onward

/-! # Texts with other whitespace in one place

Two texts that differ in some whitespace have the same significant tokens, and line breaks precede
the same of them, but for the first one behind that whitespace (`respaced_lookaheads`). If nothing is
reported for the first text and a line break is not heeded there, nothing is reported for the second
one either, and both are grouped in the same way (`Parse.respaced_run`).
-/

namespace LosslessSyntax

open Lexeme Lookahead Outline

namespace Lookahead

theorem isBreak_of_leaf {a b : Token} (same : a.leaf = b.leaf) : isBreak a = isBreak b := by
  obtain ⟨kind, text⟩ := Prod.mk.inj same
  rw [isBreak, isBreak, kind, text]

/-- Whether a line break comes before what follows some tokens does not depend on what is before
them, if one of them is significant. -/
theorem breakAfter_of_leaves {tokens tokens' : List Token} {broken broken' : Bool}
    (same : tokens.map Token.leaf = tokens'.map Token.leaf)
    (flag : broken = broken' ∨ 0 < Leaf.total (tokens.map Token.leaf)) :
    breakAfter broken tokens = breakAfter broken' tokens' := by
  induction tokens generalizing tokens' broken broken' with
  | nil =>
    rw [List.map_eq_nil_iff.mp same.symm]
    exact flag.resolve_right (Nat.lt_irrefl 0)
  | cons first rest ih =>
    obtain ⟨first', rest', rfl, here, others⟩ := List.map_eq_cons_iff.mp same.symm
    have kind : first'.kind = first.kind := congrArg Prod.fst here
    rw [breakAfter, breakAfter, kind, isBreak_of_leaf here]
    refine ih others.symm ?_
    rw [List.map_cons, Leaf.total, List.countP_cons] at flag
    split
    case isTrue => exact .inl rfl
    case isFalse insignificant =>
      have other : ¬ first.leaf.isSignificant = true := insignificant
      rw [if_neg other] at flag
      exact flag.imp_left fun same => by rw [same]

end Lookahead

namespace Grammar

variable {heeded : List Bool}

namespace Respaced

theorem append {front front' back back' : List Lookahead} (first : Respaced heeded front front')
    (second : Respaced (heeded.drop front.length) back back') :
    Respaced heeded (front ++ back) (front' ++ back') := by
  induction first with
  | nil => exact second
  | cons kind text heeds _ ih =>
    refine .cons kind text heeds (ih ?_)
    rwa [List.length_cons, ← List.drop_tail] at second

/-- The significant ones among equal tokens, where a line break may come before the first one. -/
theorem of_leaves {tokens tokens' : List Token} {broken broken' : Bool}
    (same : tokens.map Token.leaf = tokens'.map Token.leaf)
    (flag : heeded.headD false = true → broken = broken') :
    Respaced heeded (ofTokens broken tokens) (ofTokens broken' tokens') := by
  induction tokens generalizing tokens' broken broken' heeded with
  | nil =>
    rw [List.map_eq_nil_iff.mp same.symm]
    exact .nil heeded
  | cons first rest ih =>
    obtain ⟨first', rest', rfl, here, others⟩ := List.map_eq_cons_iff.mp same.symm
    obtain ⟨kind, text⟩ := Prod.mk.inj here
    rw [ofTokens, ofTokens, kind, isBreak_of_leaf here]
    split
    case isTrue => exact .cons kind.symm text.symm flag (ih others.symm fun _ => rfl)
    case isFalse => exact ih others.symm fun heeds => by rw [flag heeds]

end Respaced

variable {position : Position} {front back : List Lexeme} {blank blank' : Lexeme}

theorem lookaheads_blank (white : blank.kind = .whitespace) (broken : Bool) :
    ∃ place broken', lookaheads broken position (front ++ blank :: back) =
        lookaheads broken position front ++ ofTokens broken' (tokensAt place back) ∧
      breakAfter broken (tokensAt position (front ++ blank :: back)) =
        breakAfter broken' (tokensAt place back) := by
  have other : ¬ (tokenAt (position.after (charsOf front)) blank).kind.isSignificant = true := by
    change ¬ blank.kind.isSignificant = true
    rw [white]
    decide
  refine ⟨(position.after (charsOf front)).after blank.chars,
    breakAfter broken (tokensAt position front) ||
      isBreak (tokenAt (position.after (charsOf front)) blank), ?_, ?_⟩
  · rw [lookaheads, tokensAt_append, ofTokens_append, tokensAt, ofTokens, if_neg other]
    rfl
  · rw [tokensAt_append, breakAfter_append, tokensAt, breakAfter, if_neg other]

/-- Tokens with other whitespace before one that is not heeded. -/
theorem respaced_lookaheads (white : blank.kind = .whitespace) (white' : blank'.kind = .whitespace)
    (unheeded : heeded[Leaf.total (leavesOf front)]? = some false)
    (behind : 0 < Leaf.total (leavesOf back)) (broken : Bool) :
    Respaced heeded (lookaheads broken position (front ++ blank :: back))
        (lookaheads broken position (front ++ blank' :: back)) ∧
      breakAfter broken (tokensAt position (front ++ blank :: back)) =
        breakAfter broken (tokensAt position (front ++ blank' :: back)) := by
  obtain ⟨place, flag, split, after⟩ := @lookaheads_blank position front back _ white broken
  obtain ⟨place', flag', split', after'⟩ := @lookaheads_blank position front back _ white' broken
  have same : (tokensAt place back).map Token.leaf = (tokensAt place' back).map Token.leaf := by
    rw [map_leaf_tokensAt, map_leaf_tokensAt]
  constructor
  · rw [split, split']
    refine .append (.of_leaves rfl fun _ => rfl) (.of_leaves same fun heeds => ?_)
    rw [length_lookaheads, List.headD_eq_head?_getD, List.head?_drop, unheeded] at heeds
    exact absurd heeds Bool.false_ne_true
  · rw [after, after']
    exact breakAfter_of_leaves same (.inr (by rwa [map_leaf_tokensAt]))

end Grammar

namespace Parse

open Grammar

variable {config : Config} {text text' : String} {front back : List Lexeme} {blank blank' : Lexeme}
  {heeded : List Bool}

/-- Parses of texts with other whitespace in one place begin with respaced tokens. -/
theorem respaced_beginning (split : lexemes config text = front ++ blank :: back)
    (split' : lexemes config text' = front ++ blank' :: back)
    (white : blank.kind = .whitespace) (white' : blank'.kind = .whitespace)
    (sound : ∀ lexeme ∈ front ++ blank :: back, lexeme.fault? = none)
    (sound' : blank'.fault? = none)
    (unheeded : heeded[Leaf.total (leavesOf front)]? = some false)
    (behind : 0 < Leaf.total (leavesOf back)) :
    (beginning config text).Respaced heeded (beginning config text') ∧
      faultsAt .start (lexemes config text') = [] := by
  have faults : faultsAt .start (lexemes config text) = [] := by
    rw [split]
    exact faultsAt_eq_nil.mpr sound
  have faults' : faultsAt .start (lexemes config text') = [] := by
    rw [split']
    refine faultsAt_eq_nil.mpr fun lexeme member => ?_
    rcases List.mem_append.mp member with member | member
    · exact sound lexeme (List.mem_append_left _ member)
    · rcases List.mem_cons.mp member with rfl | member
      · exact sound'
      · exact sound lexeme (List.mem_append_right _ (List.mem_cons_of_mem _ member))
  obtain ⟨ahead, finish, -⟩ := programStart_eq text.utf8ByteSize
    (Scanner.between_ofText text config.operatorLimit) rfl
  obtain ⟨ahead', finish', -⟩ := programStart_eq text'.utf8ByteSize
    (Scanner.between_ofText text' config.operatorLimit) rfl
  obtain ⟨tokens, flag⟩ := @respaced_lookaheads _ .start front back _ _ white white' unheeded behind
    false
  rw [← split, ← split'] at tokens flag
  refine ⟨⟨?_, ?_, rfl, ?_, ?_, rfl⟩, faults'⟩
  · rw [beginning, beginning, ahead, ahead']
    exact tokens
  · rw [beginning, beginning, finish, finish']
    exact ⟨rfl, fun _ => rfl, flag⟩
  · rw [reports_beginning, reports_beginning]
  · rw [endReported_beginning, endReported_beginning, faults, faults']
    rfl

/-- If nothing is reported for a text, line breaks that are not heeded may be anywhere. -/
theorem respaced_run (clean : (run config text).Clean)
    (respaced : (beginning config text).Respaced (heededAll (run config text).outline ++ [true])
      (beginning config text')) : (run config text).Respaced [true] (run config text') := by
  have rule : Oblivious true (items config config.maxDepth (endsProgram fun _ => false)) :=
    .items (.block config config.maxDepth) tested_endsProgram
  obtain ⟨heeded, outline, -, same⟩ := rule.same (beginning config text) rfl clean
  have start : (beginning config text).outline = [] := rfl
  rw [start, heededAll_nil, List.nil_append] at outline
  change heededAll (run config text).outline = heeded at outline
  have all : weigh true heeded = heeded := List.map_id heeded
  rw [outline] at respaced
  exact (same (beginning config text') [true] (fun _ => rfl) (by rwa [all])).2

end Parse

end LosslessSyntax
