import Mathlib.Data.List.TakeWhile
import LosslessSyntax.Proofs.Diagnostic.Merging
import LosslessSyntax.Proofs.Grammar.Markers
import LosslessSyntax.Proofs.Grammar.Steps
import LosslessSyntax.Proofs.Scanner.Lexemes
import LosslessSyntax.Proofs.Tree.Planting
import LosslessSyntax.Proofs.Tree.Replay
import LosslessSyntax.Parse

/-! # Parses of whole texts

A program is a run over the significant tokens among the lexemes that a scanner has ahead
(`programRun`). What a parse yields is said by this run and the lexemes: all of them if the run comes
to the end (`runProgram_of_ended`), else those before the token it stands at
(`runProgram_of_halted`).
-/

namespace LosslessSyntax

open Outline

namespace Lexeme

/-- A lexeme as a leaf. -/
def leaf (lexeme : Lexeme) : Leaf := (lexeme.kind, String.ofList lexeme.chars)

/-- The leaves of some lexemes. -/
def leavesOf (lexemes : List Lexeme) : List Leaf := lexemes.map leaf

theorem leavesOf_append (front back : List Lexeme) :
    leavesOf (front ++ back) = leavesOf front ++ leavesOf back := List.map_append

theorem total_leavesOf_cons {target : Lexeme} (significant : target.kind.isSignificant = true)
    (rest : List Lexeme) :
    Leaf.total (leavesOf (target :: rest)) = Leaf.total (leavesOf rest) + 1 :=
  List.countP_cons_of_pos (show target.leaf.isSignificant = true from significant)

/-- A cut of the leaves is a cut of the lexemes. -/
theorem leavesOf_cut {lexemes : List Lexeme} {front back : List Leaf} {leaf : Leaf}
    (split : leavesOf lexemes = front ++ leaf :: back) :
    ∃ before target after, lexemes = before ++ target :: after ∧ front = leavesOf before ∧
      leaf = target.leaf ∧ back = leavesOf after := by
  obtain ⟨before, rest, rfl, rfl, right⟩ := List.map_eq_append_iff.mp split
  obtain ⟨target, after, rfl, rfl, rfl⟩ := List.map_eq_cons_iff.mp right
  exact ⟨before, target, after, rfl, rfl, rfl, rfl⟩

theorem map_leaf_tokensAt (position : Position) (lexemes : List Lexeme) :
    (tokensAt position lexemes).map Token.leaf = leavesOf lexemes := by
  induction lexemes generalizing position with
  | nil => rfl
  | cons first rest ih => exact congrArg _ (ih (position.after first.chars))

theorem kind_mem_tokensAt {position : Position} {lexemes : List Lexeme} {token : Token}
    (member : token ∈ tokensAt position lexemes) : ∃ lexeme ∈ lexemes, token.kind = lexeme.kind := by
  induction lexemes generalizing position with
  | nil => exact nomatch member
  | cons first rest ih =>
    rcases List.mem_cons.mp member with rfl | member
    · exact ⟨first, List.mem_cons_self, rfl⟩
    · obtain ⟨lexeme, member, kind⟩ := ih member
      exact ⟨lexeme, List.mem_cons_of_mem first member, kind⟩

/-- A cut of the tokens is a cut of the lexemes. -/
theorem tokensAt_cut {position : Position} {lexemes : List Lexeme} {front back : List Token}
    {token : Token} (split : tokensAt position lexemes = front ++ token :: back) :
    ∃ before target after, lexemes = before ++ target :: after ∧
      front = tokensAt position before ∧
      token = tokenAt (position.after (charsOf before)) target ∧
      back = tokensAt ((position.after (charsOf before)).after target.chars) after := by
  induction lexemes generalizing position front with
  | nil => simp [tokensAt] at split
  | cons first rest ih =>
    cases front with
    | nil =>
      obtain ⟨rfl, rfl⟩ := List.cons.inj split
      exact ⟨[], first, rest, rfl, rfl, rfl, rfl⟩
    | cons other front =>
      obtain ⟨rfl, split'⟩ := List.cons.inj split
      obtain ⟨before, target, after, rfl, rfl, rfl, rfl⟩ := ih split'
      refine ⟨first :: before, target, after, rfl, rfl, ?_, ?_⟩
      · rw [charsOf_cons, Position.after_append]
      · rw [charsOf_cons, Position.after_append]

end Lexeme

namespace Lookahead

/-- Whether a line break comes before what follows some tokens. -/
def breakAfter (broken : Bool) : List Token → Bool
  | [] => broken
  | token :: rest =>
    breakAfter (if token.kind.isSignificant then false else broken || isBreak token) rest

theorem ofTokens_append (broken : Bool) (front back : List Token) :
    ofTokens broken (front ++ back) =
      ofTokens broken front ++ ofTokens (breakAfter broken front) back := by
  induction front generalizing broken with
  | nil => rfl
  | cons first front ih =>
    rw [List.cons_append, ofTokens, ofTokens, breakAfter, ih, ih]
    split <;> rfl

theorem mem_ofTokens {broken : Bool} {tokens : List Token} {a : Lookahead}
    (member : a ∈ ofTokens broken tokens) :
    a.token ∈ tokens ∧ a.token.kind.isSignificant = true := by
  induction tokens generalizing broken with
  | nil => exact nomatch member
  | cons first rest ih =>
    rw [ofTokens] at member
    split at member
    case isTrue significant =>
      rcases List.mem_cons.mp member with rfl | member
      · exact ⟨List.mem_cons_self, significant⟩
      · exact (ih member).imp_left (List.mem_cons_of_mem first)
    case isFalse => exact (ih member).imp_left (List.mem_cons_of_mem first)

/-- A cut of the significant tokens is a cut of all tokens. -/
theorem ofTokens_cut {broken : Bool} {tokens : List Token} {passed rest : List Lookahead}
    {a : Lookahead} (split : ofTokens broken tokens = passed ++ a :: rest) :
    ∃ front back, tokens = front ++ a.token :: back ∧ passed = ofTokens broken front ∧
      a = ⟨a.token, breakAfter broken front⟩ ∧ rest = ofTokens false back := by
  induction tokens generalizing broken passed with
  | nil => simp [ofTokens] at split
  | cons first others ih =>
    rw [ofTokens] at split
    split at split
    case isTrue significant =>
      cases passed with
      | nil =>
        obtain ⟨rfl, rfl⟩ := List.cons.inj split
        exact ⟨[], others, rfl, rfl, rfl, rfl⟩
      | cons other passed =>
        obtain ⟨rfl, split'⟩ := List.cons.inj split
        obtain ⟨front, back, rfl, rfl, same, rfl⟩ := ih split'
        refine ⟨first :: front, back, rfl, ?_, ?_, rfl⟩
        · rw [ofTokens, if_pos significant]
        · rw [breakAfter, if_pos significant]
          exact same
    case isFalse insignificant =>
      obtain ⟨front, back, rfl, rfl, same, rfl⟩ := ih split
      refine ⟨first :: front, back, rfl, ?_, ?_, rfl⟩
      · rw [ofTokens, if_neg insignificant]
      · rw [breakAfter, if_neg insignificant]
        exact same

theorem length_ofTokens (broken : Bool) (tokens : List Token) :
    (ofTokens broken tokens).length = Leaf.total (tokens.map Token.leaf) := by
  induction tokens generalizing broken with
  | nil => rfl
  | cons first rest ih =>
    rw [ofTokens, List.map_cons, Leaf.total, List.countP_cons]
    split
    case isTrue significant =>
      have here : first.leaf.isSignificant = true := significant
      rw [List.length_cons, ih, if_pos here]
      rfl
    case isFalse insignificant =>
      have here : ¬ first.leaf.isSignificant = true := insignificant
      rw [ih, if_neg here]
      rfl

end Lookahead

namespace Grammar

open State Lexeme Lookahead

/-- The significant tokens of lexemes from a place on. -/
def lookaheads (broken : Bool) (position : Position) (lexemes : List Lexeme) : List Lookahead :=
  ofTokens broken (tokensAt position lexemes)

theorem length_lookaheads (broken : Bool) (position : Position) (lexemes : List Lexeme) :
    (lookaheads broken position lexemes).length = Leaf.total (leavesOf lexemes) := by
  rw [lookaheads, length_ofTokens, map_leaf_tokensAt]

theorem tokensAt_ne_eof {position : Position} {lexemes : List Lexeme}
    (inside : ∀ lexeme ∈ lexemes, lexeme.kind ≠ .eof) :
    ∀ token ∈ tokensAt position lexemes, token.kind ≠ .eof := by
  intro token member
  obtain ⟨lexeme, member, kind⟩ := kind_mem_tokensAt member
  exact fun ends => inside lexeme member (kind.symm.trans ends)

theorem lookaheads_ne_eof {broken : Bool} {position : Position} {lexemes : List Lexeme}
    (inside : ∀ lexeme ∈ lexemes, lexeme.kind ≠ .eof) :
    ∀ a ∈ lookaheads broken position lexemes, a.kind ≠ .eof :=
  fun a member => tokensAt_ne_eof inside a.token (mem_ofTokens member).1

/-- A parse begins with the significant tokens of its source. -/
theorem initial_of_tokens {source : TokenSource} {tokens : List Token} {last : Token}
    (all : source.tokens = tokens ++ [last]) (inside : ∀ token ∈ tokens, token.kind ≠ .eof)
    (ends : last.kind = .eof) (length depth : Nat) :
    (State.initial source length depth).ahead = ofTokens false tokens ∧
      (State.initial source length depth).finish = ⟨last, breakAfter false tokens⟩ := by
  have significant : last.kind.isSignificant = true := by rw [ends]; rfl
  have split : ofTokens false source.tokens =
      ofTokens false tokens ++ [⟨last, breakAfter false tokens⟩] := by
    rw [all, ofTokens_append]
    simp only [ofTokens, significant, ↓reduceIte]
  have others : ∀ a ∈ ofTokens false tokens, a.kind ≠ .eof :=
    fun a member => inside a.token (mem_ofTokens member).1
  have kept : (ofTokens false tokens).filter (·.kind != .eof) = ofTokens false tokens :=
    List.filter_eq_self.mpr fun a member => bne_iff_ne.mpr (others a member)
  have none : (ofTokens false tokens).find? (·.kind == .eof) = none :=
    List.find?_eq_none.mpr fun a member => by simpa using others a member
  have kind : (⟨last, breakAfter false tokens⟩ : Lookahead).kind = .eof := ends
  simp only [State.initial, split, List.filter_append, kept, List.find?_append, none]
  simp [kind]

section Program

variable (config : Config) (halts : Nat → Bool) (length : Nat) {s : Scanner}

/-- The state before the first token that a scanner has ahead. -/
def programStart (length : Nat) (s : Scanner) : State :=
  (State.initial (.onDemand s) length 0).openNode

/-- Where the statements of a program end. -/
def endsProgram (s : State) : Bool := s.atEnd || halts s.current.token.start

/-- The state after the statements of a program. -/
def programRun (s : Scanner) : State :=
  items config config.maxDepth (endsProgram halts) (programStart length s)

theorem endsProgram_of_atEnd (s : State) (atEnd : s.atEnd = true) : endsProgram halts s = true := by
  rw [endsProgram, atEnd, Bool.true_or]

/-- The end of the text as the grammar sees it. -/
def ending (s : Scanner) : Lookahead :=
  ⟨⟨.eof, "", s.position.after (charsOf s.ahead)⟩,
    breakAfter false (tokensAt s.position s.ahead)⟩

theorem start_ending (s : Scanner) :
    (ending s).token.start = s.position.offset + Text.byteLength s.rest := by
  change (s.position.after (charsOf s.ahead)).offset = _
  rw [Position.offset_after, Scanner.ahead, charsOf_lexemes]

theorem start_ending_ofText (text : String) (limit : Nat) :
    (ending (.ofText text limit)).token.start = text.utf8ByteSize := by
  rw [start_ending, ← Text.byteLength_toList]
  exact Nat.zero_add _

theorem programStart_eq (between : s.Between) (fresh : s.diagnostics = .empty) :
    (programStart length s).ahead = lookaheads false s.position s.ahead ∧
      (programStart length s).finish = ending s ∧
      (programStart length s).reports = .empty ∧
      (programStart length s).pieces = [] ∧
      (programStart length s).endReported =
        (Diagnostics.ofList (faultsAt s.position s.ahead)).items.any fun d =>
          d.kind == .incomplete && d.span.stop == length := by
  obtain ⟨tokens, faults⟩ := between.drain
  obtain ⟨ahead, finish⟩ := @initial_of_tokens (.onDemand s) _ _ tokens
    (tokensAt_ne_eof kind_ne_eof) rfl length 0
  refine ⟨ahead, finish, rfl, rfl, ?_⟩
  simp only [programStart, openNode, State.initial, TokenSource.diagnostics, faults, fresh]
  rfl

theorem proper_programStart (between : s.Between) (fresh : s.diagnostics = .empty) :
    (programStart length s).Proper := by
  obtain ⟨ahead, finish, -⟩ := programStart_eq length between fresh
  refine ⟨by rw [finish]; rfl, ?_⟩
  rw [ahead]
  exact lookaheads_ne_eof kind_ne_eof

theorem runs_programRun (between : s.Between) (fresh : s.diagnostics = .empty) :
    Runs (programStart length s) (programRun config halts length s) :=
  runs_items (proper_programStart length between fresh) (endsProgram_of_atEnd halts)

theorem ordered_programRun (between : s.Between) (fresh : s.diagnostics = .empty) :
    (programRun config halts length s).reports.Ordered := by
  obtain ⟨log, made⟩ := exists_log_items config config.maxDepth
    (proper_programStart length between fresh) (endsProgram_of_atEnd halts)
  rw [programRun, made, (programStart_eq length between fresh).2.2.1]
  exact Diagnostics.ordered_ofList log

variable {config halts length}

/-- What a parse writes are the events of what it reads. -/
theorem events_program :
    (program config halts (State.initial (.onDemand s) length 0)).record.events.toList =
      Shape.eventsOfAll [.node .root (programRun config halts length s).pieces.reverse] :=
  events_runProgram config length (.onDemand s) halts

/-- A parse that comes to the end takes all tokens. -/
theorem runProgram_of_ended (between : s.Between) (fresh : s.diagnostics = .empty)
    (ended : (programRun config halts length s).atEnd = true) :
    let outcome := runProgram config halts length (.onDemand s)
    outcome.haltedAt = none ∧
    Tree.ofEvents outcome.tokens outcome.events =
      .node .root (plant (leavesOf s.ahead) (programRun config halts length s).outline) ∧
    outcome.diagnostics = (programRun config halts length s).reports.extend
      (faultsAt s.position s.ahead) := by
  obtain ⟨tokens, faults⟩ := between.drain
  have finished : (program config halts (State.initial (.onDemand s) length 0)).atEnd = true := ended
  have reports := ordered_programRun config halts length between fresh
  have noEnd : ∀ token ∈ tokensAt s.position s.ahead, token.kind ≠ .eof := tokensAt_ne_eof kind_ne_eof
  rw [runProgram, finished]
  refine ⟨rfl, ?_, ?_⟩
  · have whole : (s.drain.1.takeWhile fun _ => true) = s.drain.1 :=
      List.takeWhile_eq_self_iff.mpr fun _ _ => rfl
    rw [Outcome.ofState, events_program]
    change Tree.ofEvents (s.drain.1.takeWhile fun _ => true) (Shape.eventsOfAll
      [.node .root (programRun config halts length s).pieces.reverse]) = _
    rw [whole, tokens, Tree.ofEvents_node _ _ noEnd (by simp), map_leaf_tokensAt]
    rfl
  · have whole : (s.drain.2.diagnostics.items.filter fun _ => true) = s.drain.2.diagnostics.items :=
      List.filter_eq_self.mpr fun _ _ => rfl
    change (programRun config halts length s).reports.extend
      (s.drain.2.diagnostics.items.filter fun _ => true) = _
    rw [whole, faults, fresh]
    exact Diagnostics.extend_items_ofList reports _

/-- Of what is read up to the token at which a parse halts, only what comes before it is kept. -/
theorem kept_readThrough (between : s.Between) (fresh : s.diagnostics = .empty)
    {before after : List Lexeme} {target : Lexeme} (lexemes : s.ahead = before ++ target :: after)
    (significant : target.kind.isSignificant = true) {offset : Nat}
    (place : offset = (s.position.after (charsOf before)).offset) :
    (TokenSource.readThrough offset (s.rest.length + 1) s).1.takeWhile
        (fun token => decide (token.start < offset)) = tokensAt s.position before ∧
      (TokenSource.readThrough offset (s.rest.length + 1) s).2.diagnostics.items.filter
        (fun d => decide (d.span.start < offset)) =
      (Diagnostics.ofList (faultsAt s.position before)).items := by
  obtain ⟨taken, faults⟩ := between.readThrough lexemes significant place
    (Nat.lt_succ_of_le (length_lexemes_le ..))
  have solid : ∀ lexeme ∈ before ++ [target], lexeme.chars ≠ [] := by
    refine fun lexeme member => chars_ne_nil lexeme (show lexeme ∈ s.ahead from ?_)
    rw [lexemes, ← List.singleton_append, ← List.append_assoc]
    exact List.mem_append_left after member
  refine ⟨?_, ?_⟩
  · rw [taken]
    exact takeWhile_tokensAt (fun lexeme member => solid lexeme (List.mem_append_left _ member))
      place [] (Nat.le_of_eq place)
  · have single : faultAt (s.position.after (charsOf before)) target =
        faultsAt (s.position.after (charsOf before)) [target] := (List.append_nil _).symm
    have filtered := Diagnostics.ofList_filter (fun span => decide (span.start < offset))
      (faultsAt s.position before ++ faultAt (s.position.after (charsOf before)) target)
    rw [single, filter_faultsAt solid place, ← single] at filtered
    rw [faults, fresh]
    exact filtered

/-- A parse that halts takes the tokens before the one it stands at. -/
theorem runProgram_of_halted (between : s.Between) (fresh : s.diagnostics = .empty)
    (halted : (programRun config halts length s).atEnd = false) :
    ∃ before target after, s.ahead = before ++ target :: after ∧
      target.kind.isSignificant = true ∧
      (programRun config halts length s).ahead =
        ⟨tokenAt (s.position.after (charsOf before)) target,
            breakAfter false (tokensAt s.position before)⟩ ::
          lookaheads false (s.position.after (charsOf (before ++ [target]))) after ∧
      let outcome := runProgram config halts length (.onDemand s)
      outcome.haltedAt = some (s.position.after (charsOf before)).offset ∧
      Tree.ofEvents outcome.tokens outcome.events =
        .node .root (plant (leavesOf before) (programRun config halts length s).outline) ∧
      outcome.diagnostics = (programRun config halts length s).reports.extend
        (faultsAt s.position before) := by
  have run := runs_programRun config halts length between fresh
  have proper := (proper_programStart length between fresh).of_runs run
  have left : (programRun config halts length s).ahead ≠ [] := fun none => by
    rw [proper.atEnd_iff.mpr none] at halted
    exact nomatch halted
  obtain ⟨next, rest, ahead, -⟩ := ahead_cons_of_inside left
  obtain ⟨passed, split, -⟩ := run.passed
  rw [(programStart_eq length between fresh).1, ahead] at split
  obtain ⟨front, back, tokens, -, next_eq, rest_eq⟩ := ofTokens_cut split
  obtain ⟨before, target, after, lexemes, rfl, token, rfl⟩ := tokensAt_cut tokens
  have significant : target.kind.isSignificant = true := by
    have member : next ∈ lookaheads false s.position s.ahead := by
      rw [split]
      exact List.mem_append_right passed List.mem_cons_self
    have here := (mem_ofTokens member).2
    rwa [token] at here
  have noEnd : ∀ token ∈ tokensAt s.position before, token.kind ≠ .eof := by
    refine tokensAt_ne_eof fun lexeme member => kind_ne_eof lexeme (show lexeme ∈ s.ahead from ?_)
    rw [lexemes]
    exact List.mem_append_left _ member
  refine ⟨before, target, after, lexemes, significant, ?_, ?_⟩
  · rw [ahead, next_eq, token, rest_eq, charsOf_append, Position.after_append, charsOf_cons,
      charsOf_nil, List.append_nil]
    rfl
  have place : (programRun config halts length s).current.token.start =
      (s.position.after (charsOf before)).offset := by
    rw [current_of_ahead ahead, token]
    rfl
  have unfinished : (program config halts (State.initial (.onDemand s) length 0)).atEnd = false :=
    halted
  have place' : (program config halts (State.initial (.onDemand s) length 0)).current.token.start =
      (s.position.after (charsOf before)).offset := place
  obtain ⟨cut, kept⟩ := kept_readThrough between fresh lexemes significant rfl
  have outcome : runProgram config halts length (.onDemand s) =
      ⟨Shape.eventsOfAll [.node .root (programRun config halts length s).pieces.reverse],
        tokensAt s.position before, (programRun config halts length s).reports.extend
          (Diagnostics.ofList (faultsAt s.position before)).items,
        some (s.position.after (charsOf before)).offset, false⟩ := by
    rw [runProgram, unfinished, place', if_neg Bool.false_ne_true, ← cut, ← kept]
    simp only [Outcome.ofState, unfinished, events_program]
    rfl
  rw [outcome]
  refine ⟨rfl, ?_, ?_⟩
  · have noTokens : ∀ token ∈ ([] : List Token), token.kind = .eof := by simp
    have planted := Tree.ofEvents_node .root (programRun config halts length s).pieces.reverse noEnd
      noTokens
    rwa [List.append_nil, map_leaf_tokensAt] at planted
  · exact Diagnostics.extend_items_ofList (ordered_programRun config halts length between fresh) _

end Program

end Grammar

end LosslessSyntax
