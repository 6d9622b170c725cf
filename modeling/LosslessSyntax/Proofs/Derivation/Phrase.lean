import LosslessSyntax.Proofs.Derivation.Operation
import LosslessSyntax.Proofs.Derivation.Production
import LosslessSyntax.Proofs.Grammar.Items
import Mathlib.Data.List.Chain

/-! # Phrases

A phrase is what a rule has read: tokens, and nodes over them, without what lies between the tokens
of the text. It is derived if each of its nodes has the children that the productions allow, keeps
apart what has to be kept apart, and holds its operands as the operators ask (`Phrase.Derived`).

`Accepts` is the law of rules: if nothing has been reported when a rule ends, nothing had been
reported when it began, and it has read derived phrases of a given form. Rules that report are
thereby out of the question (`Accepts.of_reported`), and rules that follow each other read forms that
follow each other (`Accepts.trans`).
-/

namespace LosslessSyntax

open Production

/-- What a rule reads. -/
inductive Phrase where
  /-- A token. -/
  | token (next : Lookahead)
  /-- A node with its children. -/
  | node (kind : NodeKind) (children : List Phrase)

namespace Phrase

mutual
/-- The tokens of a phrase. -/
def tokens : Phrase → List Lookahead
  | .token next => [next]
  | .node _ children => tokensAll children
/-- The tokens of phrases that follow each other. -/
def tokensAll : List Phrase → List Lookahead
  | [] => []
  | first :: rest => first.tokens ++ tokensAll rest
end

mutual
/-- How the tokens of a phrase are grouped. -/
def outline : Phrase → Outline
  | .token _ => .token
  | .node kind children => .node kind (outlineAll children)
/-- How the tokens of phrases that follow each other are grouped. -/
def outlineAll : List Phrase → List Outline
  | [] => []
  | first :: rest => first.outline :: outlineAll rest
end

mutual
/-- The tree of a phrase. -/
def tree : Phrase → Tree
  | .token next => .leaf next.kind next.token.text
  | .node kind children => .node kind (treeAll children)
/-- The trees of phrases that follow each other. -/
def treeAll : List Phrase → List Tree
  | [] => []
  | first :: rest => first.tree :: treeAll rest
end

/-- What a production sees of a phrase. -/
def symbol : Phrase → Symbol
  | .token next => .token next.kind next.token.text
  | .node kind _ => .node kind

/-- Whether a line break lies before a phrase. -/
def afterBreak (phrase : Phrase) : Bool := phrase.tokens.head?.any (·.afterBreak)

@[simp] theorem tokens_token (next : Lookahead) : (token next).tokens = [next] := by rw [tokens]

@[simp] theorem tokens_node (kind : NodeKind) (children : List Phrase) :
    (node kind children).tokens = tokensAll children := by rw [tokens]

@[simp] theorem tokensAll_nil : tokensAll [] = [] := by rw [tokensAll]

@[simp] theorem tokensAll_cons (first : Phrase) (rest : List Phrase) :
    tokensAll (first :: rest) = first.tokens ++ tokensAll rest := by rw [tokensAll]

@[simp] theorem tokensAll_append (front back : List Phrase) :
    tokensAll (front ++ back) = tokensAll front ++ tokensAll back := by
  induction front with
  | nil => simp
  | cons first rest ih => simp [ih]

@[simp] theorem outline_token (next : Lookahead) : (token next).outline = .token := by rw [outline]

@[simp] theorem outline_node (kind : NodeKind) (children : List Phrase) :
    (node kind children).outline = .node kind (outlineAll children) := by rw [outline]

@[simp] theorem outlineAll_nil : outlineAll [] = [] := by rw [outlineAll]

@[simp] theorem outlineAll_cons (first : Phrase) (rest : List Phrase) :
    outlineAll (first :: rest) = first.outline :: outlineAll rest := by rw [outlineAll]

@[simp] theorem outlineAll_append (front back : List Phrase) :
    outlineAll (front ++ back) = outlineAll front ++ outlineAll back := by
  induction front with
  | nil => simp
  | cons first rest ih => simp [ih]

theorem outlineAll_eq (phrases : List Phrase) : outlineAll phrases = phrases.map outline := by
  induction phrases with
  | nil => simp
  | cons first rest ih => simp [ih]

@[simp] theorem tree_token (next : Lookahead) :
    (token next).tree = .leaf next.kind next.token.text := by rw [tree]

@[simp] theorem tree_node (kind : NodeKind) (children : List Phrase) :
    (node kind children).tree = .node kind (treeAll children) := by rw [tree]

@[simp] theorem treeAll_nil : treeAll [] = [] := by rw [treeAll]

@[simp] theorem treeAll_cons (first : Phrase) (rest : List Phrase) :
    treeAll (first :: rest) = first.tree :: treeAll rest := by rw [treeAll]

/-- Of two phrases that follow each other, a line break lies between them if they are nodes of some
kinds. -/
def Beside (kinds : List NodeKind) (first second : Phrase) : Prop :=
  first.symbol ∈ kinds.map Symbol.node → second.symbol ∈ kinds.map Symbol.node →
    second.afterBreak = true

/-- Phrases that are kept apart from each other, where the node asks for it. -/
def Apart (kind : NodeKind) (children : List Phrase) : Prop :=
  ∀ kinds mark, separation? kind = some (kinds, mark) → children.IsChain (Beside kinds)

theorem apart_of_none {kind : NodeKind} (none : separation? kind = none) (children : List Phrase) :
    Apart kind children := fun kinds mark some => by
  rw [none] at some
  exact absurd some.symm (Option.some_ne_none _)

/-- A phrase that the grammar derives below the root. -/
inductive Derived (table : OperatorTable) : Phrase → Prop where
  | token (next : Lookahead) : Derived table (.token next)
  | node {kind : NodeKind} {children : List Phrase} (inner : kind ≠ .root)
      (derives : children.map symbol ∈ production table kind) (apart : Apart kind children)
      (operation : kind ∈ expressionKinds → Operation table (tree (.node kind children)))
      (within : ∀ child ∈ children, Derived table child) : Derived table (.node kind children)

end Phrase

namespace Grammar

open Phrase State

/-- Nothing has been reported so far. -/
structure State.Clean (s : State) : Prop where
  reports : s.reports.items = []
  endReported : s.endReported = false

theorem State.Clean.of_runs {s s' : State} (clean : s'.Clean) (run : Runs s s') : s.Clean where
  reports := List.eq_nil_iff_forall_not_mem.mpr fun d member =>
    List.not_mem_nil (clean.reports ▸ run.kept d member)
  endReported := by
    rcases run.ended with same | ⟨⟨d, member, -⟩, -⟩
    · exact same.symm.trans clean.endReported
    · exact absurd (clean.reports ▸ member) List.not_mem_nil

/-- Phrases are read from the tokens ahead. -/
structure Reads (s s' : State) (phrases : List Phrase) : Prop where
  ahead : s.ahead = tokensAll phrases ++ s'.ahead
  outline : s'.outline = s.outline ++ outlineAll phrases
  finish : s'.finish = s.finish
  breakModes : s'.breakModes = s.breakModes

namespace Reads

variable {s s' s'' : State} {front back : List Phrase}

theorem refl (s : State) : Reads s s [] where
  ahead := by simp
  outline := by simp
  finish := rfl
  breakModes := rfl

theorem trans (first : Reads s s' front) (second : Reads s' s'' back) :
    Reads s s'' (front ++ back) where
  ahead := by rw [first.ahead, second.ahead, tokensAll_append, List.append_assoc]
  outline := by rw [second.outline, first.outline, outlineAll_append, List.append_assoc]
  finish := second.finish.trans first.finish
  breakModes := second.breakModes.trans first.breakModes

theorem bump {next : Lookahead} {rest : List Lookahead} (ahead : s.ahead = next :: rest) :
    Reads s s.bump [.token next] where
  ahead := by rw [ahead_bump, ahead]; simp
  outline := by rw [outline_bump, if_neg (by rw [ahead]; exact List.cons_ne_nil _ _)]; simp
  finish := by rw [State.bump, ahead]
  breakModes := by rw [State.bump, ahead]

theorem closeNode (kind : NodeKind) (inner : Reads s.openNode s' front) :
    Reads s (State.closeNode s kind s') [.node kind front] where
  ahead := by
    rw [tokensAll_cons, tokensAll_nil, tokens_node, List.append_nil]
    exact inner.ahead
  outline := by rw [outline_closeNode, inner.outline, outline_openNode]; simp
  finish := inner.finish
  breakModes := inner.breakModes

/-- A node around the phrase that was read last. -/
theorem closeWrap {kind inside : NodeKind} {children : List Phrase}
    (first : Reads s s' [.node inside children]) (inner : Reads s'.precedeNode s'' back) :
    Reads s (State.closeWrap s' kind s'') [.node kind (.node inside children :: back)] where
  ahead := by
    rw [ahead_closeWrap, first.ahead, show s'.ahead = s'.precedeNode.ahead from rfl, inner.ahead]
    simp
  outline := by
    rw [outline_closeWrap, first.outline, outlineAll_cons, outlineAll_nil, outline_node,
      Outline.wrapLast_concat, inner.outline, outline_precedeNode]
    simp [Outline.wrapLast]
  finish := inner.finish.trans first.finish
  breakModes := inner.breakModes.trans first.breakModes

theorem popBreaks {matter : Bool} (inner : Reads (s.pushBreaks matter) s' front) :
    Reads s s'.popBreaks front where
  ahead := inner.ahead
  outline := inner.outline
  finish := inner.finish
  breakModes := congrArg List.tail inner.breakModes

/-- How deeply a state is nested and what is being read there makes no difference. -/
theorem of_context {depth depth' : Nat} {phases phases' : List Phase}
    (inner : Reads { s with depth := depth, phases := phases } s' front) :
    Reads s { s' with depth := depth', phases := phases' } front :=
  ⟨inner.ahead, inner.outline, inner.finish, inner.breakModes⟩

end Reads

/-- If nothing has been reported after a run, nothing had been reported before it, and it has read
derived phrases of a form. -/
def Accepts (table : OperatorTable) (form : List Phrase → Prop) (s s' : State) : Prop :=
  s'.Clean → s.Clean ∧ (s.finish.kind = .eof →
    ∃ phrases, Reads s s' phrases ∧ (∀ phrase ∈ phrases, phrase.Derived table) ∧ form phrases)

/-- Phrases that spell a word of a language. -/
def Spells (words : Language Symbol) (phrases : List Phrase) : Prop := phrases.map symbol ∈ words

theorem Spells.mono {words words' : Language Symbol} {phrases : List Phrase}
    (spells : Spells words phrases) (weaker : words ≤ words') : Spells words' phrases :=
  weaker spells

theorem Spells.append {words words' : Language Symbol} {front back : List Phrase}
    (first : Spells words front) (second : Spells words' back) :
    Spells (words * words') (front ++ back) := by
  rw [Spells, List.map_append]
  exact Language.append_mem_mul first second

theorem Spells.exists_node {kinds : List NodeKind} {phrases : List Phrase}
    (spells : Spells (Production.node kinds) phrases) :
    ∃ kind ∈ kinds, ∃ children, phrases = [.node kind children] := by
  obtain ⟨kind, member, spelled⟩ := spells
  obtain ⟨phrase, rfl, symbol⟩ := List.map_eq_singleton_iff.mp spelled
  cases phrase with
  | token next => exact Symbol.noConfusion symbol
  | node inner children => exact ⟨kind, member, children, by rw [Symbol.node.inj symbol]⟩

namespace Accepts

variable {table : OperatorTable} {form form' : List Phrase → Prop} {words words' : Language Symbol}
  {s s' s'' : State}

theorem mono (accepts : Accepts table form s s')
    (weaker : ∀ phrases, Reads s s' phrases → form phrases → form' phrases) :
    Accepts table form' s s' := fun clean => by
  obtain ⟨before, reads⟩ := accepts clean
  refine ⟨before, fun finish => ?_⟩
  obtain ⟨phrases, read, derived, here⟩ := reads finish
  exact ⟨phrases, read, derived, weaker phrases read here⟩

theorem trans (first : Accepts table form s s') (second : Accepts table form' s' s'') :
    Accepts table (fun phrases => ∃ front back, phrases = front ++ back ∧ form front ∧ form' back)
      s s'' := fun clean => by
  obtain ⟨between, second⟩ := second clean
  obtain ⟨before, first⟩ := first between
  refine ⟨before, fun finish => ?_⟩
  obtain ⟨front, read, derived, here⟩ := first finish
  obtain ⟨back, read', derived', here'⟩ := second (by rw [read.finish, finish])
  refine ⟨_, read.trans read', fun phrase member => ?_, front, back, rfl, here, here'⟩
  rcases List.mem_append.mp member with member | member
  · exact derived phrase member
  · exact derived' phrase member

/-- Rules that follow each other read words that follow each other. -/
theorem seq (first : Accepts table (Spells words) s s') (second : Accepts table (Spells words') s' s'') :
    Accepts table (Spells (words * words')) s s'' :=
  (first.trans second).mono fun phrases _ split => by
    obtain ⟨front, back, rfl, first, second⟩ := split
    exact first.append second

theorem le (accepts : Accepts table (Spells words) s s') (weaker : words ≤ words') :
    Accepts table (Spells words') s s' := accepts.mono fun _ _ spells => weaker spells

theorem refl (s : State) : Accepts table (Spells 1) s s := fun clean =>
  ⟨clean, fun _ => ⟨[], .refl s, fun _ member => absurd member List.not_mem_nil, rfl⟩⟩

/-- A rule that has reported something is out of the question. -/
theorem of_reported (reported : ¬ s'.Clean) : Accepts table form s s' := fun clean =>
  absurd clean reported

theorem not_clean_unexpected (expected : String) (s : State) : ¬ (s.unexpected expected).Clean := by
  intro clean
  have before := clean.of_runs (Runs.unexpected expected s)
  rw [unexpected, report, before.endReported, Bool.and_false, if_neg Bool.false_ne_true] at clean
  obtain ⟨d, member, -⟩ := Diagnostics.exists_mem_push s.reports
    (.error (if s.atEnd then .unexpectedEnd else .unexpectedToken)
      (expectation expected s.kind) s.current.token.span)
  exact absurd (clean.reports ▸ member) List.not_mem_nil

theorem not_clean_report {code : DiagnosticCode} {message : String} {span : Span}
    (inside : s.atEnd = false) : ¬ (s.report code message span).Clean := by
  intro clean
  rw [report, inside, Bool.false_and, if_neg Bool.false_ne_true] at clean
  obtain ⟨d, member, -⟩ := Diagnostics.exists_mem_push s.reports (.error code message span)
  exact absurd (clean.reports ▸ member) List.not_mem_nil

theorem not_clean_missing (expected : String) (s : State) : ¬ (s.missing expected).Clean := by
  rw [missing]
  split
  · exact not_clean_unexpected expected s
  case isFalse inside => exact not_clean_report (Bool.eq_false_iff.mpr inside)

theorem not_clean_recover (expected : String) (recovery : KindSet) (s : State) :
    ¬ (s.recover expected recovery).Clean := by
  intro clean
  rw [recover] at clean
  split at clean
  · exact not_clean_unexpected expected s clean
  · refine not_clean_unexpected expected s (clean.of_runs ?_)
    exact Runs.of_coupled (.node .error (by decide) (.during .recovering (.skipToSync recovery))) _

theorem not_clean_placeholder (expected : String) (s : State) :
    ¬ (s.placeholder expected).Clean := fun clean =>
  not_clean_unexpected expected s
    (clean.of_runs (Runs.of_coupled (.node .error (by decide) .id) _))

theorem not_clean_absent (expected : String) (recovery : KindSet) (s : State) :
    ¬ (s.absent expected recovery).Clean := by
  rw [absent]
  split
  · exact not_clean_placeholder expected s
  · exact not_clean_recover expected recovery s

theorem not_clean_recoverTooDeep (limit : Nat) (s : State) :
    ¬ (s.recoverTooDeep limit).Clean := by
  rw [recoverTooDeep]
  split
  · exact not_clean_unexpected "nested construct" s
  case isFalse inside =>
    let reported := s.report .nestingTooDeep (depthMessage limit) s.current.token.span
    have run : Runs reported (reported.node .error <| during .recovering fun state =>
        state.bumpMany (deepLength (state.endsRecovery .empty) 0 false state.ahead)) :=
      .closeNode .error (.of_context (Runs.of_coupled (.bumpMany _) _))
    exact fun clean => not_clean_report (Bool.eq_false_iff.mpr inside) (clean.of_runs run)

theorem bump {test : Lookahead → Prop} (here : s.finish.kind = .eof → test s.current)
    (inside : ∀ next, test next → next.kind ≠ .eof)
    (spells : ∀ next, test next → Spells words [.token next]) :
    Accepts table (Spells words) s s.bump := fun clean => by
  refine ⟨clean.of_runs (Runs.bump s), fun finish => ?_⟩
  cases ahead : s.ahead with
  | nil =>
    have ended : s.current = s.finish := by rw [current, ahead, List.headD_nil]
    exact absurd finish (ended ▸ inside _ (here finish))
  | cons next rest =>
    have now := here finish
    rw [current_of_ahead ahead] at now
    refine ⟨_, .bump ahead, fun phrase member => ?_, spells next now⟩
    rw [List.mem_singleton.mp member]
    exact .token next

/-- The current token is read. -/
theorem token {kind : TokenKind} (here : s.isAt kind = true) (inside : kind ≠ .eof) :
    Accepts table (Spells (Production.token kind)) s s.bump :=
  @bump _ _ _ (fun next => next.kind = kind) (fun _ => beq_iff_eq.mp here)
    (fun _ same => same ▸ inside) fun next same => ⟨next.token.text, by rw [← same]; rfl⟩

end Accepts

end Grammar

end LosslessSyntax
