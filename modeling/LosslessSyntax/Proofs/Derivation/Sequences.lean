import LosslessSyntax.Proofs.Derivation.Constructs

/-! # Sequences of statements and members

A node over statements or members is read by a loop that goes on wherever one of them begins. It
keeps them apart because what has been read ends where no other one begins on the same line
(`Sequence`). A phrase begins where the rule that read it began, since no derived phrase below the
root is without tokens (`Phrase.Derived.tokens_ne_nil`).
-/

namespace LosslessSyntax

open Phrase Production

open scoped Computability

namespace Production

/-- No word of a language is empty. -/
def Solid (words : Language Symbol) : Prop := ∀ word ∈ words, word ≠ []

theorem Solid.mul {first : Language Symbol} (solid : Solid first) (rest : Language Symbol) :
    Solid (first * rest) := by
  rintro _ ⟨front, member, back, -, rfl⟩
  exact List.append_ne_nil_of_left_ne_nil (solid front member) back

theorem Solid.mul_left {rest : Language Symbol} (solid : Solid rest) (first : Language Symbol) :
    Solid (first * rest) := by
  rintro _ ⟨front, -, back, member, rfl⟩
  exact List.append_ne_nil_of_right_ne_nil front (solid back member)

theorem Solid.add {first second : Language Symbol} (solid : Solid first) (solid' : Solid second) :
    Solid (first + second) := by
  rintro word (member | member)
  · exact solid word member
  · exact solid' word member

theorem solid_token (kind : TokenKind) : Solid (token kind) := by
  rintro _ ⟨text, rfl⟩
  exact List.cons_ne_nil _ _

theorem solid_tokenOf (kinds : KindSet) : Solid (tokenOf kinds) := by
  rintro _ ⟨kind, text, -, rfl⟩
  exact List.cons_ne_nil _ _

theorem solid_operator (known : String → Bool) : Solid (operator known) := by
  rintro _ ⟨text, -, rfl⟩
  exact List.cons_ne_nil _ _

theorem solid_node (kinds : List NodeKind) : Solid (node kinds) := by
  rintro _ ⟨kind, member, rfl⟩
  exact List.cons_ne_nil _ _

theorem solid_annotated (keyword : TokenKind) (rest : Language Symbol) :
    Solid (annotated keyword rest) := ((solid_token keyword).mul rest).mul_left _

/-- No production but that of the root derives a node without children. -/
theorem solid_production (table : OperatorTable) {kind : NodeKind} (inner : kind ≠ .root) :
    Solid (production table kind) := by
  cases kind
  case root => exact absurd rfl inner
  case error => exact fun word member => absurd member (Language.notMem_zero word)
  case literal => exact solid_tokenOf _
  case modifiedType => exact (solid_tokenOf _).mul _
  case prefixExpr => exact (solid_operator _).mul _
  case exprStmt => exact (solid_node _).mul_left _
  case binaryExpr | callExpr | indexExpr | memberExpr | castExpr | arrayType =>
    exact (solid_node _).mul _
  case namedType => exact (solid_token _).add ((solid_token _).mul _)
  case nameRef => exact solid_token _
  case typeList =>
    exact (((solid_token _).mul _).mul _).add (((solid_operator _).mul _).mul _)
  case usingStmt | letStmt | ifStmt | whileStmt | loopStmt | forStmt | breakStmt | continueStmt
      | returnStmt | functionDecl | packDecl | unionDecl =>
    exact solid_annotated _ _
  case annotationArgs | paramList | packBody | unionBody | block | arrayExpr | tupleExpr | parenExpr
      | argList =>
    exact ((solid_token _).mul _).mul _
  all_goals exact (solid_token _).mul _

end Production

namespace Phrase

/-- Every derived phrase has a token. -/
theorem Derived.tokens_ne_nil {table : OperatorTable} {phrase : Phrase}
    (derived : phrase.Derived table) : phrase.tokens ≠ [] := by
  induction derived with
  | token next => simp
  | @node kind children inner derives apart operation within ih =>
    obtain ⟨child, others, rfl⟩ := List.exists_cons_of_ne_nil fun none =>
      solid_production table inner _ derives (List.map_eq_nil_iff.mpr none)
    rw [tokens_node, tokensAll_cons]
    exact List.append_ne_nil_of_left_ne_nil (ih child List.mem_cons_self) _

/-- No node of a derived phrase is empty. -/
theorem Derived.solid {table : OperatorTable} {phrase : Phrase} (derived : phrase.Derived table) :
    phrase.outline.Solid := by
  induction derived with
  | token next =>
    rw [outline_token]
    exact .token
  | @node kind children inner derives apart operation within ih =>
    rw [outline_node, outlineAll_eq]
    refine .node (fun none => ?_) fun outline member => ?_
    · exact solid_production table inner _ derives
        (List.map_eq_nil_iff.mpr (List.map_eq_nil_iff.mp none))
    · obtain ⟨child, within, rfl⟩ := List.mem_map.mp member
      exact ih child within

end Phrase

namespace Grammar

open State

variable {table : OperatorTable} {s s' t t' : State}

/-- A line break lies before a phrase if it does before the token with which it begins. -/
theorem Reads.afterBreak_eq {phrase : Phrase} {more : List Phrase}
    (read : Reads s s' (phrase :: more)) (derived : phrase.Derived table) :
    phrase.afterBreak = s.current.afterBreak := by
  obtain ⟨first, rest, tokens⟩ := List.exists_cons_of_ne_nil derived.tokens_ne_nil
  have ahead : s.ahead = first :: (rest ++ tokensAll more ++ s'.ahead) := by
    rw [read.ahead, tokensAll_cons, tokens]
    simp
  rw [current_of_ahead ahead, Phrase.afterBreak, tokens]
  rfl

/-- What has been read is a sequence of words in which nodes of some kinds are kept apart, also from
one that might begin at the current token. -/
structure Sequence (kinds : List NodeKind) (words : Language Symbol) (begins : State → Bool)
    (s : State) (phrases : List Phrase) : Prop where
  spells : Spells (words∗) phrases
  apart : phrases.IsChain (Beside kinds)
  last : ∀ last ∈ phrases.getLast?, last.symbol ∈ kinds.map Symbol.node → begins s = true →
    s.current.afterBreak = true

/-- What a rule reads as the next word of such a sequence. -/
structure Part (kinds : List NodeKind) (words : Language Symbol) (begins : State → Bool)
    (s s' : State) (phrases : List Phrase) : Prop where
  some : phrases ≠ []
  spells : Spells words phrases
  apart : phrases.IsChain (Beside kinds)
  first : ∀ first ∈ phrases.head?, first.symbol ∈ kinds.map Symbol.node → begins s = true
  last : ∀ last ∈ phrases.getLast?, last.symbol ∈ kinds.map Symbol.node → begins s' = true →
    s'.current.afterBreak = true

theorem Sequence.nil (kinds : List NodeKind) (words : Language Symbol) (begins : State → Bool)
    (s : State) : Sequence kinds words begins s [] where
  spells := Language.nil_mem_kstar words
  apart := .nil
  last := fun _ member => absurd member.symm (Option.some_ne_none _)

variable {kinds : List NodeKind} {words : Language Symbol} {begins : State → Bool}

theorem Accepts.sequence
    (front : Accepts table (Sequence kinds words begins t) s t)
    (part : Accepts table (Part kinds words begins t t') t t') :
    Accepts table (Sequence kinds words begins t') s t' := fun clean => by
  obtain ⟨between, part⟩ := part clean
  obtain ⟨before, front⟩ := front between
  refine ⟨before, fun finish => ?_⟩
  obtain ⟨phrases, read, derived, sequence⟩ := front finish
  obtain ⟨more, read', derived', part⟩ := part (by rw [read.finish, finish])
  obtain ⟨here, rest, rfl⟩ := List.exists_cons_of_ne_nil part.some
  refine ⟨_, read.trans read', fun phrase member => ?_, ?_, ?_, ?_⟩
  · exact (List.mem_append.mp member).elim (derived phrase) (derived' phrase)
  · exact (sequence.spells.append part.spells).mono kstar_mul_le_kstar
  · refine List.isChain_append.mpr ⟨sequence.apart, part.apart, fun last isLast first isFirst => ?_⟩
    obtain rfl := Option.some.inj isFirst
    intro held held'
    rw [read'.afterBreak_eq (derived' _ List.mem_cons_self)]
    exact sequence.last last isLast held (part.first _ rfl held')
  · rw [List.getLast?_append_of_ne_nil _ (List.cons_ne_nil here rest)]
    exact part.last

theorem Spells.exists_token {kind : TokenKind} {phrases : List Phrase}
    (spells : Spells (token kind) phrases) : ∃ next : Lookahead, phrases = [.token next] := by
  obtain ⟨text, spelled⟩ := spells
  obtain ⟨phrase, rfl, symbol⟩ := List.map_eq_singleton_iff.mp spelled
  cases phrase with
  | token next => exact ⟨next, rfl⟩
  | node inner children => exact Symbol.noConfusion symbol

theorem beside_token_left (next : Lookahead) (second : Phrase) :
    Beside kinds (.token next) second := fun held => by
  obtain ⟨kind, -, symbol⟩ := List.mem_map.mp held
  exact Symbol.noConfusion symbol

theorem beside_token_right (first : Phrase) (next : Lookahead) :
    Beside kinds first (.token next) := fun _ held => by
  obtain ⟨kind, -, symbol⟩ := List.mem_map.mp held
  exact Symbol.noConfusion symbol

/-- Nodes whose children are a sequence between two tokens are derived. -/
theorem derived_of_sequence {kind : NodeKind} {mark : TokenKind}
    (held : separation? kind = Option.some (kinds, mark))
    (plain : kind ≠ .root ∧ kind ≠ .prefixExpr ∧ kind ≠ .binaryExpr) {children : List Phrase}
    (allowed : Spells (production table kind) children) (apart : children.IsChain (Beside kinds))
    (within : ∀ child ∈ children, child.Derived table) : (Phrase.node kind children).Derived table := by
  refine .node plain.1 allowed (fun kinds' mark' held' => ?_) (fun _ => ?_) within
  · obtain ⟨rfl, -⟩ := Prod.mk.inj (Option.some.inj (held.symm.trans held'))
    exact apart
  · rw [tree_node]
    exact .operand plain.2.1 plain.2.2

/-- A sequence between braces, with the node around it. -/
theorem Accepts.braced {kind : NodeKind} {mark : TokenKind}
    (here : s.isAt .leftBrace = true)
    (held : separation? kind = Option.some (kinds, mark))
    (plain : kind ≠ .root ∧ kind ≠ .prefixExpr ∧ kind ≠ .binaryExpr)
    (allowed : Production.braced (words∗) ≤ production table kind)
    (sequence : Accepts table (fun phrases => ∃ begins u, Sequence kinds words begins u phrases)
      s.openNode.bump t) :
    Accepts table (Spells (Production.node [kind])) s
      (State.closeNode s kind (t.expect .rightBrace)) := by
  have opened : Accepts table (Spells (Production.token .leftBrace)) s.openNode s.openNode.bump :=
    .token here (by decide)
  have whole := (opened.trans sequence).trans (.expect .rightBrace (by decide) t)
  refine (whole.closeNode fun children within split => ?_).mono fun phrases _ form => ?_
  · obtain ⟨-, closing, rfl, ⟨opening, items, rfl, first, _, _, sequence⟩, last⟩ := split
    refine derived_of_sequence held plain (((first.append sequence.spells).append last).mono allowed)
      ?_ within
    obtain ⟨brace, rfl⟩ := first.exists_token
    obtain ⟨brace', rfl⟩ := last.exists_token
    rw [List.isChain_append, List.singleton_append, List.isChain_cons]
    exact ⟨⟨fun second _ => beside_token_left brace second, sequence.apart⟩, .singleton _,
      fun first _ second isFirst => Option.some.inj isFirst ▸ beside_token_right first brace'⟩
  · obtain ⟨children, rfl, -⟩ := form
    exact Accepts.spells_node children

end Grammar

end LosslessSyntax
