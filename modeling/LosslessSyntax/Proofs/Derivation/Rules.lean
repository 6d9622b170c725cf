import LosslessSyntax.Proofs.Derivation.Phrase

/-! # How rules are put together

The ways in which the grammar makes rules of rules carry over what the rules accept: nodes, changed
contexts and loops. A list between brackets is the first use of them (`Accepts.delimited`).
-/

namespace LosslessSyntax.Grammar

open Phrase State Production

open scoped Computability

namespace Accepts

variable {table : OperatorTable} {form : List Phrase → Prop} {words words' : Language Symbol}
  {s s' s'' : State} {kind : NodeKind}

theorem isAtAny {kinds : KindSet} (here : s.isAtAny kinds = true)
    (inside : kinds.contains .eof = false) :
    Accepts table (Spells (tokenOf kinds)) s s.bump :=
  @bump _ _ _ (fun next => kinds.contains next.kind = true) (fun _ => here)
    (fun next member ends => by
      rw [ends, inside] at member
      exact absurd member Bool.false_ne_true)
    fun next member => ⟨next.kind, next.token.text, member, rfl⟩

theorem symbol {known : String → Bool} (here : s.isAt .symbol = true) (test : known s.text = true) :
    Accepts table (Spells (operator known)) s s.bump :=
  @bump _ _ _ (fun next => next.kind = .symbol ∧ known next.token.text = true)
    (fun _ => ⟨beq_iff_eq.mp here, test⟩) (fun next same ends => by
      rw [ends] at same
      exact absurd same.1 (by decide))
    fun next same => ⟨next.token.text, same.2, by rw [← same.1]; rfl⟩

theorem isAtSymbol {text : String} (here : s.isAtSymbol text = true) :
    Accepts table (Spells (operator (· == text))) s s.bump := by
  rw [State.isAtSymbol, Bool.and_eq_true] at here
  exact symbol here.1 here.2

theorem expect (kind : TokenKind) (inside : kind ≠ .eof) (s : State) :
    Accepts table (Spells (Production.token kind)) s (s.expect kind) := by
  rw [State.expect]
  split
  case isTrue here => exact token here inside
  case isFalse => exact of_reported (not_clean_missing _ s)

theorem maybe (accepts : Accepts table (Spells words) s s') :
    Accepts table (Spells (Production.optional words)) s s' := accepts.le le_add_self

theorem skip (s : State) : Accepts table (Spells (Production.optional words)) s s :=
  (refl s).le le_self_add

/-- A node around what has been read. -/
theorem closeNode (accepts : Accepts table form s.openNode s')
    (derived : ∀ children, (∀ child ∈ children, child.Derived table) → form children →
      (Phrase.node kind children).Derived table) :
    Accepts table (fun phrases => ∃ children, phrases = [.node kind children] ∧ form children) s
      (closeNode s kind s') := fun clean => by
  obtain ⟨before, reads⟩ := accepts ⟨clean.reports, clean.endReported⟩
  refine ⟨⟨before.reports, before.endReported⟩, fun finish => ?_⟩
  obtain ⟨children, read, within, here⟩ := reads finish
  refine ⟨_, read.closeNode kind, fun phrase member => ?_, children, rfl, here⟩
  rw [List.mem_singleton.mp member]
  exact derived children within here

theorem spells_node (children : List Phrase) : Spells (node [kind]) [.node kind children] :=
  ⟨kind, List.mem_singleton_self kind, rfl⟩

/-- Nodes without operators, in which nothing has to be kept apart, are derived if a production
allows their children. -/
theorem derived_of_plain
    (plain : separation? kind = .none ∧ kind ≠ .prefixExpr ∧ kind ≠ .binaryExpr)
    (allowed : words ≤ production table kind) {children : List Phrase}
    (within : ∀ child ∈ children, child.Derived table) (spells : Spells words children) :
    (Phrase.node kind children).Derived table :=
  .node (by rintro rfl; exact absurd plain.1 (by decide)) (allowed spells)
    (apart_of_none plain.1 children)
    (fun _ => by rw [tree_node]; exact .operand plain.2.1 plain.2.2) within

/-- Such a node around what has been read. -/
theorem node (accepts : Accepts table (Spells words) s.openNode s')
    (plain : separation? kind = .none ∧ kind ≠ .prefixExpr ∧ kind ≠ .binaryExpr)
    (allowed : words ≤ production table kind) :
    Accepts table (Spells (Production.node [kind])) s (State.closeNode s kind s') :=
  (accepts.closeNode fun _ within spells => derived_of_plain plain allowed within spells).mono
    fun phrases _ here => by
      obtain ⟨children, rfl, -⟩ := here
      exact spells_node children

/-- What a rule has read begins a node, of which the rest follows. -/
theorem wrap {kinds : List NodeKind} (first : Accepts table (Spells (Production.node kinds)) s s')
    (rest : Accepts table (Spells words) s'.precedeNode s'')
    (plain : separation? kind = .none ∧ kind ≠ .prefixExpr ∧ kind ≠ .binaryExpr)
    (allowed : Production.node kinds * words ≤ production table kind) :
    Accepts table (Spells (Production.node [kind])) s (closeWrap s' kind s'') := fun clean => by
  obtain ⟨between, rest⟩ := rest ⟨clean.reports, clean.endReported⟩
  obtain ⟨before, first⟩ := first ⟨between.reports, between.endReported⟩
  refine ⟨before, fun finish => ?_⟩
  obtain ⟨front, read, within, spells⟩ := first finish
  obtain ⟨back, read', within', spells'⟩ := rest (by
    rw [show s'.precedeNode.finish = s'.finish from rfl, read.finish, finish])
  obtain ⟨inner, -, children, rfl⟩ := spells.exists_node
  refine ⟨_, read.closeWrap read', fun phrase here => ?_, spells_node _⟩
  rw [List.mem_singleton.mp here]
  refine derived_of_plain plain allowed (fun child member => ?_) (spells.append spells')
  rcases List.mem_cons.mp member with rfl | member
  · exact within _ List.mem_cons_self
  · exact within' child member

theorem withBreaks {matter : Bool} (accepts : Accepts table form (s.pushBreaks matter) s') :
    Accepts table form s s'.popBreaks := fun clean => by
  obtain ⟨before, reads⟩ := accepts ⟨clean.reports, clean.endReported⟩
  refine ⟨⟨before.reports, before.endReported⟩, fun finish => ?_⟩
  obtain ⟨phrases, read, rest⟩ := reads finish
  exact ⟨phrases, read.popBreaks, rest⟩

theorem nested {body : State → State}
    (accepts : Accepts table form { s with depth := s.depth + 1 }
      (body { s with depth := s.depth + 1 })) :
    Accepts table form s (s.nested body) := fun clean => by
  obtain ⟨before, reads⟩ := accepts ⟨clean.reports, clean.endReported⟩
  refine ⟨⟨before.reports, before.endReported⟩, fun finish => ?_⟩
  obtain ⟨phrases, read, rest⟩ := reads finish
  exact ⟨phrases, read.of_context, rest⟩

theorem during {body : State → State} (phase : Phase)
    (accepts : Accepts table form { s with phases := phase :: s.phases }
      (body { s with phases := phase :: s.phases })) :
    Accepts table form s (s.during phase body) := fun clean => by
  obtain ⟨before, reads⟩ := accepts ⟨clean.reports, clean.endReported⟩
  refine ⟨⟨before.reports, before.endReported⟩, fun finish => ?_⟩
  obtain ⟨phrases, read, rest⟩ := reads finish
  exact ⟨phrases, read.of_context, rest⟩

/-- A test for the beginning of an element of a list is not met by the tokens that end the list. -/
def Starts (close : TokenKind) (starts : State → Bool) : Prop :=
  ∀ s, starts s = true → s.isAt close = false ∧
    (KindSet.ofList [close, .comma]).contains s.kind = false ∧ syncKinds.contains s.kind = false ∧
      Grammar.statementKinds.contains s.kind = false

/-- The words of a list up to an element, and up to a comma. -/
def listForm (element : Language Symbol) (starts : Bool) (phrases : List Phrase) : Prop :=
  Spells 1 phrases ∨ (Spells (element * (Production.token .comma * element)∗) phrases ∧
    starts = false) ∨
    Spells (element * (Production.token .comma * element)∗ * Production.token .comma) phrases

theorem commaSeparated_of_listForm {element : Language Symbol} {starts : Bool}
    {phrases : List Phrase} (form : listForm element starts phrases) :
    Spells (commaSeparated element) phrases := by
  have more : element * (Production.token .comma * element)∗ *
      Production.optional (Production.token .comma) ≤ commaSeparated element := le_add_self
  rcases form with empty | ⟨last, -⟩ | comma
  · exact empty.mono le_self_add
  · refine last.mono (le_trans ?_ more)
    exact le_trans (mul_one _).symm.le (mul_le_mul_right le_self_add _)
  · exact comma.mono (le_trans (mul_le_mul_right le_add_self _) more)

variable {element : KindSet → State → State} {starts : State → Bool} {close : TokenKind}

/-- An element after the words of a list up to its beginning. -/
theorem listForm_element {u : State}
    (list : Accepts table (listForm words true) s s') (next : Accepts table (Spells words) s' u) :
    Accepts table (Spells (words * (Production.token .comma * words)∗)) s u :=
  (list.trans next).mono fun phrases _ split => by
    obtain ⟨front, back, rfl, before, last⟩ := split
    rcases before with empty | ⟨-, other⟩ | comma
    · refine (empty.append last).mono ?_
      rw [one_mul]
      exact le_trans (mul_one _).symm.le (mul_le_mul_right one_le_kstar _)
    · exact absurd other.symm Bool.false_ne_true
    · refine (comma.append last).mono ?_
      rw [mul_assoc, mul_assoc]
      exact mul_le_mul_right kstar_mul_le_kstar _

theorem separator (start : Starts close starts)
    (list : Accepts table (Spells (words * (Production.token .comma * words)∗)) s s')
    (inside : s.breakModes.headD true = false) :
    let after := Grammar.separator close (.ofList [close, .comma]) s'
    Accepts table (listForm words (starts after)) s after := by
  intro after
  change Accepts table (listForm words (starts (Grammar.separator close _ s'))) s
    (Grammar.separator close _ s')
  rw [Grammar.separator]
  split
  case isTrue here =>
    exact (list.seq (token here (by decide))).mono fun _ _ spells => .inr (.inr spells)
  case isFalse =>
    split
    case isFalse => exact of_reported (not_clean_missing _ _)
    case isTrue ends =>
      refine list.mono fun phrases read spells => .inr (.inl ⟨spells, ?_⟩)
      refine Bool.eq_false_iff.mpr fun starts => ?_
      obtain ⟨other, listed, sync, statement⟩ := start s' starts
      rw [other, atSync, endsRecovery] at ends
      change (false || (_ || syncKinds.contains s'.kind || Grammar.statementKinds.contains s'.kind ||
        _)) = true at ends
      rw [sync, statement, read.breakModes, inside] at ends
      change (false || ((KindSet.ofList [close, .comma]).contains s'.kind || false || false ||
        _)) = true at ends
      rw [listed] at ends
      exact absurd ends Bool.false_ne_true

/-- Elements with commas between them are a list without gaps. -/
theorem commaList (what : String) (start : Starts close starts)
    (accepts : ∀ recovery s, starts s = true → Accepts table (Spells words) s (element recovery s))
    (inside : s.breakModes.headD true = false) :
    Accepts table (Spells (commaSeparated words)) s
      (Grammar.commaList close what starts element s) := by
  have runs (t : State) : Runs t (Grammar.separator close (.ofList [close, .comma]) t) :=
    Runs.of_coupled (Coupling.coupled_separator close _) t
  refine Accepts.mono (repeatStep_invariant
    (motive := fun t => Accepts table (listForm words (starts t)) s t) (fun t here => ?_) s
    ((refl s).mono fun _ _ spells => .inl spells)) fun _ _ form => commaSeparated_of_listForm form
  split
  case isTrue => exact here
  split
  case isTrue begins =>
    rw [begins] at here
    exact separator start (listForm_element here (accepts _ t begins)) inside
  split
  case isTrue =>
    exact of_reported fun clean => not_clean_unexpected what t (clean.of_runs (runs _))
  split
  case isTrue => exact here
  case isFalse =>
    exact of_reported fun clean => not_clean_recover what _ t (clean.of_runs (runs _))

/-- A list between brackets. -/
theorem delimited {opening : TokenKind} (what : String) (here : s.isAt opening = true)
    (other : opening ≠ .eof ∧ close ≠ .eof) (start : Starts close starts)
    (accepts : ∀ recovery s, starts s = true → Accepts table (Spells words) s (element recovery s))
    (plain : separation? kind = .none ∧ kind ≠ .prefixExpr ∧ kind ≠ .binaryExpr)
    (allowed : Production.token opening * commaSeparated words * Production.token close ≤
      production table kind) :
    Accepts table (Spells (Production.node [kind])) s
      (Grammar.delimited kind close what starts element s) :=
  node (((token (s := s.openNode) here other.1).seq
    (commaList what start accepts rfl).withBreaks).seq (expect close other.2 _)) plain allowed

end Accepts

end LosslessSyntax.Grammar
