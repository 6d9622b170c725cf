import LosslessSyntax.Proofs.Derivation.Rules

/-! # Expressions and types are derived

What the rules for types read are types, whatever the rule for the constructs inside them reads as
types and expressions (`Inner`). An expression is read so that the operators in it hold their
operands as they should (`expressionForm`): the operand that has been read is held on its right edge
tighter than the operator ahead would hold it, and an expression only ends before an operator that is
weaker than the power that was asked for (`completeForm`). By induction on the levels of nesting that
are left, this is what the grammar reads (`inner_construct`).
-/

namespace LosslessSyntax.Grammar

open Phrase State Production

open scoped Computability

/-- The powers of the binary operator ahead. -/
def operatorAhead? (table : OperatorTable) (s : State) : Option BindingPower :=
  if s.isAt .symbol && !s.atBreak then table.binaryPower? s.text else none

/-- One expression, of which the left edge is held with at least the given power, and the right edge
tighter than the operator ahead would hold it. -/
def expressionForm (table : OperatorTable) (least : Nat) (s : State) (phrases : List Phrase) : Prop :=
  ∃ phrase, phrases = [phrase] ∧ Spells expression [phrase] ∧
    (∀ inner ∈ phrase.tree.leftPowers table, least ≤ inner) ∧
    ∀ power, operatorAhead? table s = some power →
      ∀ inner ∈ phrase.tree.rightPowers table, power.left < inner

/-- Such an expression, before an operator that is weaker than the given power. -/
def completeForm (table : OperatorTable) (least : Nat) (s : State) (phrases : List Phrase) : Prop :=
  expressionForm table least s phrases ∧
    ∀ power, operatorAhead? table s = some power → power.left < least

/-- What a rule for constructs has to read. -/
structure Inner (table : OperatorTable) (inner : ConstructRule) : Prop where
  type (recovery : KindSet) (s : State) :
    Accepts table (Spells type) s (inner (.type recovery) s)
  expr (least : Nat) (recovery : KindSet) (s : State) :
    let s' := inner (.expr least recovery) s
    Accepts table (completeForm table least s') s s'

theorem node_le {kinds kinds' : List NodeKind} (subset : ∀ kind ∈ kinds, kind ∈ kinds') :
    Production.node kinds ≤ Production.node kinds' := fun _ spelled => by
  obtain ⟨kind, member, rfl⟩ := spelled
  exact ⟨kind, subset kind member, rfl⟩

theorem starts_of_kinds {close : TokenKind} {starts : State → Bool} (kinds : List TokenKind)
    (among : ∀ s, starts s = true → s.kind ∈ kinds)
    (other : ∀ kind ∈ kinds, (kind == close) = false ∧
      (KindSet.ofList [close, .comma]).contains kind = false ∧ syncKinds.contains kind = false ∧
        Grammar.statementKinds.contains kind = false) : Accepts.Starts close starts :=
  fun s begins => other s.kind (among s begins)

theorem starts_type : Accepts.Starts .rightParen atTypeStart :=
  starts_of_kinds Grammar.typeKinds.members (fun _ here => List.contains_iff_mem.mp here)
    (by decide)

theorem mem_of_atExprStart {config : Config} {s : State} (here : atExprStart config s = true) :
    s.kind ∈ literalKinds.members ++ [.ident, .leftParen, .leftBracket, .symbol] := by
  simp only [atExprStart, Bool.or_eq_true, Bool.and_eq_true, isAt, beq_iff_eq] at here
  rw [List.mem_append]
  rcases here with (((literal | same) | same) | same) | ⟨same, -⟩
  · exact .inl (List.contains_iff_mem.mp literal)
  all_goals exact .inr (by rw [same]; decide)

theorem starts_expr (config : Config) {close : TokenKind}
    (other : close = .rightParen ∨ close = .rightBracket) :
    Accepts.Starts close (atExprStart config) := by
  refine starts_of_kinds _ (fun _ => mem_of_atExprStart) ?_
  rcases other with rfl | rfl <;> decide

theorem binaryOperators_eq (config : Config) (inner : ConstructRule) (least : Nat)
    (recovery : KindSet) :
    binaryOperators config inner least recovery =
      repeatStep (binaryStep config inner least recovery) := rfl

theorem binaryStep_cases (config : Config) (inner : ConstructRule) (least : Nat)
    (recovery : KindSet) (s : State) :
    (binaryStep config inner least recovery s = (false, s) ∧
      ∀ power, operatorAhead? config.operators s = some power → power.left < least) ∨
    ∃ power, operatorAhead? config.operators s = some power ∧ least ≤ power.left ∧
      binaryStep config inner least recovery s =
        (true, s.wrap .binaryExpr fun s => inner (.expr power.right recovery) s.bump) := by
  rw [binaryStep, operatorAhead?]
  split
  case isFalse => exact .inl ⟨rfl, fun power some => absurd some.symm (Option.some_ne_none power)⟩
  case isTrue =>
    cases config.operators.binaryPower? s.text with
    | none => exact .inl ⟨rfl, fun power some => absurd some.symm (Option.some_ne_none power)⟩
    | some power =>
      dsimp only
      split
      case isTrue weak =>
        exact .inl ⟨rfl, fun found same => Option.some.inj same ▸ weak⟩
      case isFalse strong => exact .inr ⟨power, rfl, Nat.le_of_not_lt strong, rfl⟩

theorem elements_of_comma {inner : ConstructRule} {s : State} (here : s.isAt .comma = true) :
    s.repeatStep (elementStep inner) =
      if s.bump.isAt .rightParen then s.bump
      else
        let next := inner (.expr 0 (.ofList [.rightParen, .comma])) s.bump
        if next.ahead.length < s.ahead.length then next.repeatStep (elementStep inner) else next := by
  rw [repeatStep]
  simp only [elementStep, here, if_true]
  by_cases closes : s.bump.isAt .rightParen = true
  · simp only [closes, if_true, Bool.false_eq_true, false_and, if_false]
  · simp only [closes, Bool.false_eq_true, if_false, true_and]

theorem insideParens_eq (inner : ConstructRule) (s : State) :
    Coupling.insideParens inner s =
      if s.isAt .rightParen then (.tupleExpr, s)
      else
        let first := inner (.expr 0 (.ofList [.rightParen, .comma])) s
        (if first.isAt .comma then .tupleExpr else .parenExpr,
          first.repeatStep (elementStep inner)) := rfl

namespace Inner

variable {config : Config} {inner : ConstructRule} {table : OperatorTable} {s t : State}
  (reads : Inner table inner)
include reads

theorem expression (least : Nat) (recovery : KindSet) (s : State) :
    Accepts table (Spells expression) s (inner (.expr least recovery) s) :=
  (reads.expr least recovery s).mono fun _ _ form => by
    obtain ⟨⟨phrase, rfl, spells, -⟩, -⟩ := form
    exact spells

theorem typeList (here : s.isAt .leftParen = true) :
    Accepts table (Spells (node [.typeList])) s (Grammar.typeList inner s) :=
  .delimited "type" here (by decide) starts_type (fun recovery s _ => reads.type recovery s)
    (by decide) le_self_add

omit reads in
theorem nextArgument {base : State} (list : Accepts table (Spells (Production.type *
    (Production.token .comma * Production.type)∗)) base t) :
    ((Grammar.nextArgument t).1 = true →
      Accepts table (Accepts.listForm Production.type true) base (Grammar.nextArgument t).2) ∧
    Accepts table (Spells (commaSeparated Production.type)) base (Grammar.nextArgument t).2 := by
  rw [Grammar.nextArgument]
  split
  case isTrue here =>
    have comma := list.seq (.token here (by decide))
    exact ⟨fun _ => comma.mono fun _ _ spells => .inr (.inr spells),
      comma.mono fun _ _ spells => Accepts.commaSeparated_of_listForm
        (show Accepts.listForm Production.type true _ from .inr (.inr spells))⟩
  case isFalse =>
    exact ⟨fun asked => absurd asked Bool.false_ne_true, list.mono fun _ _ spells =>
      Accepts.commaSeparated_of_listForm (.inr (.inl ⟨spells, rfl⟩))⟩

theorem argumentStep {base : State}
    (list : Accepts table (Accepts.listForm Production.type true) base t) :
    ((Grammar.argumentStep inner t).1 = true →
      Accepts table (Accepts.listForm Production.type true) base (Grammar.argumentStep inner t).2) ∧
    Accepts table (Spells (commaSeparated Production.type)) base
      (Grammar.argumentStep inner t).2 := by
  have stays : ((false, t).1 = true → Accepts table (Accepts.listForm Production.type true) base t) ∧
      Accepts table (Spells (commaSeparated Production.type)) base t :=
    ⟨fun _ => list, list.mono fun _ _ form => Accepts.commaSeparated_of_listForm form⟩
  rw [Grammar.argumentStep]
  split
  case isTrue => exact stays
  split
  case isTrue => exact nextArgument (Accepts.listForm_element list (reads.type _ t))
  split
  case isTrue => exact stays
  case isFalse => exact nextArgument (.of_reported (Accepts.not_clean_recover _ _ t))

theorem typeArguments (here : s.isAtSymbol "<" = true) :
    Accepts table (Spells (node [.typeList])) s (Grammar.typeArguments inner s) := by
  have inside : Accepts table (Spells (commaSeparated Production.type))
      (s.openNode.bump.pushBreaks false)
      (repeatStep (Grammar.argumentStep inner) (s.openNode.bump.pushBreaks false)) :=
    repeatStep_induction
      (motive := fun t => Accepts table (Accepts.listForm Production.type true) _ t)
      (fun t list asked _ => (reads.argumentStep list).1 asked)
      (fun t list _ => (reads.argumentStep list).2) _
      ((Accepts.refl _).mono fun _ _ spells => .inl spells)
  have opened := (Accepts.isAtSymbol (s := s.openNode) here).seq inside.withBreaks
  rw [typeArguments_eq]
  refine Accepts.node (opened.seq ?_) (by decide) le_add_self
  dsimp only
  split
  case isTrue closes => exact .isAtSymbol closes
  case isFalse => exact .of_reported (Accepts.not_clean_missing _ _)

theorem namedType (here : s.isAt .ident = true ∨ s.isAt .baseType = true) :
    Accepts table (Spells (node [.namedType])) s (Grammar.namedType inner s) := by
  rw [Grammar.namedType]
  rcases here with here | here
  · have arguments (generic : Bool) (t : State) : Accepts table (Spells (optional (node [.typeList])))
        t (if generic && t.isAtSymbol "<" then Grammar.typeArguments inner t else t) := by
      split
      case isTrue opens => exact .maybe (reads.typeArguments (Bool.and_eq_true_iff.mp opens).2)
      case isFalse => exact .skip t
    exact Accepts.node ((Accepts.token (s := s.openNode) here (by decide)).seq (arguments _ _))
      (by decide) le_add_self
  · have other : s.isAt .ident = false := by
      rw [isAt, beq_iff_eq] at here
      rw [isAt, here]
      rfl
    simp only [other, Bool.false_and, Bool.false_eq_true, if_false]
    exact Accepts.node (.token (s := s.openNode) here (by decide)) (by decide) le_self_add

theorem funcType (here : s.isAt .funcWord = true) :
    Accepts table (Spells (node [.funcType])) s (Grammar.funcType inner s) := by
  have result (t : State) : Accepts table
      (Spells (optional (Production.token .arrow * (node [.typeList] + Production.type)))) t
      (if t.isAt .arrow && !t.atBreak then
        if t.bump.isAt .leftParen then Grammar.typeList inner t.bump
        else inner (.type .empty) t.bump
      else t) := by
    split
    case isFalse => exact .skip t
    case isTrue arrow =>
      refine .maybe ((Accepts.token (Bool.and_eq_true_iff.mp arrow).1 (by decide)).seq ?_)
      split
      case isTrue opens => exact (reads.typeList opens).le le_self_add
      case isFalse => exact (reads.type _ _).le le_add_self
  have params (t : State) : Accepts table (Spells (node [.typeList])) t
      (if t.isAt .leftParen then Grammar.typeList inner t else t.missing "`(`") := by
    split
    case isTrue opens => exact reads.typeList opens
    case isFalse => exact .of_reported (Accepts.not_clean_missing _ t)
  exact Accepts.node ((Accepts.token (s := s.openNode) here (by decide)).seq
    ((params _).seq (result _))) (by decide) le_rfl

theorem arraySuffixes (element : Accepts table (Spells (node elementTypeKinds)) s t) :
    Accepts table (Spells (node elementTypeKinds)) s (Grammar.arraySuffixes inner t) := by
  refine repeatStep_invariant
    (motive := fun t => Accepts table (Spells (node elementTypeKinds)) s t) (fun t first => ?_) t
    element
  split
  case isFalse => exact first
  case isTrue here =>
    have size (u : State) : Accepts table (Spells (optional Production.expression)) u
        (if u.isAt .rightBracket then u else inner (.expr 0 (.ofList [.rightBracket])) u) := by
      split
      case isTrue => exact .skip u
      case isFalse => exact .maybe (reads.expression _ _ u)
    have brackets :
        Accepts table (Spells (bracketed (optional Production.expression))) t.precedeNode _ :=
      ((Accepts.token (s := t.precedeNode) (Bool.and_eq_true_iff.mp here).1 (by decide)).seq
        (size (t.precedeNode.bump.pushBreaks false)).withBreaks).seq
          (.expect .rightBracket (by decide) _)
    exact (@Accepts.wrap _ _ _ _ _ .arrayType _ first brackets (by decide) le_rfl).le
      (node_le (by decide))

theorem typeBody (recovery : KindSet) (here : atTypeStart s = true) :
    Accepts table (Spells Production.type) s (Grammar.typeBody inner recovery s) := by
  rw [Grammar.typeBody]
  split
  case isTrue modifier =>
    exact (Accepts.node ((Accepts.isAtAny (s := s.openNode) modifier (by decide)).seq
      (reads.type _ _)) (by decide) le_rfl).le (node_le (by decide))
  split
  case isTrue function =>
    exact (reads.arraySuffixes ((reads.funcType function).le (node_le (by decide)))).le
      (node_le (by decide))
  case isFalse modifier function =>
    refine (reads.arraySuffixes ((reads.namedType ?_).le (node_le (by decide)))).le
      (node_le (by decide))
    have named : ∀ kind ∈ Grammar.typeKinds.members, modifierKinds.contains kind = true ∨
        (kind == .funcWord) = true ∨ (kind == .ident) = true ∨ (kind == .baseType) = true := by decide
    exact ((named s.kind (List.contains_iff_mem.mp here)).resolve_left modifier).resolve_left function

theorem elementStep {base : State} (list : Accepts table (Spells (Production.expression *
    (Production.token .comma * Production.expression)∗)) base t) :
    ((Grammar.elementStep inner t).1 = true → Accepts table (Spells (Production.expression *
      (Production.token .comma * Production.expression)∗)) base (Grammar.elementStep inner t).2) ∧
    Accepts table (Spells (commaSeparated Production.expression)) base
      (Grammar.elementStep inner t).2 := by
  have ends {u : State} (list : Accepts table (Spells (Production.expression *
      (Production.token .comma * Production.expression)∗)) base u) :
      Accepts table (Spells (commaSeparated Production.expression)) base u :=
    list.mono fun _ _ spells => Accepts.commaSeparated_of_listForm (.inr (.inl ⟨spells, rfl⟩))
  rw [Grammar.elementStep]
  split
  case isFalse => exact ⟨fun asked => absurd asked Bool.false_ne_true, ends list⟩
  case isTrue here =>
    have comma := list.seq (.token here (by decide))
    split
    case isTrue =>
      refine ⟨fun asked => absurd asked Bool.false_ne_true, comma.mono fun _ _ spells => ?_⟩
      exact Accepts.commaSeparated_of_listForm
        (show Accepts.listForm Production.expression true _ from .inr (.inr spells))
    case isFalse =>
      have more := Accepts.listForm_element (comma.mono fun _ _ spells => .inr (.inr spells))
        (reads.expression 0 (.ofList [.rightParen, .comma]) t.bump)
      exact ⟨fun _ => more, ends more⟩

theorem elements {base : State}
    (first : Accepts table (Spells Production.expression) base t) :
    Accepts table (Spells (commaSeparated Production.expression)) base
      (t.repeatStep (Grammar.elementStep inner)) := by
  refine repeatStep_induction
    (motive := fun t => Accepts table (Spells (Production.expression *
      (Production.token .comma * Production.expression)∗)) base t)
    (fun t list asked _ => (reads.elementStep list).1 asked)
    (fun t list _ => (reads.elementStep list).2) t (first.le ?_)
  exact le_trans (mul_one _).symm.le (mul_le_mul_right one_le_kstar _)

theorem insideParens (s : State) :
    let inside := Coupling.insideParens inner s
    (inside.1 = .parenExpr ∧ Accepts table (Spells Production.expression) s inside.2) ∨
      (inside.1 = .tupleExpr ∧ Accepts table (Spells (optional (Production.expression *
        (Production.token .comma * commaSeparated Production.expression)))) s inside.2) := by
  simp only [insideParens_eq]
  split
  case isTrue => exact .inr ⟨rfl, .skip s⟩
  case isFalse =>
    have first := reads.expression 0 (.ofList [.rightParen, .comma]) s
    revert first
    generalize inner (.expr 0 (.ofList [.rightParen, .comma])) s = t
    intro first
    split
    case isFalse other =>
      have stays : t.repeatStep (Grammar.elementStep inner) = t := by
        rw [repeatStep, Grammar.elementStep, if_neg other]
        exact if_neg fun asked => absurd asked.1 Bool.false_ne_true
      exact .inl ⟨rfl, by rwa [stays]⟩
    case isTrue here =>
      refine .inr ⟨rfl, .maybe (first.seq ((Accepts.token here (by decide)).seq ?_))⟩
      rw [elements_of_comma here]
      split
      case isTrue => exact .skip t.bump
      case isFalse =>
        have next := reads.expression 0 (.ofList [.rightParen, .comma]) t.bump
        dsimp only
        split
        case isTrue => exact reads.elements next
        case isFalse =>
          exact next.mono fun _ _ spells => Accepts.commaSeparated_of_listForm <|
            .inr (.inl ⟨spells.mono
              (le_trans (mul_one _).symm.le (mul_le_mul_right one_le_kstar _)), rfl⟩)

theorem parenthesized (here : s.isAt .leftParen = true) :
    Accepts table (Spells (node operandKinds)) s (Grammar.parenthesized inner s) := by
  have opened : Accepts table (Spells (Production.token .leftParen)) s.openNode s.openNode.bump :=
    .token here (by decide)
  have closed {words : Language Symbol}
      (within : Accepts table (Spells words) (s.openNode.bump.pushBreaks false)
        (Coupling.insideParens inner (s.openNode.bump.pushBreaks false)).2) :=
    (opened.seq within.withBreaks).seq (.expect .rightParen (by decide) _)
  rw [Coupling.parenthesized_eq]
  change Accepts _ _ s (State.closeNode s (Coupling.insideParens inner _).1 _)
  rcases reads.insideParens (s.openNode.bump.pushBreaks false) with ⟨kind, within⟩ | ⟨kind, within⟩
  · rw [kind]
    exact (Accepts.node (closed within) (by decide) le_rfl).le (node_le (by decide))
  · rw [kind]
    exact (Accepts.node (closed within) (by decide) le_rfl).le (node_le (by decide))

omit reads in
theorem expressionForm_of_operand {phrases : List Phrase}
    (spells : Spells (node operandKinds) phrases) (least : Nat) (s : State) :
    expressionForm table least s phrases := by
  obtain ⟨kind, member, children, rfl⟩ := spells.exists_node
  have other : kind ≠ .prefixExpr ∧ kind ≠ .binaryExpr := by
    constructor <;> (rintro rfl; exact absurd member (by decide))
  obtain ⟨left, right, -⟩ := @Operation.edges_operand table _ other.1 other.2 (treeAll children)
  refine ⟨_, rfl, spells.mono (node_le (by decide)), ?_, fun power _ => ?_⟩
  · rw [tree_node, left]
    exact fun inner member => absurd member List.not_mem_nil
  · rw [tree_node, right]
    exact fun inner member => absurd member List.not_mem_nil

theorem postfixForms (first : Accepts table (Spells (node operandKinds)) s t) :
    Accepts table (Spells (node operandKinds)) s (Grammar.postfixForms config inner t) := by
  refine repeatStep_invariant
    (motive := fun t => Accepts table (Spells (node operandKinds)) s t) (fun t first => ?_) t first
  split
  case isTrue => exact first
  have taken {kind : TokenKind} (same : t.kind = kind) (inside : kind ≠ .eof) :
      Accepts table (Spells (Production.token kind)) t.precedeNode t.precedeNode.bump :=
    .token (beq_iff_eq.mpr same) inside
  split
  case h_1 same =>
    have arguments := Accepts.delimited (s := t.precedeNode) "argument" (beq_iff_eq.mpr same)
      (by decide)
      (starts_expr config (.inl rfl)) (fun recovery s _ => reads.expression 0 recovery s) (by decide)
      (le_refl (production table .argList))
    exact (first.wrap arguments (by decide) (le_refl (production table .callExpr))).le
      (node_le (by decide))
  case h_2 same =>
    have index := ((taken same (by decide)).seq
      (reads.expression 0 (.ofList [.rightBracket])
        (t.precedeNode.bump.pushBreaks false)).withBreaks).seq (.expect .rightBracket (by decide) _)
    exact (first.wrap index (by decide) (le_refl (production table .indexExpr))).le
      (node_le (by decide))
  case h_3 same =>
    have member := (taken same (by decide)).seq
      (.expect .ident (by decide) _)
    exact (first.wrap member (by decide) (le_refl (production table .memberExpr))).le
      (node_le (by decide))
  case h_4 same =>
    have cast := (taken same (by decide)).seq
      (reads.type .empty t.precedeNode.bump)
    exact (first.wrap cast (by decide) (le_refl (production table .castExpr))).le
      (node_le (by decide))
  case h_5 => exact first

end Inner

/-- An operator token. -/
theorem Spells.exists_symbol {known : String → Bool} {phrases : List Phrase}
    (spells : Spells (operator known) phrases) :
    ∃ next : Lookahead, phrases = [.token next] ∧ next.kind = .symbol ∧
      known next.token.text = true := by
  obtain ⟨text, test, spelled⟩ := spells
  obtain ⟨phrase, rfl, symbol⟩ := List.map_eq_singleton_iff.mp spelled
  cases phrase with
  | node inner children => exact Symbol.noConfusion symbol
  | token next =>
    obtain ⟨kind, rfl⟩ := Symbol.token.inj symbol
    exact ⟨next, rfl, kind, test⟩

theorem spells_symbol {known : String → Bool} {next : Lookahead} (kind : next.kind = .symbol)
    (test : known next.token.text = true) : Spells (operator known) [.token next] :=
  ⟨next.token.text, test, by rw [← kind]; rfl⟩

theorem operation_of_spells {table : OperatorTable} {phrase : Phrase}
    (derived : phrase.Derived table) (spells : Spells expression [phrase]) :
    Operation table phrase.tree := by
  obtain ⟨kind, member, children, same⟩ := spells.exists_node
  obtain rfl := (List.cons.inj same).1
  cases derived with
  | node inner derives apart operation within => exact operation member

/-- The phrase of a binary operator with operands that it holds as it should. -/
theorem derived_binary {table : OperatorTable} {left right : Phrase} {next : Lookahead}
    {power : BindingPower} (kind : next.kind = .symbol)
    (known : table.binaryPower? next.token.text = some power)
    (first : left.Derived table) (second : right.Derived table)
    (spells : Spells expression [left]) (spells' : Spells expression [right])
    (loose : ∀ inner ∈ left.tree.rightPowers table, power.left < inner)
    (tight : ∀ inner ∈ right.tree.leftPowers table, power.right ≤ inner) :
    let whole := Phrase.node .binaryExpr [left, .token next, right]
    whole.Derived table ∧
      whole.tree.leftPowers table = power.left :: left.tree.leftPowers table ∧
      whole.tree.rightPowers table = power.right :: right.tree.rightPowers table := by
  intro whole
  have tree : whole.tree =
      .node .binaryExpr [left.tree, .leaf .symbol next.token.text, right.tree] := by
    rw [tree_node, treeAll_cons, treeAll_cons, treeAll_cons, treeAll_nil, tree_token, kind]
  refine ⟨?_, by rw [tree, Operation.leftPowers_binary known],
    by rw [tree, Operation.rightPowers_binary known]⟩
  refine .node (by decide) (spells.append ((spells_symbol kind (by rw [known]; rfl)).append spells'))
    (apart_of_none rfl _) (fun _ => ?_) ?_
  · rw [show (Phrase.node .binaryExpr [left, .token next, right]).tree = _ from tree]
    exact .binary known loose tight (operation_of_spells first spells)
      (operation_of_spells second spells')
  · simp only [List.forall_mem_cons]
    exact ⟨first, .token next, second, fun _ member => absurd member List.not_mem_nil⟩

namespace Inner

variable {config : Config} {inner : ConstructRule} {table : OperatorTable} {s t : State}
  (reads : Inner table inner)
include reads

/-- A prefix operator and its operand. -/
theorem prefixed {power : Nat} (recovery : KindSet) (here : s.isAt .symbol = true)
    (known : table.unaryPower? s.text = some power) (least : Nat) :
    let s' := s.node .prefixExpr fun s => inner (.expr power recovery) s.bump
    Accepts table (expressionForm table least s') s s' := by
  intro s'
  have sign : Accepts table (Spells (operator fun text => table.unaryPower? text == some power))
      s.openNode s.openNode.bump := .symbol here (beq_iff_eq.mpr known)
  have parts {children : List Phrase} (split : ∃ front back, children = front ++ back ∧
      Spells (operator fun text => table.unaryPower? text == some power) front ∧
      completeForm table power s' back) : ∃ next phrase, children = [.token next, phrase] ∧
        next.kind = .symbol ∧ table.unaryPower? next.token.text = some power ∧
        Spells Production.expression [phrase] ∧
        (∀ inner ∈ phrase.tree.leftPowers table, power ≤ inner) ∧
        ∀ found, operatorAhead? table s' = some found →
          ∀ inner ∈ power :: phrase.tree.rightPowers table, found.left < inner := by
    obtain ⟨front, back, rfl, spells, ⟨⟨phrase, rfl, operand, tight, edge⟩, weak⟩⟩ := split
    obtain ⟨next, rfl, kind, same⟩ := spells.exists_symbol
    refine ⟨next, phrase, rfl, kind, beq_iff_eq.mp same, operand, tight, fun found ahead => ?_⟩
    exact List.forall_mem_cons.mpr ⟨weak found ahead, edge found ahead⟩
  refine ((sign.trans (reads.expr power recovery s.openNode.bump)).closeNode ?_).mono ?_
  · intro children within split
    obtain ⟨next, phrase, rfl, kind, same, operand, tight, -⟩ := parts split
    refine .node (by decide) ((spells_symbol kind (by rw [same]; rfl)).append operand)
      (apart_of_none rfl _) (fun _ => ?_) within
    rw [tree_node, treeAll_cons, treeAll_cons, treeAll_nil, tree_token, kind]
    exact .prefixed same tight (operation_of_spells (within _ (by simp)) operand)
  · rintro phrases - ⟨children, rfl, split⟩
    obtain ⟨next, phrase, rfl, kind, same, operand, -, edge⟩ := parts split
    refine ⟨_, rfl, ⟨_, by decide, rfl⟩, ?_, fun found ahead inner member => ?_⟩
    · rw [tree_node, Operation.leftPowers_prefixed]
      exact fun inner member => absurd member List.not_mem_nil
    · rw [tree_node, treeAll_cons, treeAll_cons, treeAll_nil, tree_token,
        Operation.rightPowers_prefixed same] at member
      exact edge found ahead inner member

/-- A binary operator, with its right operand, after the expression that becomes its left one. -/
theorem binary {least : Nat} {power : BindingPower} (recovery : KindSet)
    (first : Accepts table (expressionForm table least t) s t)
    (ahead : operatorAhead? table t = some power) (strong : least ≤ power.left) :
    let t' := t.wrap .binaryExpr fun t => inner (.expr power.right recovery) t.bump
    Accepts table (fun phrases => expressionForm table least t' phrases ∧
      t'.ahead.length < t.ahead.length) s t' := by
  intro t' clean
  obtain ⟨here, known⟩ : t.isAt .symbol = true ∧ table.binaryPower? t.text = some power := by
    rw [operatorAhead?, Option.ite_none_right_eq_some] at ahead
    exact ⟨(Bool.and_eq_true_iff.mp ahead.1).1, ahead.2⟩
  have sign : Accepts table (Spells (operator fun text => table.binaryPower? text == some power))
      t.precedeNode t.precedeNode.bump := .symbol here (beq_iff_eq.mpr known)
  obtain ⟨between, rest⟩ :=
    (sign.trans (reads.expr power.right recovery t.precedeNode.bump)) ⟨clean.reports, clean.endReported⟩
  obtain ⟨before, first⟩ := first ⟨between.reports, between.endReported⟩
  refine ⟨before, fun finish => ?_⟩
  obtain ⟨_, read, within, phrase, rfl, left, held, edge⟩ := first finish
  obtain ⟨_, read', within', front, back, rfl, spells, ⟨⟨operand, rfl, right, tight, edge'⟩, weak⟩⟩ :=
    rest (by rw [show t.precedeNode.finish = t.finish from rfl, read.finish, finish])
  obtain ⟨next, rfl, kind, found⟩ := spells.exists_symbol
  obtain ⟨inside, -, children, split⟩ := left.exists_node
  obtain rfl := (List.cons.inj split).1
  obtain ⟨derived, leftEdge, rightEdge⟩ := derived_binary kind (beq_iff_eq.mp found)
    (within _ List.mem_cons_self) (within' _ (by simp)) left right (edge power ahead) tight
  refine ⟨_, read.closeWrap read', fun child member => ?_,
    ⟨_, rfl, ⟨_, by decide, rfl⟩, ?_, fun found ahead' => ?_⟩, ?_⟩
  · rw [List.mem_singleton.mp member]
    exact derived
  · exact leftEdge ▸ List.forall_mem_cons.mpr ⟨strong, held⟩
  · exact rightEdge ▸ List.forall_mem_cons.mpr ⟨weak found ahead', edge' found ahead'⟩
  · have split := read'.ahead
    rw [show t'.ahead = (inner (.expr power.right recovery) t.precedeNode.bump).ahead from rfl,
      show t.ahead = t.precedeNode.ahead from rfl, split]
    simp only [tokensAll_append, tokensAll_cons, tokens_token, List.length_append, List.length_cons]
    omega

omit reads in
/-- The binary operators after an operand. -/
theorem binaryOperators {least : Nat} {recovery : KindSet}
    (first : Accepts config.operators (expressionForm config.operators least t) s t)
    (reads : Inner config.operators inner) :
    let s' := Grammar.binaryOperators config inner least recovery t
    Accepts config.operators (completeForm config.operators least s') s s' := by
  refine @repeatStep_induction (binaryStep config inner least recovery)
    (fun t => Accepts config.operators (expressionForm config.operators least t) s t)
    (fun t => Accepts config.operators (completeForm config.operators least t) s t)
    (fun t first asked _ => ?_) (fun t first halts => ?_) t first
  all_goals
    rcases binaryStep_cases config inner least recovery t with
      ⟨stays, weak⟩ | ⟨power, ahead, strong, goes⟩
  · rw [stays] at asked
    exact absurd asked Bool.false_ne_true
  · rw [goes]
    exact (reads.binary recovery first ahead strong).mono fun _ _ form => form.1
  · rw [stays]
    exact first.mono fun _ _ form => ⟨form, weak⟩
  · rw [goes] at halts ⊢
    exact (reads.binary recovery first ahead strong).mono fun _ _ form =>
      absurd form.2 (Nat.not_lt_of_le (halts rfl))

omit reads in
/-- An operand, with its prefix operator or the forms after it. -/
theorem operand (least : Nat) (recovery : KindSet) (s : State)
    (reads : Inner config.operators inner) :
    let s' := Grammar.operand config inner recovery s
    Accepts config.operators
      (fun phrases => s'.1 = true ∧ expressionForm config.operators least s'.2 phrases) s s'.2 := by
  have forms {t : State} (first : Accepts config.operators (Spells (node operandKinds)) s t) :
      let t' := Grammar.postfixForms config inner t
      Accepts config.operators
        (fun phrases => true = true ∧ expressionForm config.operators least t' phrases) s t' :=
    (reads.postfixForms first).mono fun _ _ spells => ⟨rfl, expressionForm_of_operand spells least _⟩
  have one {t : State} {kind : NodeKind} (operand : kind ∈ operandKinds)
      (first : Accepts config.operators (Spells (node [kind])) s t) :=
    forms (first.le (node_le (by simpa using operand)))
  dsimp only
  rw [Grammar.operand]
  split
  case isTrue here =>
    exact one (by decide)
      (Accepts.node (.isAtAny (s := s.openNode) here (by decide)) (by decide) le_rfl)
  split
  case isTrue here =>
    exact one (by decide)
      (Accepts.node (.token (s := s.openNode) here (by decide)) (by decide) le_rfl)
  split
  case isTrue here => exact forms (reads.parenthesized here)
  split
  case isTrue here =>
    exact one (by decide) <| .delimited "expression" here (by decide) (starts_expr config (.inr rfl))
      (fun recovery s _ => reads.expression 0 recovery s) (by decide) le_rfl
  dsimp only
  split
  case h_1 power known =>
    rw [Option.ite_none_right_eq_some] at known
    exact (reads.prefixed recovery known.1 known.2 least).mono fun _ _ form => ⟨rfl, form⟩
  case h_2 => exact .of_reported (Accepts.not_clean_absent _ _ s)

omit reads in
theorem exprBody (least : Nat) (recovery : KindSet) (s : State)
    (reads : Inner config.operators inner) :
    let s' := Grammar.exprBody config inner least recovery s
    Accepts config.operators (completeForm config.operators least s') s s' := by
  have first := operand least recovery s reads
  revert first
  simp only [Grammar.exprBody]
  generalize Grammar.operand config inner recovery s = found
  intro first
  split
  case isTrue => exact binaryOperators (first.mono fun _ _ form => form.2) reads
  case isFalse none => exact first.mono fun _ _ form => absurd form.1 none

end Inner

/-- Constructs are derived, however many levels may be entered. -/
theorem inner_construct (config : Config) (room : Nat) :
    Inner config.operators (construct config room) := by
  induction room with
  | zero =>
    refine ⟨fun recovery s => ?_, fun least recovery s =>
      .of_reported (Accepts.not_clean_recoverTooDeep _ s)⟩
    rw [construct]
    split
    · exact .of_reported (Accepts.not_clean_recoverTooDeep _ s)
    · exact .of_reported (Accepts.not_clean_absent _ _ s)
  | succ room ih =>
    refine ⟨fun recovery s => ?_, fun least recovery s => ?_⟩
    · rw [construct]
      split
      case isTrue here =>
        exact .nested (.during .expression (ih.typeBody recovery here))
      case isFalse => exact .of_reported (Accepts.not_clean_absent _ _ s)
    · rw [construct]
      exact .nested (.during .expression (Inner.exprBody least recovery _ ih))

end LosslessSyntax.Grammar
