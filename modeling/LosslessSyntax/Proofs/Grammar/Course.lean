import LosslessSyntax.Proofs.Grammar.Items
import LosslessSyntax.Proofs.Grammar.Skipping

/-! # The course of a run

A rule of the grammar gets from one state to another by a few actions, and error nodes come from
four of them only: tokens are skipped up to one where a rule can go on, a construct is absent or
nests too deeply, or nothing follows the annotations of a statement. `Course s s'` says that such
actions lead from `s` to `s'`. Every rule takes such a course, except for a statement at a closing
brace, which occurs outside of blocks only (`Course.statementItem`, `Course.block`). What is said of
error nodes is then an induction over a course, with one case for each action.
-/

namespace LosslessSyntax.Grammar

open State

variable {s s' s'' : State}

/-- What begins at the end of the text has the end reported. -/
def ReportsEnd (s s' : State) : Prop := s.Proper → s.atEnd = true → s'.endReported = true

theorem inside_of_isAt {kind : TokenKind} (other : kind ≠ .eof) (here : s.isAt kind = true) :
    s.atEnd = false :=
  inside_of_kind (beq_iff_eq.mp here ▸ other)

theorem inside_of_isAtAny {kinds : KindSet} (other : kinds.contains .eof = false)
    (here : s.isAtAny kinds = true) : s.atEnd = false :=
  inside_of_kind fun kind => by
    rw [isAtAny, kind, other] at here
    exact Bool.false_ne_true here

namespace ReportsEnd

theorem of_inside (inside : s.atEnd = false) : ReportsEnd s s' :=
  fun _ ended => absurd (inside.symm.trans ended) Bool.false_ne_true

theorem trans (first : ReportsEnd s s') (second : Reporting s' s'') : ReportsEnd s s'' :=
  fun proper ended => second.known (first proper ended)

/-- A token is missing at the end whichever it is. -/
theorem expect {close : TokenKind} (other : close ≠ .eof) (run : Runs s s') :
    ReportsEnd s (s'.expect close) := by
  intro proper ended
  have ended' : s'.atEnd = true :=
    (proper.of_runs run).atEnd_iff.mpr (run.nil_of_nil (proper.atEnd_iff.mp ended))
  have elsewhere : s'.isAt close = false := Bool.eq_false_iff.mpr fun here => by
    rw [inside_of_isAt other here] at ended'
    exact Bool.false_ne_true ended'
  rw [State.expect, elsewhere, State.missing, ended']
  exact endReported_unexpected _ ended'

end ReportsEnd

/-- Actions of the grammar that lead from one state to another. -/
inductive Course : State → State → Prop where
  /-- Nothing is done. -/
  | refl (s : State) : Course s s
  /-- One thing is done after another. -/
  | trans {s s' s'' : State} : Course s s' → Course s' s'' → Course s s''
  /-- A token is consumed. -/
  | bump (s : State) : Course s s.bump
  /-- The current token is reported. -/
  | unexpected (expected : String) (s : State) : Course s (s.unexpected expected)
  /-- A missing token is reported. -/
  | missing (expected : String) (s : State) : Course s (s.missing expected)
  /-- Something is done one level deeper. -/
  | deeper {s s' : State} : Course { s with depth := s.depth + 1 } s' →
      Course s { s' with depth := s'.depth - 1 }
  /-- Something is done as part of a construct. -/
  | within {phase : Phase} {s s' : State} : Course { s with phases := phase :: s.phases } s' →
      Course s { s' with phases := s'.phases.tail }
  /-- Something is done while line breaks matter or not. -/
  | breaking {matter : Bool} {s s' : State} : Course (s.pushBreaks matter) s' →
      Course s s'.popBreaks
  /-- A node is read. -/
  | closed {kind : NodeKind} {s s' : State} : kind ≠ .error → ReportsEnd s.openNode s' →
      Course s.openNode s' → Course s (closeNode s kind s')
  /-- The rest of a node is read. -/
  | wrapped {kind : NodeKind} {s s' : State} : kind ≠ .error → s.atEnd = false →
      Course s.precedeNode s' → Course s (closeWrap s kind s')
  /-- Tokens are skipped, of which the first is no closing brace. -/
  | recover (expected : String) (recovery : KindSet) {s : State} :
      s.isAt .rightBrace = false → Course s (s.recover expected recovery)
  /-- A construct is absent. -/
  | placeholder (expected : String) (s : State) : Course s (s.placeholder expected)
  /-- A construct nests too deeply. -/
  | recoverTooDeep (limit : Nat) (s : State) : Course s (s.recoverTooDeep limit)
  /-- Annotations are left over. -/
  | leftover {s s' : State} : s.atEnd = false → Course s.openNode s' → Leftover s' →
      Course s (closeNode s .error s')

namespace Course

/-- What is true of every run is true of every course. -/
theorem reporting (course : Course s s') : Reporting s s' := by
  induction course with
  | refl s => exact .refl s
  | trans _ _ first second => exact first.trans second
  | bump s => exact .bump s
  | unexpected expected s => exact .unexpected expected s
  | missing expected s => exact .missing expected s
  | deeper _ inner => exact .of_context inner
  | within _ inner => exact .of_context inner
  | breaking _ inner => exact inner.popBreaks
  | closed _ _ _ inner => exact inner.closeNode _
  | wrapped _ _ _ inner => exact inner.closeWrap _
  | recover expected recovery _ => exact .of_coupled (.recover expected recovery) _
  | placeholder expected s => exact .of_coupled (.placeholder expected) s
  | recoverTooDeep limit s => exact .of_coupled (.recoverTooDeep limit) s
  | leftover _ _ _ inner => exact inner.closeNode .error

section Combinators

variable {rule : State → State}

/-- A node that does not begin at the end. -/
theorem node (kind : NodeKind) (other : kind ≠ .error) (body : ∀ s, Course s (rule s))
    (inside : s.atEnd = false) : Course s (s.node kind rule) :=
  .closed other (.of_inside inside) (body s.openNode)

theorem wrap (kind : NodeKind) (other : kind ≠ .error) (body : ∀ s, Course s (rule s))
    (inside : s.atEnd = false) : Course s (s.wrap kind rule) :=
  .wrapped other inside (body s.precedeNode)

theorem nested (body : ∀ s, Course s (rule s)) (s : State) : Course s (s.nested rule) :=
  .deeper (body _)

theorem during (phase : Phase) (body : ∀ s, Course s (rule s)) (s : State) :
    Course s (s.during phase rule) := .within (body _)

theorem withBreaks (matter : Bool) (body : ∀ s, Course s (rule s)) (s : State) :
    Course s (s.withBreaks matter rule) := .breaking (body _)

theorem repeatStep {step : State → Bool × State} (each : ∀ s, Course s (step s).2) (s : State) :
    Course s (s.repeatStep step) :=
  repeatStep_invariant (motive := Course s) (fun s' here => here.trans (each s')) s (.refl s)

theorem bumpMany (count : Nat) (s : State) : Course s (s.bumpMany count) := by
  induction count generalizing s with
  | zero => exact .refl s
  | succ count ih => exact (Course.bump s).trans (ih s.bump)

theorem eat (kind : TokenKind) (s : State) : Course s (s.eat kind) := by
  rw [State.eat]
  split
  · exact .bump s
  · exact .refl s

theorem expect (kind : TokenKind) (s : State) : Course s (s.expect kind) := by
  rw [State.expect]
  split
  · exact .bump s
  · exact .missing _ s

/-- What stands between brackets is read, with the brackets. -/
theorem bracketed (matter : Bool) (close : TokenKind) (body : ∀ s, Course s (rule s)) (s : State) :
    Course s ((s.bump.withBreaks matter rule).expect close) :=
  ((bump s).trans (withBreaks matter body _)).trans (expect close _)

/-- A node whose last token is expected, wherever it begins. -/
theorem ending (kind : NodeKind) (other : kind ≠ .error) {close : TokenKind} (inside : close ≠ .eof)
    (body : ∀ s, Course s (rule s)) (s : State) :
    Course s (s.node kind fun s => (rule s).expect close) :=
  .closed other (.expect inside (body s.openNode).reporting.toRuns)
    ((body s.openNode).trans (expect close _))

end Combinators

theorem absent (expected : String) (recovery : KindSet) (s : State) :
    Course s (s.absent expected recovery) := by
  rw [State.absent]
  split
  case isTrue => exact .placeholder expected s
  case isFalse goes => exact .recover expected recovery (not_atBrace goes)

theorem separator (close : TokenKind) (recovery : KindSet) (s : State) :
    Course s (separator close recovery s) := by
  rw [Grammar.separator]
  split
  · exact .bump s
  split
  · exact .refl s
  · exact .missing _ s

theorem commaList (close : TokenKind) (what : String) {starts : State → Bool}
    {element : KindSet → State → State}
    (elements : ∀ recovery s, starts s = true → Course s (element recovery s)) (s : State) :
    Course s (commaList close what starts element s) := by
  apply repeatStep
  intro s
  split
  · exact .refl s
  split
  case isTrue here => exact (elements _ s here).trans (separator close _ _)
  split
  · exact (unexpected what s).trans (separator close _ _)
  split
  · exact .refl s
  case isFalse goes => exact (recover what _ (not_atBrace goes)).trans (separator close _ _)

theorem delimited (kind : NodeKind) (other : kind ≠ .error) {close : TokenKind}
    (inside : close ≠ .eof) (what : String) {starts : State → Bool}
    {element : KindSet → State → State}
    (elements : ∀ recovery s, starts s = true → Course s (element recovery s)) (s : State) :
    Course s (delimited kind close what starts element s) :=
  ending kind other inside
    (fun s => (bump s).trans (withBreaks false (commaList close what elements) _)) s

section Constructs

variable {inner : ConstructRule} (constructs : ∀ construct s, Course s (inner construct s))
include constructs

theorem typeList (s : State) : Course s (typeList inner s) :=
  delimited .typeList (by decide) (by decide) "type" (fun _ s _ => constructs _ s) s

omit constructs in
theorem nextArgument (s : State) : Course s (nextArgument s).2 := by
  rw [Grammar.nextArgument]
  split
  · exact .bump s
  · exact .refl s

theorem argumentStep (s : State) : Course s (argumentStep inner s).2 := by
  rw [Grammar.argumentStep]
  split
  · exact .refl s
  split
  · exact (constructs _ s).trans (nextArgument _)
  split
  · exact .refl s
  case isFalse goes =>
    refine (recover "type" _ ?_).trans (nextArgument _)
    simp only [Bool.and_eq_true, Bool.not_eq_true', not_and, Bool.not_eq_false] at goes
    by_cases sync : s.atSync (.ofList [.comma, .symbol]) = true
    · have comma : s.kind = .comma := beq_iff_eq.mp (goes sync)
      rw [isAt, comma]
      rfl
    · exact not_atBrace sync

theorem typeArguments (inside : s.atEnd = false) : Course s (typeArguments inner s) := by
  rw [typeArguments_eq]
  refine node .typeList (by decide) (fun s => ?_) inside
  have list := withBreaks false (repeatStep (argumentStep constructs))
  apply ((bump s).trans (list _)).trans
  dsimp only
  split
  · exact .bump _
  · exact .missing _ _

theorem namedType (inside : s.atEnd = false) : Course s (namedType inner s) := by
  rw [Grammar.namedType]
  refine node .namedType (by decide) (fun t => (bump t).trans ?_) inside
  dsimp only
  split
  case isTrue here =>
    have angle := (Bool.and_eq_true_iff.mp here).2
    exact typeArguments constructs
      (inside_of_isAt (by decide) (Bool.and_eq_true_iff.mp angle).1)
  case isFalse => exact .refl _

theorem funcType (inside : s.atEnd = false) : Course s (funcType inner s) := by
  have params (s : State) :
      Course s (if s.isAt .leftParen then Grammar.typeList inner s else s.missing "`(`") := by
    split
    · exact typeList constructs s
    · exact .missing _ s
  have result (s : State) : Course s
      (if s.isAt .leftParen then Grammar.typeList inner s else inner (.type .empty) s) := by
    split
    · exact typeList constructs s
    · exact constructs _ s
  refine node .funcType (by decide) (fun s => ((bump s).trans (params _)).trans ?_) inside
  dsimp only
  generalize (if s.bump.isAt .leftParen then _ else _) = s'
  split
  · exact (bump _).trans (result _)
  · exact .refl _

theorem arraySuffixes (s : State) : Course s (arraySuffixes inner s) := by
  have size (s : State) : Course s
      (if s.isAt .rightBracket then s else inner (.expr 0 (.ofList [.rightBracket])) s) := by
    split
    · exact .refl s
    · exact constructs _ s
  apply repeatStep
  intro s
  split
  case isTrue here =>
    exact wrap .arrayType (by decide) (bracketed false .rightBracket size)
      (inside_of_isAt (by decide) (Bool.and_eq_true_iff.mp here).1)
  case isFalse => exact .refl s

theorem typeBody (recovery : KindSet) (inside : s.atEnd = false) :
    Course s (typeBody inner recovery s) := by
  rw [Grammar.typeBody]
  split
  · exact node .modifiedType (by decide) (fun s => (bump s).trans (constructs _ _)) inside
  split
  · exact (funcType constructs inside).trans (arraySuffixes constructs _)
  · exact (namedType constructs inside).trans (arraySuffixes constructs _)

theorem insideParens (s : State) : Course s (Coupling.insideParens inner s).2 := by
  rw [Coupling.insideParens]
  split
  · exact .refl s
  · refine (constructs _ s).trans (repeatStep (fun s => ?_) _)
    split
    · split
      · exact .bump s
      · exact (bump s).trans (constructs _ _)
    · exact .refl s

omit constructs in
theorem kind_insideParens (s : State) : (Coupling.insideParens inner s).1 ≠ .error := by
  rw [Coupling.insideParens]
  split
  · rintro ⟨⟩
  · dsimp only
    split <;> rintro ⟨⟩

theorem parenthesized (s : State) : Course s (parenthesized inner s) := by
  rw [Coupling.parenthesized_eq]
  have list := (bump s.openNode).trans (@breaking false _ _ (insideParens constructs _))
  exact closed (kind_insideParens _) (.expect (by decide) list.reporting.toRuns)
    (list.trans (expect .rightParen _))

theorem postfixForm (config : Config) {kind : TokenKind} (here : s.kind = kind) :
    Course s (Coupling.postfixForm config inner kind s).2 := by
  have index := constructs (.expr 0 (.ofList [.rightBracket]))
  have inside (other : kind ≠ .eof) : s.atEnd = false := inside_of_kind (here ▸ other)
  unfold Coupling.postfixForm
  split
  · exact wrap .callExpr (by decide)
      (delimited .argList (by decide) (by decide) "argument" fun _ s _ => constructs _ s)
      (inside (by decide))
  · exact wrap .indexExpr (by decide) (bracketed false .rightBracket index) (inside (by decide))
  · exact wrap .memberExpr (by decide) (fun s => (bump s).trans (expect .ident _))
      (inside (by decide))
  · exact wrap .castExpr (by decide) (fun s => (bump s).trans (constructs _ _)) (inside (by decide))
  · exact .refl s

theorem postfixForms (config : Config) (s : State) : Course s (postfixForms config inner s) := by
  apply repeatStep
  intro s
  split
  · exact .refl s
  · exact postfixForm constructs config rfl

theorem prefixed (recovery : KindSet) {power? : Option Nat}
    (inside : power?.isSome = true → s.atEnd = false) :
    Course s (Coupling.prefixed inner recovery power? s).2 := by
  cases power? with
  | none => exact absent "expression" recovery s
  | some power =>
    exact node .prefixExpr (by decide) (fun s => (bump s).trans (constructs _ _)) (inside rfl)

theorem operand (config : Config) (recovery : KindSet) (s : State) :
    Course s (operand config inner recovery s).2 := by
  have list := @delimited .arrayExpr (by decide) .rightBracket (by decide) "expression"
    (atExprStart config) _ fun recovery s _ => constructs (.expr 0 recovery) s
  have forms := postfixForms constructs config
  rw [Grammar.operand]
  split
  case isTrue here =>
    exact (node .literal (by decide) bump (inside_of_isAtAny (by decide) here)).trans (forms _)
  split
  case isTrue here =>
    exact (node .nameRef (by decide) bump (inside_of_isAt (by decide) here)).trans (forms _)
  split
  · exact (parenthesized constructs s).trans (forms _)
  split
  · exact (list s).trans (forms _)
  · refine prefixed constructs recovery fun power => ?_
    by_cases here : s.isAt .symbol = true
    · exact inside_of_isAt (by decide) here
    · rw [if_neg here] at power
      exact absurd power Bool.false_ne_true

theorem binaryOperators (config : Config) (least : Nat) (recovery : KindSet) (s : State) :
    Course s (binaryOperators config inner least recovery s) := by
  apply repeatStep
  intro s
  split
  case isTrue here =>
    have inside := inside_of_isAt (by decide) (Bool.and_eq_true_iff.mp here).1
    split
    · split
      · exact .refl s
      · exact wrap .binaryExpr (by decide) (fun s => (bump s).trans (constructs _ _)) inside
    · exact .refl s
  case isFalse => exact .refl s

theorem exprBody (config : Config) (least : Nat) (recovery : KindSet) (s : State) :
    Course s (exprBody config inner least recovery s) := by
  apply (operand constructs config recovery s).trans
  dsimp only [Grammar.exprBody]
  split
  · exact binaryOperators constructs config least recovery _
  · exact .refl _

end Constructs

theorem construct (config : Config) (room : Nat) (kind : Construct) (s : State) :
    Course s (construct config room kind s) := by
  induction room generalizing kind s with
  | zero =>
    cases kind with
    | expr least recovery => exact .recoverTooDeep _ s
    | type recovery =>
      rw [Grammar.construct]
      split
      · exact .recoverTooDeep _ s
      · exact absent "type" recovery s
  | succ room ih =>
    cases kind with
    | expr least recovery => exact nested (during .expression (exprBody ih config least recovery)) s
    | type recovery =>
      rw [Grammar.construct]
      split
      case isTrue starts =>
        exact deeper (within (typeBody ih recovery (inside_of_isAtAny (by decide) starts)))
      case isFalse => exact absent "type" recovery s

theorem annotationArgs (inside : s.atEnd = false) : Course s (annotationArgs s) := by
  refine node .annotationArgs (by decide) (fun s => ?_) inside
  apply ((bump s).trans (bumpMany (parenLength 1 s.bump.ahead).1 _)).trans
  dsimp only
  split
  · exact .refl _
  · exact .unexpected _ _

theorem annotationUse (inside : s.atEnd = false) : Course s (annotationUse s) := by
  refine node .annotationUse (by decide) (fun s => (bump s).trans ?_) inside
  dsimp only
  split
  case isTrue here =>
    exact annotationArgs (inside_of_isAt (by decide) (Bool.and_eq_true_iff.mp here).1)
  case isFalse => exact .refl _

theorem annotations (s : State) : Course s (annotations s) := by
  apply repeatStep
  intro s
  split
  case isTrue here => exact annotationUse (inside_of_isAt (by decide) here)
  case isFalse => exact .refl s

theorem pathStep (s : State) : Course s (pathStep s).2 := by
  rw [Grammar.pathStep]
  split
  · exact (bump s).trans (expect .ident _)
  · exact .refl s

theorem usingPath (s : State) : Course s (usingPath s) := by
  have path (s : State) : Course s
      (if s.isAt .ident then s.bump.repeatStep Grammar.pathStep else s.expect .ident) := by
    split
    · exact (bump s).trans (repeatStep pathStep _)
    · exact expect .ident s
  refine closed (by decide) ?_ (path s.openNode)
  dsimp only
  split
  case isTrue here => exact .of_inside (inside_of_isAt (by decide) here)
  case isFalse => exact .expect (by decide) (.refl _)

theorem memberStep (what : String) {member : State → State}
    (members : ∀ s, s.atEnd = false → Course s (member s)) (s : State) :
    Course s (memberStep what member s).2 := by
  rw [Grammar.memberStep]
  split
  · exact .refl s
  case isFalse goes =>
  obtain ⟨brace, inside⟩ := Bool.or_eq_false_iff.mp (Bool.eq_false_iff.mpr goes)
  split
  · exact (recover what memberRecovery brace).trans (eat .comma _)
  apply (members s inside).trans
  dsimp only
  split
  · exact .bump _
  split
  · exact .refl _
  case isFalse ends =>
    refine (recover "`,` or line break" memberRecovery ?_).trans (eat .comma _)
    exact (Bool.or_eq_false_iff.mp (Bool.eq_false_iff.mpr ends)).1

theorem memberBody (kind : NodeKind) (other : kind ≠ .error) (what : String)
    {member : State → State} (members : ∀ s, s.atEnd = false → Course s (member s)) (s : State) :
    Course s (memberBody kind what member s) := by
  have list := repeatStep (memberStep what members)
  rw [Grammar.memberBody]
  split
  · exact ending kind other (by decide) (fun s => (bump s).trans (withBreaks true list _)) s
  · exact .missing _ s

section Statements

variable {inner : ConstructRule} (constructs : ∀ construct s, Course s (inner construct s))
include constructs

theorem binding (s : State) : Course s (binding inner s) := by
  have name (s : State) : Course s
      (if s.isAt .ident then s.bump
        else if s.atSync bindingRecovery then s.missing "identifier"
        else s.recover "identifier" bindingRecovery) := by
    split
    · exact .bump s
    split
    · exact .missing _ s
    case isFalse goes => exact .recover _ _ (not_atBrace goes)
  have annotated (s : State) : Course s
      (if s.isAt .colon && !s.atBreak then inner (.type .empty) s.bump else s) := by
    split
    · exact (bump _).trans (constructs _ _)
    · exact .refl _
  refine closed (by decide) (.trans ?_ (annotated _).reporting) ((name s.openNode).trans (annotated _))
  intro proper ended
  have elsewhere : s.openNode.isAt .ident = false := Bool.eq_false_iff.mpr fun here =>
    Bool.false_ne_true ((inside_of_isAt (by decide) here).symm.trans ended)
  rw [if_neg (Bool.eq_false_iff.mp elsewhere)]
  split
  · rw [State.missing, ended]
    exact endReported_unexpected _ ended
  · rw [recover_of_atEnd _ _ ended]
    exact endReported_unexpected _ ended

theorem param (inside : s.atEnd = false) : Course s (param inner s) := by
  refine node .param (by decide) (fun s => (bump s).trans ?_) inside
  dsimp only
  split
  · exact (bump _).trans (constructs _ _)
  · exact .refl _

theorem paramList (s : State) : Course s (paramList inner s) := by
  rw [Grammar.paramList]
  split
  · exact delimited .paramList (by decide) (by decide) "parameter"
      (fun _ _ starts => param constructs (inside_of_isAt (by decide) starts)) s
  · exact .missing _ s

theorem packMember (inside : s.atEnd = false) : Course s (packMember inner s) := by
  refine node .packMember (by decide) (fun s => (bump s).trans ?_) inside
  dsimp only
  split
  · exact (bump _).trans (constructs _ _)
  · apply (missing "`:`" _).trans
    split
    · exact constructs _ _
    · exact .refl _

theorem unionMember (inside : s.atEnd = false) : Course s (unionMember inner s) := by
  refine node .unionMember (by decide) (fun s => (bump s).trans ?_) inside
  dsimp only
  split
  · exact typeList constructs _
  · exact .refl _

theorem letRest (config : Config) (s : State) : Course s (letRest config inner s) := by
  apply (binding constructs s).trans
  simp only [Grammar.letRest]
  split
  · exact (bump _).trans (constructs _ _)
  · apply (missing "`=`" _).trans
    split
    · exact constructs _ _
    · exact .refl _

variable {block : State → State} (blocks : ∀ s, Course s (block s))
include blocks

theorem ifChain (s : State) : Course s (ifChain inner block s) := by
  induction size : s.ahead.length using Nat.strongRecOn generalizing s with
  | _ n ih =>
  have first : Course s (block (inner (.expr 0 conditionRecovery) s.bump)) :=
    ((bump s).trans (constructs _ _)).trans (blocks _)
  have shrinks := first.reporting.shrinks
  rw [Coupling.ifChain_eq s shrinks]
  apply first.trans
  generalize block (inner (.expr 0 conditionRecovery) s.bump) = s' at *
  rw [Coupling.elseBranch]
  split
  case isFalse => exact .refl s'
  case isTrue here =>
  refine closed (by decide) (.of_inside (inside_of_isAt (by decide) here))
    ((bump s'.openNode).trans ?_)
  rw [Coupling.elseBody]
  split
  case isFalse => exact blocks _
  case isTrue next =>
  refine closed (by decide) (.of_inside (inside_of_isAt (by decide) next)) (ih _ ?_ _ rfl)
  have := List.length_pos_iff.mpr (Coupling.occupied_of_else_if here next)
  simp only [openNode, ahead_bump, List.length_tail]
  omega

theorem forRest (s : State) : Course s (forRest inner block s) :=
  (((binding constructs s).trans (expect .inWord _)).trans (constructs _ _)).trans (blocks _)

theorem functionRest (s : State) : Course s (functionRest inner block s) := by
  have returns (s : State) : Course s
      (if s.isAt .arrow then s.node .returnList fun s => Grammar.paramList inner s.bump else s) := by
    split
    case isTrue here =>
      exact node .returnList (by decide) (fun s => (bump s).trans (paramList constructs _))
        (inside_of_isAt (by decide) here)
    case isFalse => exact .refl s
  exact (((expect .ident s).trans (paramList constructs _)).trans (returns _)).trans (blocks _)

omit constructs blocks in
theorem statementEnd (s : State) : Course s (statementEnd s) := by
  rw [Grammar.statementEnd]
  split
  · exact .refl s
  case isFalse goes =>
  split
  · exact .unexpected _ s
  · refine .recover _ _ (Bool.eq_false_iff.mpr fun brace => goes ?_)
    have kind : s.kind = .rightBrace := beq_iff_eq.mp brace
    have member : syncKinds.contains .rightBrace = true := by decide
    rw [atStatementEnd, isAtAny, kind, member, Bool.true_or]

theorem statementBody (config : Config) (s : State) :
    Course s (statementBody config inner block s).2 := by
  have condition := (bump s).trans (constructs (.expr 0 conditionRecovery) _)
  have name := (bump s).trans (expect .ident _)
  rw [Grammar.statementBody]
  split
  · exact (bump s).trans (usingPath _)
  · exact (bump s).trans (letRest constructs config _)
  · exact ifChain constructs blocks s
  · exact condition.trans (blocks _)
  · exact (bump s).trans (blocks _)
  · exact (bump s).trans (forRest constructs blocks _)
  · exact .bump s
  · exact .bump s
  · exact .bump s
  · exact (bump s).trans (functionRest constructs blocks _)
  · exact name.trans (memberBody .packBody (by decide) _ (fun _ => packMember constructs) _)
  · exact name.trans (memberBody .unionBody (by decide) _ (fun _ => unionMember constructs) _)
  · split
    · exact constructs _ s
    split
    · exact .unexpected _ s
    case isFalse goes => exact .recover _ _ (not_atBrace goes)

/-- A statement that has begun takes a course, whether it has a body or not. -/
theorem nodeOf_statement (config : Config) (starts : atStatementStart config s = true) :
    Course s (nodeOf (statementNode config inner block) s) := by
  have starts' : atStatementStart config s.openNode = true := starts
  have body : Course s.openNode (statementNode config inner block s.openNode).2 :=
    ((annotations _).trans (statementBody constructs blocks config _)).trans (statementEnd _)
  have inside : s.atEnd = false := by
    rcases Bool.or_eq_true_iff.mp starts with word | expression
    · exact inside_of_isAtAny (by decide) word
    · exact inside_of_kind (kind_of_atExprStart expression).1
  by_cases error : (statementNode config inner block s.openNode).1 = .error
  · have left := leftover inside body (leftover_of_error rfl starts' error)
    rw [← error] at left
    exact left
  · exact closed error (.of_inside inside) body

/-- A statement that does not begin at a closing brace takes a course. -/
theorem statementItem (config : Config) (inside : s.isAt .rightBrace = false) :
    Course s (statementItem config inner block s) := by
  rw [Grammar.statementItem]
  split
  · exact .bump s
  cases starts : atStatementStart config s with
  | false =>
    rw [statement_of_other starts]
    exact within (recover "statement" .empty inside)
  | true =>
    rw [statement_of_start starts]
    exact within (nodeOf_statement constructs blocks config starts)

end Statements

/-- Blocks take a course: the statements in them do not begin at a closing brace. -/
theorem block (config : Config) (room : Nat) (s : State) : Course s (block config room s) := by
  induction room generalizing s with
  | zero =>
    rw [Grammar.block]
    split
    · exact .recoverTooDeep _ s
    · exact .placeholder _ s
  | succ room ih =>
    have items (s : State) : Course s
        (if s.isAt .rightBrace || s.atEnd then (false, s)
          else (true, Grammar.item config room s)).2 := by
      split
      case isTrue => exact .refl s
      case isFalse inside =>
        refine statementItem (construct config room) ih config ?_
        exact (Bool.or_eq_false_iff.mp (Bool.eq_false_iff.mpr inside)).1
    have body := during .block (withBreaks true (repeatStep items))
    rw [Grammar.block]
    split
    · exact nested (ending .block (by decide) (by decide) fun s => (bump s).trans (body _)) s
    · exact .placeholder _ s

/-- A statement that does not begin at a closing brace takes a course. -/
theorem item (config : Config) (room : Nat) (inside : s.isAt .rightBrace = false) :
    Course s (item config room s) :=
  statementItem (construct config room) (block config room) config inside

end Course

end LosslessSyntax.Grammar
