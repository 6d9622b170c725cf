import LosslessSyntax.Proofs.Grammar.ConstructEnds
import LosslessSyntax.Proofs.Grammar.Steps

/-! # Where statements end

A statement stops at a token on a new line as it does at the end. An `else` is the exception, which
goes on with a chain of conditions wherever it stands, so a token that starts anew is none. By
induction on the levels of nesting that are left, blocks settle (`demands_block`). So statements that
report nothing read the same where other statements follow them (`prolonged_statements`).
-/

namespace LosslessSyntax.Grammar

open State Coupling

variable {config : Config} {inner : ConstructRule} {block : State → State} {u : List Lookahead}
  {s t : State}

theorem demands_usingPath : Demands usingPath := by
  have name : Demands (State.expect .ident) := .expect (by decide)
  have parts : Settles (State.repeatStep pathStep) := by
    refine .loopWith (.kind (by decide)) (fun u u' => .repeatStep coupled_pathStep) ?_
    intro u s t prolonged some _ clean
    have bumped := prolonged.bump some
    have left : s.bump.ahead ≠ [] := fun none => name.fails bumped.proper none clean
    exact ⟨tested_isAt .ident (bumped.agree left), name.entered bumped left clean⟩
  exact .node .usingPath (.ifAt (by decide) (.comp parts .bump) name)

theorem demands_memberBody (kind : NodeKind) (what : String) {member : State → State}
    (steady : Steady member) : Demands (memberBody kind what member) := by
  have members : Steady fun s => s.withBreaks true (State.repeatStep (memberStep what member)) :=
    fun u u' => .withBreaks true (.repeatStep (coupled_memberStep what (steady u u')))
  have brace : Demands (State.expect .rightBrace) := .expect (by decide)
  have body := Enters.comp (brace.closing members).settles .bump
  exact .ifAt (by decide) (.node kind body) (.missing _)

theorem settles_statementEnd : Settles statementEnd where
  toEnters := .ite tested_atStatementEnd Settles.id.toEnters <|
    .ite (tested_isAtAny statementKinds) (Demands.unexpected _).toEnters
      (Demands.recover _ _).toEnters
  stopped := by
    intro u s t prolonged none _
    have ends : s.atStatementEnd = true := by
      rw [atStatementEnd, isAtAny, beq_iff_eq.mp (prolonged.proper.atEnd_iff.mpr none)]
      rfl
    have ends' : t.atStatementEnd = true := by
      rw [atStatementEnd, (prolonged.startsAnew none).2, Bool.or_true]
    rw [statementEnd, statementEnd, if_pos ends, if_pos ends']
    exact prolonged

section Chains

-- the chains over fewer than `most` tokens
variable (blocks : Demands block) {most : Nat} (chains : ∀ {s t : State}, Prolonged u s t →
  s.ahead ≠ [] → s.ahead.length < most → (ifChain inner block s).Clean →
  Prolonged u (ifChain inner block s) (ifChain inner block t))
include blocks chains

/-- What comes after an `else` cannot do without a token. -/
theorem elseBody_settled (prolonged : Prolonged u s t) (within : s.ahead.length < most)
    (clean : (elseBody inner block s).Clean) :
    Prolonged u (elseBody inner block s) (elseBody inner block t) := by
  have left : s.ahead ≠ [] := by
    intro none
    refine blocks.fails prolonged.proper none ?_
    rwa [elseBody, isAt_of_atEnd (by decide) (prolonged.proper.atEnd_iff.mpr none),
      if_neg Bool.false_ne_true] at clean
  rw [elseBody] at clean ⊢
  rw [elseBody, ← tested_isAt .ifWord (prolonged.agree left)]
  split at clean
  case isTrue next =>
    rw [if_pos next, if_pos next]
    exact .closeNode .ifStmt prolonged
      (chains prolonged.openNode left within ⟨clean.reports, clean.endReported⟩)
  case isFalse next =>
    rw [if_neg next, if_neg next]
    exact blocks.entered prolonged left clean

/-- A chain of conditions ends before a token that starts anew, since that is no `else`. -/
theorem elseBranch_settled (prolonged : Prolonged u s t) (within : s.ahead.length ≤ most)
    (clean : (elseBranch inner block s).Clean) :
    Prolonged u (elseBranch inner block s) (elseBranch inner block t) := by
  by_cases none : s.ahead = []
  · have stays : s.isAt .elseWord = false :=
      isAt_of_atEnd (by decide) (prolonged.proper.atEnd_iff.mpr none)
    have stays' : t.isAt .elseWord = false :=
      beq_eq_false_iff_ne.mpr (prolonged.startsAnew none).1.notElse
    rw [elseBranch, elseBranch, stays, stays', if_neg Bool.false_ne_true, if_neg Bool.false_ne_true]
    exact prolonged
  rw [elseBranch] at clean ⊢
  rw [elseBranch, ← tested_isAt .elseWord (prolonged.agree none)]
  split at clean
  case isTrue here =>
    rw [if_pos here, if_pos here]
    have some := List.length_pos_iff.mpr none
    have shorter : s.openNode.bump.ahead.length < most := by
      rw [ahead_bump, List.length_tail]
      change s.ahead.length - 1 < most
      omega
    exact .closeNode .elseBranch prolonged (elseBody_settled blocks chains
      (prolonged.openNode.bump none) shorter ⟨clean.reports, clean.endReported⟩)
  case isFalse here =>
    rw [if_neg here, if_neg here]
    exact prolonged

end Chains

section Statements

variable (demands : ∀ construct, Demands (inner construct))
include demands

theorem demands_letRest (config : Config) : Demands (letRest config inner) := by
  have value : Demands (inner (.expr 0 .empty)) := demands _
  have guess : Settles fun s =>
      if atExprStart config s && !s.atBreak then inner (.expr 0 .empty) s else s :=
    .continuing (.sameLine (tested_atExprStart config) fun _ => atExprStart_of_atEnd config)
      value.toEnters
  have rest : Demands fun s => if s.isAtSymbol "=" then inner (.expr 0 .empty) s.bump
      else
        let s := s.missing "`=`"
        if atExprStart config s && !s.atBreak then inner (.expr 0 .empty) s else s :=
    .ite (tested_isAtSymbol "=") (fun _ => isAtSymbol_of_atEnd "=") (.comp value.settles .bump)
      (.comp guess (.missing _))
  exact rest.closing fun u u' => coupled_binding (coupled_inner demands u u')

variable (blocks : Demands block)
include blocks

theorem enters_ifChain : Enters (ifChain inner block) := by
  have steady : Steady (ifChain inner block) :=
    fun u u' => coupled_ifChain (coupled_inner demands u u') (blocks.steady u u')
  have body : Steady (elseBody inner block) := fun u u' =>
    .ite (tested_isAt .ifWord) (.node .ifStmt (by decide) (steady u u')) (blocks.steady u u')
  have branch : Steady (elseBranch inner block) := fun u u' =>
    .ite (tested_isAt .elseWord) (.node .elseBranch (by decide) ((body u u').comp .bump)) .id
  have condition : Enters fun s => block (inner (.expr 0 conditionRecovery) s.bump) :=
    .comp blocks.settles (.comp (demands _).settles .bump)
  refine ⟨steady, fun {u s t} prolonged some clean => ?_⟩
  induction size : s.ahead.length using Nat.strongRecOn generalizing s t with
  | _ most ih =>
  have shrinks := (condition.steady.runs s).shrinks
  rw [ifChain_eq s shrinks] at clean ⊢
  rw [ifChain_eq t (condition.steady.runs t).shrinks]
  have first := condition.entered prolonged some (branch.before clean)
  refine elseBranch_settled blocks (fun prolonged some shorter clean => ?_) first (size ▸ shrinks)
    clean
  exact ih _ shorter prolonged some clean rfl

theorem demands_functionRest : Demands (functionRest inner block) := by
  have header : Steady fun s =>
      let s := paramList inner (s.expect .ident)
      if s.isAt .arrow then s.node .returnList fun s => paramList inner s.bump else s := by
    intro u u'
    have params := coupled_paramList (coupled_inner demands u u')
    exact (Coupled.ite (tested_isAt .arrow) (.node .returnList (by decide) (params.comp .bump))
      .id).comp (params.comp (.expect .ident))
  exact blocks.closing header

/-- A statement without its annotations, before a token with which it begins. -/
theorem statementBody_entered (config : Config) (prolonged : Prolonged u s t) (some : s.ahead ≠ [])
    (clean : (statementBody config inner block s).2.Clean) :
    (statementBody config inner block s).1 = (statementBody config inner block t).1 ∧
      Prolonged u (statementBody config inner block s).2 (statementBody config inner block t).2 := by
  have coupled := coupled_inner demands
  have agree := prolonged.agree some
  have then_ {r : State → State} (settles : Settles r) (clean : (r s.bump).Clean) :
      Prolonged u (r s.bump) (r t.bump) := settles.settled (prolonged.bump some) clean
  have condition : Steady fun s => inner (.expr 0 conditionRecovery) s :=
    fun u u' => coupled u u' _
  have header : Steady fun s => inner (.expr 0 conditionRecovery)
      ((binding inner s).expect .inWord) := fun u u' =>
    (coupled u u' _).comp ((Coupled.expect .inWord).comp (coupled_binding (coupled u u')))
  have name : Steady (State.expect .ident) := fun u u' => .expect .ident
  revert clean
  simp only [statementBody, ← agree.kind]
  split
  · exact fun clean => ⟨rfl, then_ demands_usingPath.settles clean⟩
  · exact fun clean => ⟨rfl, then_ (demands_letRest demands config).settles clean⟩
  · exact fun clean => ⟨rfl, (enters_ifChain demands blocks).entered prolonged some clean⟩
  · exact fun clean => ⟨rfl, then_ (blocks.closing condition).settles clean⟩
  · exact fun clean => ⟨rfl, then_ blocks.settles clean⟩
  · exact fun clean => ⟨rfl, then_ (blocks.closing header).settles clean⟩
  · exact fun _ => ⟨rfl, prolonged.bump some⟩
  · exact fun _ => ⟨rfl, prolonged.bump some⟩
  · exact fun _ => ⟨rfl, prolonged.bump some⟩
  · exact fun clean => ⟨rfl, then_ (demands_functionRest demands blocks).settles clean⟩
  · have members := demands_memberBody .packBody "pack member" fun u u' =>
      coupled_packMember (coupled u u')
    exact fun clean => ⟨rfl, then_ (members.closing name).settles clean⟩
  · have members := demands_memberBody .unionBody "union member" fun u u' =>
      coupled_unionMember (coupled u u')
    exact fun clean => ⟨rfl, then_ (members.closing name).settles clean⟩
  · rw [← tested_atExprStart config agree]
    split
    · exact fun clean => ⟨rfl, (demands _).entered prolonged some clean⟩
    split
    · exact fun clean => absurd clean (Accepts.not_clean_unexpected _ s)
    · exact fun clean => absurd clean (Accepts.not_clean_recover _ _ s)

omit demands blocks in
theorem statementBody_fails (config : Config) (atEnd : s.atEnd = true) :
    ¬ (statementBody config inner block s).2.Clean := by
  have kind : s.kind = .eof := beq_iff_eq.mp atEnd
  simp only [statementBody, kind, atExprStart_of_atEnd config atEnd, Bool.false_eq_true, ↓reduceIte]
  split
  · exact Accepts.not_clean_unexpected _ s
  · exact Accepts.not_clean_recover _ _ s

theorem enters_statementNode (config : Config) :
    Enters (nodeOf (statementNode config inner block)) := by
  have body : SteadyWith (statementBody config inner block) := fun u u' =>
    coupled_statementBody (coupled_inner demands u u') (blocks.steady u u') config
  have front : Steady annotations := fun u u' => coupled_annotations
  refine ⟨fun u u' => ?_, fun {u s t} prolonged some clean => ?_⟩
  · exact CoupledWith.nodeOf (fun _ => statementBody_ne_block config _)
      (((body u u').after (front u u')).thenKeep coupled_statementEnd)
  have ended : (statementEnd (statementBody config inner block (annotations s.openNode)).2).Clean :=
    ⟨clean.reports, clean.endReported⟩
  have said := settles_statementEnd.steady.before ended
  have left : (annotations s.openNode).ahead ≠ [] := fun none =>
    statementBody_fails config ((prolonged.openNode.proper.of_runs
      (front.runs s.openNode)).atEnd_iff.mpr none) said
  have begun := prolonged.openNode.steady front (said.of_runs (body.runs _)) left
  obtain ⟨kinds, whole⟩ := statementBody_entered demands blocks config begun left said
  simp only [nodeOf, statementNode, ← kinds]
  exact .closeNode _ prolonged (settles_statementEnd.settled whole ended)

/-- Statements settle if the blocks inside them do. -/
theorem demands_statementItem (config : Config) : Demands (statementItem config inner block) := by
  have statement : Demands (statement config inner block) := by
    rw [statement_eq]
    refine .during .statement (.ite (tested_atStatementStart config) (fun s atEnd => ?_)
      (enters_statementNode demands blocks config) (.recover _ _))
    rw [atStatementStart, atExprStart_of_atEnd config atEnd, isAtAny_of_atEnd rfl atEnd]
    rfl
  exact .ifAt (by decide) .bump statement

end Statements

/-- Blocks settle, however many levels may be entered. -/
theorem demands_block (config : Config) (room : Nat) : Demands (Grammar.block config room) := by
  induction room with
  | zero =>
    exact .ifAt (by decide) (Demands.recoverTooDeep config.maxDepth).toEnters (.placeholder _)
  | succ room ih =>
    have statements : Steady fun s => s.during .block (withBreaks true
        (items config room fun s => s.isAt .rightBrace || s.atEnd)) := fun u u' =>
      .during .block (.withBreaks true (coupled_items_of_block (ih.steady u u')
        ((tested_isAt .rightBrace).or tested_atEnd)))
    have brace : Demands (State.expect .rightBrace) := .expect (by decide)
    have body := Enters.comp (brace.closing statements).settles .bump
    exact .ifAt (by decide) (.nested (.node .block body)) (.placeholder _)

theorem demands_item (config : Config) (room : Nat) : Demands (item config room) :=
  demands_statementItem (demands_construct config room) (demands_block config room) config

/-- Statements that report nothing read the same where the tokens go on with others that start
anew. -/
theorem prolonged_statements {room count : Nat} (prolonged : Prolonged u s t)
    (clean : (statements config room count s).Clean) :
    Prolonged u (statements config room count s) (statements config room count t) := by
  induction count generalizing s t with
  | zero => exact prolonged
  | succ count ih =>
    have first := clean.of_runs (runs_statements count (item config room s))
    exact ih ((demands_item config room).settles.settled prolonged first) clean

end LosslessSyntax.Grammar
