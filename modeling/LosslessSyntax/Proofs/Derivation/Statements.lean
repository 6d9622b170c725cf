import LosslessSyntax.Proofs.Derivation.Sequences
import LosslessSyntax.Proofs.Grammar.BlockRun

/-! # Statements are derived

What the rules for statements read are statements, whatever the rules for constructs and blocks read
as constructs and blocks. By induction on the levels of nesting that are left, blocks are derived
too (`accepts_block`), and a sequence of items reads statements that are kept apart by semicolons or
line breaks (`accepts_items`).
-/

namespace LosslessSyntax.Grammar

open Phrase State Production

open scoped Computability

variable {table : OperatorTable} {config : Config} {inner : ConstructRule} {block : State → State}
  {s s' t t' : State}

/-- Tokens in which so many closing parentheses are left open. -/
def Closes : Nat → List Symbol → Prop
  | 0, word => word = []
  | level + 1, word => ∃ inside closing rest,
      Production.Balanced inside ∧ word = inside ++ .token .rightParen closing :: rest ∧ Closes level rest

/-- What a production sees of tokens. -/
def symbols (tokens : List Lookahead) : List Symbol :=
  tokens.map fun next => .token next.kind next.token.text

theorem closes_parenLength (level : Nat) (tokens : List Lookahead)
    (closed : (parenLength level tokens).2 = true) :
    Closes level (symbols (tokens.take (parenLength level tokens).1)) := by
  induction tokens generalizing level with
  | nil =>
    cases level with
    | zero => rfl
    | succ level => exact absurd closed Bool.false_ne_true
  | cons next rest ih =>
    cases level with
    | zero => simp [parenLength, symbols, Closes]
    | succ level =>
      rw [parenLength] at closed ⊢
      dsimp only at closed ⊢
      have inner := ih _ closed
      rw [List.take_succ_cons]
      change Closes (level + 1) (.token next.kind next.token.text :: symbols _)
      revert inner
      generalize symbols _ = word
      split
      case isTrue opening =>
        rw [beq_iff_eq.mp opening]
        rintro ⟨inside, closing, _, balanced, rfl, inside', closing', rest', balanced', rfl, closes⟩
        refine ⟨.token .leftParen next.token.text :: inside ++ .token .rightParen closing :: inside',
          closing', rest', .group balanced balanced', ?_, closes⟩
        simp
      case isFalse other =>
        split
        case isTrue closing =>
          rw [beq_iff_eq.mp closing]
          exact fun closes => ⟨[], next.token.text, word, .nil, rfl, closes⟩
        case isFalse other' =>
          rintro ⟨inside, closing, rest', balanced, rfl, closes⟩
          exact ⟨_ :: inside, closing, rest', .other (fun same => other (beq_iff_eq.mpr same))
            (fun same => other' (beq_iff_eq.mpr same)) balanced, rfl, closes⟩

theorem parenLength_le (level : Nat) (tokens : List Lookahead) :
    (parenLength level tokens).1 ≤ tokens.length := by
  induction tokens generalizing level with
  | nil => cases level <;> simp [parenLength]
  | cons next rest ih =>
    cases level with
    | zero => simp [parenLength]
    | succ level =>
      rw [parenLength, List.length_cons]
      exact Nat.succ_le_succ (ih _)

theorem Accepts.bumpMany (count : Nat) (s : State) (within : count ≤ s.ahead.length) :
    Accepts table (fun phrases => phrases = (s.ahead.take count).map .token) s
      (s.bumpMany count) := by
  induction count generalizing s with
  | zero =>
    refine (Accepts.refl s).mono fun phrases _ empty => ?_
    rw [List.take_zero]
    exact List.map_eq_nil_iff.mp empty
  | succ count ih =>
    cases ahead : s.ahead with
    | nil => rw [ahead] at within; exact absurd within (Nat.not_succ_le_zero count)
    | cons next rest =>
      have bumped : s.bump.ahead = rest := by rw [ahead_bump, ahead, List.tail_cons]
      intro clean
      obtain ⟨between, reads⟩ := ih s.bump (by
        rw [bumped]; rw [ahead] at within; exact Nat.le_of_succ_le_succ within) clean
      refine ⟨between.of_runs (Runs.bump s), fun finish => ?_⟩
      obtain ⟨phrases, read, derived, rfl⟩ := reads (by rw [(Runs.bump s).finish, finish])
      refine ⟨_, (Reads.bump ahead).trans read, ?_, ?_⟩
      · exact List.forall_mem_cons.mpr ⟨.token next, derived⟩
      · rw [bumped]
        rfl

theorem accepts_annotationArgs (here : s.isAt .leftParen = true) :
    Accepts table (Spells (node [.annotationArgs])) s (annotationArgs s) := by
  have opened : Accepts table (Spells (token .leftParen)) s.openNode s.openNode.bump :=
    .token here (by decide)
  have rest (t : State) : Accepts table (Spells (balanced * token .rightParen)) t
      (if (parenLength 1 t.ahead).2 then t.bumpMany (parenLength 1 t.ahead).1
        else (t.bumpMany (parenLength 1 t.ahead).1).unexpected "`)`") := by
    split
    case isFalse => exact .of_reported (Accepts.not_clean_unexpected _ _)
    case isTrue closed =>
      refine (Accepts.bumpMany _ t (parenLength_le 1 t.ahead)).mono fun phrases _ same => ?_
      obtain ⟨inside, closing, rest, balanced, split, rfl⟩ := closes_parenLength 1 t.ahead closed
      have word : phrases.map symbol = inside ++ [.token .rightParen closing] := by
        rw [same, List.map_map, ← split]
        rfl
      rw [Spells, word]
      exact Language.append_mem_mul balanced ⟨closing, rfl⟩
  exact Accepts.node ((opened.seq (rest _)).le (mul_assoc _ _ _).symm.le) (by decide) le_rfl

theorem accepts_annotationUse (here : s.isAt .annotationMark = true) :
    Accepts table (Spells (node [.annotationUse])) s (annotationUse s) := by
  have arguments (t : State) : Accepts table (Spells (optional (node [.annotationArgs]))) t
      (if t.isAt .leftParen && !t.atBreak then annotationArgs t else t) := by
    split
    case isTrue opens => exact .maybe (accepts_annotationArgs (Bool.and_eq_true_iff.mp opens).1)
    case isFalse => exact .skip t
  exact Accepts.node ((Accepts.token (s := s.openNode) here (by decide)).seq (arguments _))
    (by decide) le_rfl

theorem accepts_annotations (s : State) :
    Accepts table (Spells ((node [.annotationUse])∗)) s (annotations s) := by
  refine repeatStep_invariant
    (motive := fun t => Accepts table (Spells ((node [.annotationUse])∗)) s t) (fun t front => ?_) s
    ((Accepts.refl s).le one_le_kstar)
  split
  case isTrue here => exact (front.seq (accepts_annotationUse here)).le kstar_mul_le_kstar
  case isFalse => exact front

/-- The words that a member and the comma after it spell. -/
def memberWords (kind : NodeKind) : Language Symbol := node [kind] * optional (token .comma)

theorem part_of_member {kind : NodeKind} {phrases : List Phrase}
    (spells : Spells (node [kind]) phrases) (here : t.isAt .ident = true)
    (ends : (t'.isAt .rightBrace || t'.atBreak) = true) :
    Part [kind] (memberWords kind) (isAt .ident) t t' phrases := by
  obtain ⟨inside, -, children, rfl⟩ := spells.exists_node
  refine ⟨List.cons_ne_nil _ _, ?_, .singleton _, fun _ _ _ => here, fun _ _ _ begins => ?_⟩
  · exact spells.mono (le_trans (mul_one _).symm.le (mul_le_mul_right le_self_add _))
  · rw [isAt, beq_iff_eq] at begins
    rw [isAt, begins, show (TokenKind.ident == TokenKind.rightBrace) = false from rfl,
      Bool.false_or] at ends
    exact (Bool.and_eq_true_iff.mp ends).2

theorem part_of_member_comma {kind : NodeKind} {front back : List Phrase}
    (spells : Spells (node [kind]) front) (comma : Spells (token .comma) back)
    (here : t.isAt .ident = true) :
    Part [kind] (memberWords kind) (isAt .ident) t t' (front ++ back) := by
  obtain ⟨inside, -, children, rfl⟩ := spells.exists_node
  have word := (spells.append comma).mono
    (mul_le_mul_right (le_add_self : _ ≤ optional (token .comma)) _)
  obtain ⟨next, rfl⟩ := comma.exists_token
  refine ⟨List.cons_ne_nil _ _, word, ?_, fun _ _ _ => here, fun last isLast held => ?_⟩
  · rw [List.singleton_append, List.isChain_cons]
    exact ⟨fun _ isFirst => Option.some.inj isFirst ▸ beside_token_right _ next, .singleton _⟩
  · obtain rfl := Option.some.inj isLast
    obtain ⟨kind, -, symbol⟩ := List.mem_map.mp held
    exact Symbol.noConfusion symbol

theorem accepts_memberStep {kind : NodeKind} {what : String} {member : State → State}
    (accepts : ∀ s, s.isAt .ident = true → Accepts table (Spells (node [kind])) s (member s))
    (front : Accepts table (Sequence [kind] (memberWords kind) (isAt .ident) t) s t) :
    let t' := (memberStep what member t).2
    Accepts table (Sequence [kind] (memberWords kind) (isAt .ident) t') s t' := by
  have recovered (expected : String) (u : State) :
      ¬ ((u.recover expected memberRecovery).eat .comma).Clean := fun clean =>
    Accepts.not_clean_recover _ _ u (clean.of_runs (Runs.of_coupled (.eat .comma) _))
  dsimp only
  rw [memberStep]
  split
  case isTrue => exact front
  split
  case isTrue => exact .of_reported (recovered what t)
  case isFalse here =>
    have here : t.isAt .ident = true := by simpa using here
    dsimp only
    split
    case isTrue comma =>
      refine front.sequence (((accepts t here).trans (.token comma (by decide))).mono ?_)
      rintro phrases - ⟨front, back, rfl, spells, comma⟩
      exact part_of_member_comma spells comma here
    split
    case isTrue ends =>
      exact front.sequence ((accepts t here).mono fun _ _ spells =>
        part_of_member spells here ends)
    case isFalse => exact .of_reported (recovered _ _)

theorem accepts_memberBody {kind body : NodeKind} {what : String} {member : State → State}
    (held : separation? body = some ([kind], .comma))
    (plain : body ≠ .root ∧ body ≠ .prefixExpr ∧ body ≠ .binaryExpr)
    (allowed : Production.braced (members kind) ≤ production table body)
    (accepts : ∀ s, s.isAt .ident = true → Accepts table (Spells (node [kind])) s (member s))
    (s : State) : Accepts table (Spells (node [body])) s (memberBody body what member s) := by
  rw [memberBody]
  split
  case isFalse => exact .of_reported (Accepts.not_clean_missing _ s)
  case isTrue here =>
    have list := @repeatStep_invariant (memberStep what member)
      (fun t => Accepts table (Sequence [kind] (memberWords kind) (isAt .ident) t) _ t)
      (fun t front => accepts_memberStep accepts front) (s.openNode.bump.pushBreaks true)
      ((Accepts.refl _).mono fun _ _ empty => by
        rw [List.map_eq_nil_iff.mp empty]
        exact .nil _ _ _ _)
    exact Accepts.braced here held plain allowed
      (list.withBreaks.mono fun _ _ sequence => ⟨_, _, sequence⟩)

/-- A statement with its annotations, with what follows it on the same line. -/
def completeStatement (config : Config) (inner : ConstructRule) (block : State → State) (s : State) :
    NodeKind × State :=
  let body := statementBody config inner block (annotations s)
  (body.1, statementEnd body.2)

section Parts

variable (reads : Inner table inner) (blocks : ∀ s, Accepts table (Spells Production.block) s (block s))
include reads

/-- A type after a colon, where there is one. -/
theorem Inner.typeAnnotation (test : State → Bool) (colon : ∀ s, test s = true → s.isAt .colon = true)
    (s : State) : Accepts table (Spells (optional typeAnnotation)) s
      (if test s then inner (.type .empty) s.bump else s) := by
  split
  case isTrue here => exact .maybe ((Accepts.token (colon s here) (by decide)).seq (reads.type _ _))
  case isFalse => exact .skip s

theorem Inner.binding (s : State) :
    Accepts table (Spells (node [.binding])) s (Grammar.binding inner s) := by
  have name (t : State) : Accepts table (Spells (token .ident)) t
      (if t.isAt .ident then t.bump
      else if t.atSync bindingRecovery then t.missing "identifier"
      else t.recover "identifier" bindingRecovery) := by
    split
    case isTrue here => exact .token here (by decide)
    split
    · exact .of_reported (Accepts.not_clean_missing _ t)
    · exact .of_reported (Accepts.not_clean_recover _ _ t)
  exact Accepts.node ((name s.openNode).seq (reads.typeAnnotation
    (fun s => s.isAt .colon && !s.atBreak) (fun _ both => (Bool.and_eq_true_iff.mp both).1) _))
    (by decide) le_rfl

theorem Inner.param (here : s.isAt .ident = true) :
    Accepts table (Spells (node [.param])) s (Grammar.param inner s) :=
  Accepts.node ((Accepts.token (s := s.openNode) here (by decide)).seq
    (reads.typeAnnotation (isAt .colon) (fun _ colon => colon) _)) (by decide) le_rfl

theorem Inner.paramList (s : State) :
    Accepts table (Spells (node [.paramList])) s (Grammar.paramList inner s) := by
  rw [Grammar.paramList]
  split
  case isTrue here =>
    refine .delimited "parameter" here (by decide) ?_ (fun _ s name => reads.param name) (by decide)
      le_rfl
    exact starts_of_kinds [.ident] (fun _ name => by simpa [isAt] using name) (by decide)
  case isFalse => exact .of_reported (Accepts.not_clean_missing _ s)

theorem Inner.packMember (here : s.isAt .ident = true) :
    Accepts table (Spells (node [.packMember])) s (Grammar.packMember inner s) := by
  have type (t : State) : Accepts table (Spells Production.typeAnnotation) t
      (if t.isAt .colon then inner (.type .empty) t.bump
      else
        let t := t.missing "`:`"
        if atTypeStart t && !t.atBreak then inner (.type .empty) t else t) := by
    split
    case isTrue colon => exact (Accepts.token colon (by decide)).seq (reads.type _ _)
    case isFalse =>
      dsimp only
      split
      · exact .of_reported fun clean =>
          Accepts.not_clean_missing _ t (reads.type .empty _ clean).1
      · exact .of_reported (Accepts.not_clean_missing _ t)
  exact Accepts.node ((Accepts.token (s := s.openNode) here (by decide)).seq (type _)) (by decide)
    le_rfl

theorem Inner.unionMember (here : s.isAt .ident = true) :
    Accepts table (Spells (node [.unionMember])) s (Grammar.unionMember inner s) := by
  have types (t : State) : Accepts table (Spells (optional (node [.typeList]))) t
      (if t.isAt .leftParen && !t.atBreak then Grammar.typeList inner t else t) := by
    split
    case isTrue opens => exact .maybe (reads.typeList (Bool.and_eq_true_iff.mp opens).1)
    case isFalse => exact .skip t
  exact Accepts.node ((Accepts.token (s := s.openNode) here (by decide)).seq (types _)) (by decide)
    le_rfl

omit reads in
theorem accepts_usingPath (s : State) :
    Accepts table (Spells (node [.usingPath])) s (usingPath s) := by
  have path (t : State) : Accepts table (Spells (token .ident * (token .dot * token .ident)∗)) t
      (if t.isAt .ident then
        t.bump.repeatStep fun t =>
          if t.isAt .dot && !t.atBreak then (t.bump.isAt .ident, t.bump.expect .ident) else (false, t)
      else t.expect .ident) := by
    split
    case isFalse =>
      exact (Accepts.expect .ident (by decide) t).le
        (le_trans (mul_one _).symm.le (mul_le_mul_right one_le_kstar _))
    case isTrue here =>
      refine (Accepts.token here (by decide)).seq ?_
      refine repeatStep_invariant
        (motive := fun u => Accepts table (Spells ((token .dot * token .ident)∗)) t.bump u)
        (fun u front => ?_) t.bump ((Accepts.refl _).le one_le_kstar)
      split
      case isFalse => exact front
      case isTrue dot =>
        exact (front.seq ((Accepts.token (Bool.and_eq_true_iff.mp dot).1 (by decide)).seq
          (.expect .ident (by decide) u.bump))).le kstar_mul_le_kstar
  exact Accepts.node (path s.openNode) (by decide) le_rfl

theorem Inner.letRest (s : State) :
    Accepts table (Spells (node [.binding] * (operator (· == "=") * Production.expression))) s
      (Grammar.letRest config inner s) := by
  have value (t : State) : Accepts table (Spells (operator (· == "=") * Production.expression)) t
      (if t.isAtSymbol "=" then inner (.expr 0 .empty) t.bump
      else
        let t := t.missing "`=`"
        if atExprStart config t && !t.atBreak then inner (.expr 0 .empty) t else t) := by
    split
    case isTrue here => exact (Accepts.isAtSymbol here).seq (reads.expression _ _ _)
    case isFalse =>
      dsimp only
      split
      · exact .of_reported fun clean =>
          Accepts.not_clean_missing _ _ (reads.expression _ _ _ clean).1
      · exact .of_reported (Accepts.not_clean_missing _ _)
  exact (reads.binding s).seq (value _)

include blocks

theorem Inner.ifChain (s : State) (here : s.isAt .ifWord = true) :
    Accepts table (Spells (token .ifWord * (Production.expression * (Production.block *
      optional (node [.elseBranch]))))) s (Grammar.ifChain inner block s) := by
  induction size : s.ahead.length using Nat.strongRecOn generalizing s with
  | _ n ih =>
    have first := (Accepts.token here (by decide)).seq
      ((reads.expression 0 conditionRecovery s.bump).seq (blocks _))
    have whole {u : State} (branch : Accepts table (Spells (optional (node [.elseBranch])))
        (block (inner (.expr 0 conditionRecovery) s.bump)) u) :=
      (first.seq branch).le (by rw [mul_assoc, mul_assoc])
    rw [Coupling.ifChain_unfold]
    revert whole
    generalize block (inner (.expr 0 conditionRecovery) s.bump) = t
    intro whole
    have word (other : t.isAt .elseWord = true) :
        Accepts table (Spells (token .elseWord)) t.openNode t.openNode.bump :=
      .token other (by decide)
    dsimp only
    split
    case isFalse => exact whole (.skip t)
    case isTrue other =>
      split
      case isFalse =>
        refine whole (.maybe (.node ((word other).seq (blocks _)) (by decide) ?_))
        exact mul_le_mul_right le_self_add _
      case isTrue next =>
        split
        case isFalse => exact whole (.skip t)
        case isTrue shorter =>
          have chain := ih _ (size ▸ shorter) t.openNode.bump.openNode next rfl
          refine whole (.maybe (.node ((word other).seq (.node chain (by decide) ?_)) (by decide) ?_))
          · exact le_trans (one_mul _).symm.le (mul_le_mul_left one_le_kstar _)
          · exact mul_le_mul_right le_add_self _

theorem Inner.forRest (s : State) :
    Accepts table (Spells (node [.binding] * (token .inWord * (Production.expression *
      Production.block)))) s (Grammar.forRest inner block s) :=
  (((reads.binding s).seq (.expect .inWord (by decide) _)).seq
    ((reads.expression _ _ _).seq (blocks _))).le (by rw [mul_assoc])

theorem Inner.functionRest (s : State) :
    Accepts table (Spells (token .ident * (node [.paramList] * (optional (node [.returnList]) *
      Production.block)))) s (Grammar.functionRest inner block s) := by
  have results (t : State) : Accepts table (Spells (optional (node [.returnList]))) t
      (if t.isAt .arrow then t.node .returnList fun t => Grammar.paramList inner t.bump else t) := by
    split
    case isFalse => exact .skip t
    case isTrue here =>
      exact .maybe (.node ((Accepts.token (s := t.openNode) here (by decide)).seq
        (reads.paramList _)) (by decide) le_rfl)
  exact (Accepts.expect .ident (by decide) s).seq ((reads.paramList _).seq
    ((results _).seq (blocks _)))

omit reads blocks in
/-- Where a statement is complete, no other one begins on the same line. -/
theorem afterBreak_of_statementEnd (ends : s.atStatementEnd = true)
    (begins : atStatementStart config s = true) : s.current.afterBreak = true := by
  have other : syncKinds.contains s.kind = false := by
    rw [atStatementStart, Bool.or_eq_true] at begins
    have listed : ∀ kind ∈ Grammar.statementKinds.members ++ (literalKinds.members ++
        [.ident, .leftParen, .leftBracket, .symbol]), syncKinds.contains kind = false := by decide
    refine listed s.kind (List.mem_append.mpr ?_)
    exact begins.imp List.contains_iff_mem.mp mem_of_atExprStart
  rw [atStatementEnd, isAtAny, other, Bool.false_or] at ends
  exact (Bool.and_eq_true_iff.mp ends).2

omit reads blocks in
theorem accepts_statementEnd (s : State) :
    Accepts table (fun phrases => phrases = [] ∧ (statementEnd s).atStatementEnd = true) s
      (statementEnd s) := by
  rw [statementEnd]
  split
  case isTrue ends =>
    exact (Accepts.refl s).mono fun phrases _ empty => ⟨List.map_eq_nil_iff.mp empty, ends⟩
  split
  · exact .of_reported (Accepts.not_clean_unexpected _ s)
  · exact .of_reported (Accepts.not_clean_recover _ _ s)

/-- A statement after its annotations. -/
theorem Inner.statementBody (notes : Accepts table (Spells ((node [.annotationUse])∗)) s t) :
    let body := Grammar.statementBody config inner block t
    Accepts table (fun phrases => body.1 ∈ Production.statementKinds ∧
      Spells (production table body.1) phrases) s body.2 := by
  have keyword {kind : TokenKind} {rest : Language Symbol} {u : State} (here : t.kind = kind)
      (inside : kind ≠ .eof) (accepts : Accepts table (Spells rest) t.bump u) :
      Accepts table (Spells (annotated kind rest)) s u :=
    notes.seq ((Accepts.token (beq_iff_eq.mpr here) inside).seq accepts)
  have named (kind : NodeKind) {u : State} (member : kind ∈ Production.statementKinds)
      (accepts : Accepts table (Spells (production table kind)) s u) :
      Accepts table (fun phrases => kind ∈ Production.statementKinds ∧
        Spells (production table kind) phrases) s u := accepts.mono fun _ _ spells => ⟨member, spells⟩
  dsimp only
  rw [Grammar.statementBody]
  split
  case h_1 here => exact named .usingStmt (by decide) (keyword here (by decide) (accepts_usingPath _))
  case h_2 here => exact named .letStmt (by decide) (keyword here (by decide) (reads.letRest _))
  case h_3 here =>
    exact named .ifStmt (by decide) (notes.seq (reads.ifChain blocks t (beq_iff_eq.mpr here)))
  case h_4 here =>
    exact named .whileStmt (by decide)
      (keyword here (by decide) ((reads.expression _ _ _).seq (blocks _)))
  case h_5 here => exact named .loopStmt (by decide) (keyword here (by decide) (blocks _))
  case h_6 here => exact named .forStmt (by decide) (keyword here (by decide) (reads.forRest blocks _))
  case h_7 here => exact named .breakStmt (by decide) (keyword here (by decide) (.refl _))
  case h_8 here => exact named .continueStmt (by decide) (keyword here (by decide) (.refl _))
  case h_9 here => exact named .returnStmt (by decide) (keyword here (by decide) (.refl _))
  case h_10 here => exact named .functionDecl (by decide) (keyword here (by decide) (reads.functionRest blocks _))
  case h_11 here =>
    exact named .packDecl (by decide) <| keyword here (by decide) <| (Accepts.expect .ident (by decide) _).seq
      (accepts_memberBody rfl (by decide) le_rfl (fun s name => reads.packMember name) _)
  case h_12 here =>
    exact named .unionDecl (by decide) <| keyword here (by decide) <| (Accepts.expect .ident (by decide) _).seq
      (accepts_memberBody rfl (by decide) le_rfl (fun s name => reads.unionMember name) _)
  case h_13 =>
    split
    case isTrue => exact named .exprStmt (by decide) (notes.seq (reads.expression _ _ _))
    split
    · exact .of_reported (Accepts.not_clean_unexpected _ t)
    · exact .of_reported (Accepts.not_clean_recover _ _ t)

/-- The words that an item spells. -/
def itemWords : Language Symbol := token .semicolon + node Production.statementKinds

theorem Inner.completeStatement (s : State) (here : atStatementStart config s = true) :
    let s' := s.nodeOf (Grammar.completeStatement config inner block)
    Accepts table (fun phrases => Spells (node Production.statementKinds) phrases ∧
      atStatementStart config s = true ∧ s'.atStatementEnd = true) s s' := by
  have plain : ∀ kind ∈ Production.statementKinds,
      separation? kind = none ∧ kind ≠ .prefixExpr ∧ kind ≠ .binaryExpr := by decide
  have body := @Inner.statementBody table config inner block s.openNode _ reads blocks
    (accepts_annotations s.openNode)
  revert body
  simp only [nodeOf, Grammar.completeStatement]
  generalize Grammar.statementBody config inner block (annotations s.openNode) = body
  intro accepts
  refine ((accepts.trans (accepts_statementEnd body.2)).closeNode fun children within split => ?_).mono
    fun phrases _ form => ?_
  · obtain ⟨front, -, rfl, ⟨member, spells⟩, rfl, -⟩ := split
    rw [List.append_nil] at within ⊢
    exact Accepts.derived_of_plain (plain _ member) le_rfl within spells
  · obtain ⟨children, rfl, front, -, rfl, ⟨member, -⟩, -, ends⟩ := form
    exact ⟨⟨_, member, rfl⟩, here, ends⟩

theorem Inner.statement (s : State) :
    let s' := Grammar.statement config inner block s
    Accepts table (Part Production.statementKinds itemWords (atStatementStart config) s s') s s' := by
  dsimp only
  by_cases here : atStatementStart config s = true
  case neg =>
    have same : Grammar.statement config inner block s =
        s.during .statement fun s => s.recover "statement" .empty := by
      rw [statement_eq]
      exact congrArg (fun inner : State => { inner with phases := inner.phases.tail }) (if_neg here)
    rw [same]
    exact .during .statement (.of_reported (Accepts.not_clean_recover _ _ _))
  case pos =>
    have same : Grammar.statement config inner block s =
        s.during .statement fun s => s.nodeOf (Grammar.completeStatement config inner block) :=
      congrArg (fun inner : State => { inner with phases := inner.phases.tail }) (if_pos here)
    rw [same]
    have form := reads.completeStatement blocks { s with phases := .statement :: s.phases } here
    refine .during .statement (form.mono fun phrases _ form => ?_)
    obtain ⟨spells, begins, ends⟩ := form
    refine ⟨?_, spells.mono le_add_self, ?_, fun _ _ _ => begins, fun _ _ _ begins' => ?_⟩
    · obtain ⟨kind, -, children, rfl⟩ := spells.exists_node
      exact List.cons_ne_nil _ _
    · obtain ⟨kind, -, children, rfl⟩ := spells.exists_node
      exact .singleton _
    · exact afterBreak_of_statementEnd ends begins'

theorem Inner.statementItem (s : State) :
    let s' := Grammar.statementItem config inner block s
    Accepts table (Part Production.statementKinds itemWords (atStatementStart config) s s') s s' := by
  dsimp only
  rw [Grammar.statementItem]
  split
  case isFalse => exact reads.statement blocks s
  case isTrue here =>
    refine (Accepts.token here (by decide)).mono fun phrases _ spells => ?_
    have word : Spells itemWords phrases := spells.mono le_self_add
    obtain ⟨next, rfl⟩ := spells.exists_token
    have other : ∀ other ∈ ([.token next] : List Phrase).head?,
        other.symbol ∉ Production.statementKinds.map Symbol.node := fun _ isHead member => by
      obtain ⟨kind, -, symbol⟩ := List.mem_map.mp member
      exact Symbol.noConfusion (Option.some.inj isHead ▸ symbol)
    exact ⟨List.cons_ne_nil _ _, word, .singleton _, fun first isFirst held =>
      absurd held (other first isFirst), fun last isLast held => absurd held (other last isLast)⟩

end Parts

/-- A loop over items reads a sequence of statements that are kept apart. -/
theorem accepts_items {room : Nat} {stop : State → Bool}
    (reads : Inner table (construct config room))
    (blocks : ∀ s, Accepts table (Spells Production.block) s (Grammar.block config room s))
    (s : State) :
    let s' := items config room stop s
    Accepts table (Sequence Production.statementKinds itemWords (atStatementStart config) s') s s' := by
  refine repeatStep_invariant (motive := fun t => Accepts table
    (Sequence Production.statementKinds itemWords (atStatementStart config) t) s t)
    (fun t front => ?_) s ((Accepts.refl s).mono fun _ _ empty => ?_)
  · split
    · exact front
    · exact front.sequence (reads.statementItem blocks t)
  · rw [List.map_eq_nil_iff.mp empty]
    exact .nil _ _ _ _

/-- Blocks are derived, however many levels may be entered. -/
theorem accepts_block (config : Config) (room : Nat) (s : State) :
    Accepts config.operators (Spells Production.block) s (Grammar.block config room s) := by
  induction room generalizing s with
  | zero =>
    rw [Grammar.block]
    split
    · exact .of_reported (Accepts.not_clean_recoverTooDeep _ s)
    · exact .of_reported (Accepts.not_clean_placeholder _ s)
  | succ room ih =>
    rw [Grammar.block]
    split
    case isFalse => exact .of_reported (Accepts.not_clean_placeholder _ s)
    case isTrue here =>
      refine .nested (Accepts.braced here rfl (by decide) le_rfl (.during .block ?_))
      have items (t : State) := @accepts_items _ config room endsBlock (inner_construct config room) ih t
      exact (items _).withBreaks.mono fun _ _ sequence => ⟨_, _, sequence⟩

end LosslessSyntax.Grammar
