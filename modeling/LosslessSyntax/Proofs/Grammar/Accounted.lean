import LosslessSyntax.Proofs.Grammar.Course
import LosslessSyntax.Proofs.Grammar.Steps
import LosslessSyntax.Proofs.Tree.Each

/-! # Error nodes are accounted for

Every error node that the grammar leaves has a reason that the reports of the run show: the first
token in it is reported, or the token after it if it is empty, or it comes at the end of the text,
which has been reported (`Accounted`). Inside of blocks it is also tame: braces do not close more
groups in it than are opened there (`Tame`). And where any node begins that no token follows, the end
is reported. All this is said in view of a later state of the run, which holds all reports made
before. A course preserves it action by action (`Course.each`), and a sequence of statements statement
by statement (`settled_statements`).
-/

namespace LosslessSyntax.Grammar

open State Outline

variable {s s' t : State}

/-- The significant tokens that are left. -/
def State.tokens (s : State) : List Token := s.ahead.map (·.token)

theorem State.Proper.atEnd_of_tokens (proper : s.Proper) (none : s.tokens = []) : s.atEnd = true :=
  proper.atEnd_iff.mpr (List.map_eq_nil_iff.mp none)

theorem State.Proper.tokens_ne_nil (proper : s.Proper) (inside : s.atEnd = false) : s.tokens ≠ [] :=
  fun none => Bool.false_ne_true (inside.symm.trans (proper.atEnd_of_tokens none))

theorem State.tokens_of_append {passed : List Lookahead} (split : s.ahead = passed ++ s'.ahead) :
    s.tokens = passed.map (·.token) ++ s'.tokens := by
  rw [tokens, split, List.map_append, tokens]

/-- A state has all that has been reported in another one. -/
structure Later (s t : State) : Prop where
  kept : ∀ d ∈ s.reports.items, d ∈ t.reports.items
  known : s.endReported = true → t.endReported = true

theorem Reporting.later (reporting : Reporting s s') : Later s s' :=
  ⟨reporting.kept, reporting.known⟩

theorem Later.trans {u : State} (first : Later s t) (second : Later t u) : Later s u :=
  ⟨fun d member => second.kept d (first.kept d member), fun known => second.known (first.known known)⟩

/-- A token that is not expected, or at which something nests too deeply, has been reported. -/
def Reported (t : State) (span : Span) : Prop :=
  ∃ d ∈ t.reports.items, (d.code = .unexpectedToken ∨ d.code = .nestingTooDeep) ∧ d.span = span

/-- Why there is an error node over some outlines, which begins at the first of some tokens. -/
structure Accounted (t : State) (tokens : List Token) (children : List Outline) : Prop where
  /-- The first token that is a child is reported. -/
  first : ∀ next, (direct tokens children).head? = some next → Reported t next.span
  /-- If there are no children, the token after it is reported, or there is none and that is. -/
  absent : children = [] → (∃ next, tokens.head? = some next ∧ Reported t next.span) ∨
    (tokens = [] ∧ t.endReported = true)
  /-- If there is no token, the end is reported. -/
  ended : tokens = [] → t.endReported = true
  /-- If nothing has been reported, it comes at the end. -/
  last : t.reports.items = [] →
    direct tokens children = [] ∧ tokens.drop (countAll children) = [] ∧ t.endReported = true

/-- What an error node that begins at the first of some tokens takes of the brackets around it. -/
structure Tame (t : State) (tokens : List Token) (children : List Outline) : Prop where
  /-- Closing braces are no more than brackets that open. -/
  bracketed : Covered (· == .rightBrace) (·.closer?.isSome) 0
    ((direct tokens children).map (·.kind))
  /-- Closing braces are no more than opening ones, unless something nests too deeply. -/
  braced : Braced ((direct tokens children).map (·.kind)) ∨
    ∃ next d, (direct tokens children).head? = some next ∧ d ∈ t.reports.items ∧
      d.code = .nestingTooDeep ∧ d.span = next.span

theorem Tame.of_braced {tokens : List Token} {children : List Outline}
    (braced : Braced ((direct tokens children).map (·.kind))) : Tame t tokens children := by
  refine ⟨braced.mono (fun _ => id) fun kind opens => ?_, .inl braced⟩
  rw [beq_iff_eq.mp opens]
  rfl

theorem Tame.of_nodes {tokens : List Token} {children : List Outline}
    (none : direct tokens children = []) : Tame t tokens children := by
  apply of_braced
  rw [none]
  exact .nil

/-- What is true of the nodes that a course leaves. -/
structure Sound (t : State) (kind : NodeKind) (tokens : List Token) (children : List Outline) :
    Prop where
  /-- At the end of the text, the end is reported. -/
  ended : tokens = [] → t.endReported = true
  /-- Error nodes have a reason. -/
  accounted : kind = .error → Accounted t tokens children
  /-- Error nodes do not take the braces of others. -/
  tame : kind = .error → Tame t tokens children

namespace Sound

variable {kind : NodeKind} {tokens : List Token} {children : List Outline}

theorem of_other (other : kind ≠ .error) (ended : tokens = [] → t.endReported = true) :
    Sound t kind tokens children :=
  ⟨ended, fun error => absurd error other, fun error => absurd error other⟩

theorem of_error (accounted : Accounted t tokens children) (tame : Tame t tokens children) :
    Sound t .error tokens children := ⟨accounted.ended, fun _ => accounted, fun _ => tame⟩

end Sound

section Nodes

variable {passed after : List Lookahead}

/-- A node of tokens of which the first is reported. -/
theorem accounted_passed (more : passed ≠ []) {next : Lookahead} {rest : List Lookahead}
    (ahead : passed ++ after = next :: rest) (reported : Reported t next.token.span) :
    Accounted t ((passed ++ after).map (·.token)) (List.replicate passed.length .token) := by
  obtain ⟨first, others, rfl⟩ := List.exists_cons_of_ne_nil more
  obtain ⟨rfl, -⟩ := List.cons.inj ahead
  have ⟨d, member, _⟩ := reported
  refine ⟨fun first head => ?_, fun none => absurd none (by simp),
    fun none => absurd none (List.cons_ne_nil _ _), fun none => ?_⟩
  · rw [direct_replicate] at head
    exact Option.some.inj head ▸ reported
  · exact absurd (none ▸ member) List.not_mem_nil

/-- An empty node at a token that is reported, or at the end. -/
theorem accounted_nil {tokens : List Token}
    (reported : (∃ next, tokens.head? = some next ∧ Reported t next.span) ∨
      (tokens = [] ∧ t.endReported = true)) : Accounted t tokens [] := by
  refine ⟨nofun, fun _ => reported, fun none => ?_, fun none => ?_⟩
  · rcases reported with ⟨_, head, -⟩ | ⟨-, ended⟩
    · rw [none] at head
      exact nomatch head
    · exact ended
  · rcases reported with ⟨_, -, d, member, -⟩ | ⟨rfl, ended⟩
    · exact absurd (none ▸ member) List.not_mem_nil
    · exact ⟨rfl, rfl, ended⟩

theorem kinds_direct_passed :
    (direct ((passed ++ after).map (·.token)) (List.replicate passed.length .token)).map (·.kind) =
      passed.map (·.kind) := by
  rw [direct_replicate, List.map_append, List.take_left' (List.length_map _), List.map_map]
  rfl

end Nodes

/-- The token that a rule reports at a state is reported later, or the end is. -/
theorem reported_unexpected {expected : String} (proper : s.Proper)
    (later : Later (s.unexpected expected) t) :
    (∃ next, s.tokens.head? = some next ∧ Reported t next.span) ∨
      (s.tokens = [] ∧ t.endReported = true) := by
  cases ended : s.atEnd with
  | true =>
    refine .inr ⟨?_, later.known (endReported_unexpected expected ended)⟩
    rw [tokens, proper.atEnd_iff.mp ended, List.map_nil]
  | false =>
    obtain ⟨d, member, code, span⟩ := exists_unexpected expected ended
    obtain ⟨next, rest, ahead, -⟩ := ahead_cons_of_inside (mt proper.atEnd_iff.mpr
      (Bool.eq_false_iff.mp ended))
    rw [current_of_ahead ahead] at span
    refine .inl ⟨next.token, ?_, d, later.kept d member, .inl code, span⟩
    rw [tokens, ahead]
    rfl

/-- What is left over is accounted for. -/
theorem accounted_leftover (run : Runs s.openNode s') (proper : s.Proper) (inside : s.atEnd = false)
    (left : Leftover s') (later : Later s' t) : Accounted t s.tokens s'.outline := by
  have only := direct_nodes s.tokens left.nodes
  refine ⟨fun next head => ?_, fun none => absurd none left.some,
    fun none => absurd none (proper.tokens_ne_nil inside), fun none => ?_⟩
  · rw [only] at head
    exact nomatch head
  rcases left.told with ⟨d, member, -⟩ | ⟨ended, known⟩
  · exact absurd (none ▸ later.kept d member) List.not_mem_nil
  · refine ⟨only, ?_, later.known known⟩
    have proper' : s.openNode.Proper := ⟨proper.finish, proper.inside⟩
    have behind := (proper'.of_runs run).atEnd_iff.mp ended
    have extent : countAll s'.outline + s'.ahead.length = countAll [] + s.ahead.length := by
      have extent := run.extent
      rwa [State.extent, State.extent, outline_openNode] at extent
    rw [behind, List.length_nil, countAll_nil, Nat.zero_add, Nat.add_zero] at extent
    rw [tokens, extent, ← s.ahead.length_map (·.token), List.drop_length]

section Courses

variable {holds : Property} {consumed : List Token}

/-- What has been read before a state, and from it to another one. -/
theorem Runs.tokens_eq (run : Runs s s') (size : consumed.length = countAll s.outline) :
    ∃ consumed', consumed'.length = countAll s'.outline ∧
      consumed ++ s.tokens = consumed' ++ s'.tokens := by
  obtain ⟨passed, split, -⟩ := run.passed
  refine ⟨consumed ++ passed.map (·.token), ?_, ?_⟩
  · have extent := run.extent
    simp only [State.extent, split, List.length_append] at extent
    rw [List.length_append, List.length_map]
    omega
  · rw [tokens_of_append split, List.append_assoc]

variable (size : consumed.length = countAll s.outline)
  (before : EachAll holds (consumed ++ s.tokens) s.outline)
include size before

/-- A node read after some outlines is the only one that is new. -/
theorem eachAll_concat {node : Outline} (here : Each holds s.tokens node) :
    EachAll holds (consumed ++ s.tokens) (s.outline ++ [node]) := by
  refine eachAll_append.mpr ⟨before, eachAll_cons.mpr ⟨?_, eachAll_nil⟩⟩
  rwa [← size, List.drop_left]

/-- What is skipped is accounted for; it is tame unless it begins with a closing brace. -/
theorem eachAll_recover (expected : String) (recovery : KindSet) (proper : s.Proper)
    (later : Later (s.recover expected recovery) t)
    (here : ∀ children, Accounted t s.tokens children →
      (s.isAt .rightBrace = false → Tame t s.tokens children) → holds .error s.tokens children) :
    EachAll holds (consumed ++ s.tokens) (s.recover expected recovery).outline := by
  cases ended : s.atEnd with
  | true =>
    rwa [recover_of_atEnd _ _ ended, outline_congr (pieces_unexpected expected s)]
  | false =>
    obtain ⟨passed, more, ahead, outline, reports, braced⟩ := exists_recover expected recovery ended
      (mt proper.atEnd_iff.mpr (Bool.eq_false_iff.mp ended))
    obtain ⟨d, member, code, span⟩ := exists_unexpected expected ended
    have reported : Reported t s.current.token.span :=
      ⟨d, later.kept d (reports ▸ member), .inl code, span⟩
    rw [outline]
    refine eachAll_concat size before (each_node.mpr ⟨here _ ?_ fun plain => ?_, eachAll_replicate _⟩)
    · obtain ⟨next, rest, ahead', -⟩ := ahead_cons_of_inside
        (mt proper.atEnd_iff.mpr (Bool.eq_false_iff.mp ended))
      rw [current_of_ahead ahead'] at reported
      rw [tokens, ahead]
      exact accounted_passed more (ahead ▸ ahead') reported
    · apply Tame.of_braced
      rw [tokens, ahead, kinds_direct_passed]
      exact braced plain

/-- An empty node is accounted for. -/
theorem eachAll_placeholder (expected : String) (proper : s.Proper)
    (later : Later (s.placeholder expected) t)
    (here : ∀ children, Accounted t s.tokens children → Tame t s.tokens children →
      holds .error s.tokens children) :
    EachAll holds (consumed ++ s.tokens) (s.placeholder expected).outline := by
  have outline : (s.placeholder expected).outline = s.outline ++ [.node .error []] := by
    rw [placeholder, State.node, outline_closeNode, outline_congr (pieces_unexpected expected s)]
    rfl
  have reported := @reported_unexpected _ t expected proper ⟨later.kept, later.known⟩
  rw [outline]
  refine eachAll_concat size before (each_node.mpr ⟨here _ (accounted_nil reported) ?_, eachAll_nil⟩)
  apply Tame.of_nodes
  rw [direct]

/-- What nests too deeply is accounted for. -/
theorem eachAll_recoverTooDeep (limit : Nat) (proper : s.Proper)
    (later : Later (s.recoverTooDeep limit) t)
    (here : ∀ children, Accounted t s.tokens children → Tame t s.tokens children →
      holds .error s.tokens children) :
    EachAll holds (consumed ++ s.tokens) (s.recoverTooDeep limit).outline := by
  cases ended : s.atEnd with
  | true =>
    simp only [recoverTooDeep, ended, ↓reduceIte]
    rwa [outline_congr (pieces_unexpected _ s)]
  | false =>
    obtain ⟨passed, ahead, outline, ⟨d, member, code, span⟩, bracketed⟩ :=
      exists_recoverTooDeep limit ended
    have reported : Reported t s.current.token.span :=
      ⟨d, later.kept d member, .inr code, span⟩
    have some := mt proper.atEnd_iff.mpr (Bool.eq_false_iff.mp ended)
    obtain ⟨next, rest, ahead', -⟩ := ahead_cons_of_inside some
    rw [current_of_ahead ahead'] at reported span
    rw [outline]
    refine eachAll_concat size before (each_node.mpr ⟨here _ ?_ ?_, eachAll_replicate _⟩)
    · cases passed with
      | nil =>
        refine accounted_nil (.inl ⟨next.token, ?_, reported⟩)
        rw [tokens, ahead']
        rfl
      | cons first others =>
        rw [tokens, ahead]
        exact accounted_passed (List.cons_ne_nil first others) (ahead ▸ ahead') reported
    · refine ⟨?_, ?_⟩
      · rw [tokens, ahead, kinds_direct_passed]
        refine bracketed.mono (fun kind brace => ?_) fun _ => id
        rw [beq_iff_eq.mp brace]
        rfl
      · cases passed with
        | nil => exact .inl .nil
        | cons first others =>
          refine .inr ⟨next.token, d, ?_, later.kept d member, code, span⟩
          rw [direct_replicate, tokens, ahead']
          rfl

end Courses

namespace Course

variable {consumed : List Token}

/-- Every node that a course leaves is sound, in view of a later state. -/
theorem each (course : Course s s') (later : Later s' t) (proper : s.Proper)
    (size : consumed.length = countAll s.outline)
    (before : EachAll (Sound t) (consumed ++ s.tokens) s.outline) :
    EachAll (Sound t) (consumed ++ s.tokens) s'.outline := by
  induction course generalizing consumed with
  | refl s => exact before
  | @trans s s' s'' first second ih ih' =>
    obtain ⟨consumed', size', same⟩ := first.reporting.tokens_eq size
    have middle := ih (second.reporting.later.trans later) proper size before
    rw [same] at middle ⊢
    exact ih' later (proper.of_runs first.reporting.toRuns) size' middle
  | bump s =>
    rw [outline_bump]
    split
    · rwa [List.append_nil]
    · exact eachAll_concat size before each_token
  | unexpected expected s => rwa [outline_congr (pieces_unexpected expected s)]
  | missing expected s => rwa [outline_congr (pieces_missing expected s)]
  | deeper _ ih =>
    exact ih ⟨later.kept, later.known⟩ ⟨proper.finish, proper.inside⟩ size before
  | within _ ih =>
    exact ih ⟨later.kept, later.known⟩ ⟨proper.finish, proper.inside⟩ size before
  | breaking _ ih =>
    exact ih ⟨later.kept, later.known⟩ ⟨proper.finish, proper.inside⟩ size before
  | @closed kind s s' other ends _ ih =>
    have inner := @ih [] ⟨later.kept, later.known⟩ ⟨proper.finish, proper.inside⟩ rfl
      (by simp)
    have ended (none : s.tokens = []) : t.endReported = true :=
      later.known (ends ⟨proper.finish, proper.inside⟩ (proper.atEnd_of_tokens none))
    rw [outline_closeNode]
    exact eachAll_concat size before (each_node.mpr ⟨.of_other other ended, inner⟩)
  | @wrapped kind s s' other inside _ ih =>
    have inner := @ih [] ⟨later.kept, later.known⟩ ⟨proper.finish, proper.inside⟩ rfl (by simp)
    rw [outline_closeWrap]
    refine eachAll_wrapLast (fun count within _ => .of_other other fun none => ?_) before ?_
    -- The token at which the wrapped node goes on is among those from its first one on.
    · rw [← size] at within
      rw [List.drop_append_of_le_length within] at none
      exact absurd (List.append_eq_nil_iff.mp none).2 (proper.tokens_ne_nil inside)
    · rwa [← size, List.drop_left]
  | @recover expected recovery s plain =>
    exact eachAll_recover size before expected recovery proper later
      fun _ accounted tame => .of_error accounted (tame plain)
  | placeholder expected s =>
    exact eachAll_placeholder size before expected proper later fun _ => .of_error
  | recoverTooDeep limit s =>
    exact eachAll_recoverTooDeep size before limit proper later fun _ => .of_error
  | @leftover s s' inside course left ih =>
    have inner := @ih [] ⟨later.kept, later.known⟩ ⟨proper.finish, proper.inside⟩ rfl
      (by simp)
    rw [outline_closeNode]
    refine eachAll_concat size before (each_node.mpr ⟨.of_error ?_ ?_, inner⟩)
    · exact accounted_leftover course.reporting.toRuns proper inside left
        ⟨later.kept, later.known⟩
    · exact .of_nodes (direct_nodes _ left.nodes)

end Course

/-- What is true of the nodes that statements leave: error nodes are accounted for, and inside of
blocks they are tame. -/
structure Settled (t : State) (kind : NodeKind) (tokens : List Token) (children : List Outline) :
    Prop where
  /-- At the end of the text, the end is reported. -/
  ended : tokens = [] → t.endReported = true
  /-- Error nodes have a reason. -/
  accounted : kind = .error → Accounted t tokens children
  /-- The nodes in blocks are sound. -/
  inside : kind = .block → EachAll (Sound t) tokens children

theorem eachAll_settled {tokens : List Token} {outlines : List Outline}
    (sound : EachAll (Sound t) tokens outlines) : EachAll (Settled t) tokens outlines :=
  sound.imp fun _ _ _ here below => ⟨here.ended, here.accounted, fun _ => below⟩

variable {config : Config} {room : Nat}

/-- At a closing brace no statement begins. -/
theorem item_of_brace (brace : s.isAt .rightBrace = true) :
    item config room s = s.during .statement (State.recover "statement" .empty) := by
  have kind : s.kind = .rightBrace := beq_iff_eq.mp brace
  have other : atStatementStart config s = false := by
    simp [atStatementStart, atExprStart, isAtAny, isAt, kind, statementKinds, literalKinds,
      KindSet.contains, KindSet.ofList]
  rw [item, statementItem, if_neg (by rw [isAt, kind]; decide)]
  exact statement_of_other other

/-- The nodes of a statement that comes first. -/
theorem settled_item (proper : s.Proper) (fresh : s.outline = [])
    (later : Later (item config room s) t) :
    EachAll (Settled t) s.tokens (item config room s).outline := by
  have size : ([] : List Token).length = countAll s.outline := by rw [fresh]; rfl
  have nothing {p : NodeKind → List Token → List Outline → Prop} :
      EachAll p ([] ++ s.tokens) s.outline := by
    rw [fresh]
    exact eachAll_nil
  cases brace : s.isAt .rightBrace with
  | false =>
    exact eachAll_settled <|
      @Course.each s _ t [] (.item config room brace) later proper size nothing
  | true =>
    rw [item_of_brace brace] at later ⊢
    exact @eachAll_recover { s with phases := .statement :: s.phases } t _ [] size nothing
      "statement" .empty ⟨proper.finish, proper.inside⟩ ⟨later.kept, later.known⟩
      fun _ accounted _ => ⟨accounted.ended, fun _ => accounted, nofun⟩

/-- The nodes of statements that are read one after the other. -/
theorem settled_statements (proper : s.Proper) (fresh : s.outline = []) (count : Nat)
    (more : ∀ k < count, (statements config room k s).ahead ≠ [])
    (later : Later (statements config room count s) t) :
    EachAll (Settled t) s.tokens (statements config room count s).outline := by
  induction count generalizing t with
  | zero =>
    change EachAll (Settled t) s.tokens s.outline
    rw [fresh]
    exact eachAll_nil
  | succ count ih =>
    rw [statements_succ] at later ⊢
    have run : Runs s (statements config room count s) := runs_statements count s
    have step := Reporting.item config room (statements config room count s)
    have before := ih (fun k earlier => more k (Nat.lt_succ_of_lt earlier)) (step.later.trans later)
    obtain ⟨consumed, size, same⟩ := @Runs.tokens_eq _ _ [] run (by rw [fresh]; rfl)
    have proper' := proper.of_runs run
    have some := more count (Nat.lt_succ_self count)
    generalize statements config room count s = s' at *
    obtain ⟨piece, after, -, frame⟩ := item_frame config room some (proper'.atEnd_eq_false some)
    have whole : item config room s' = { after with pieces := piece :: s'.pieces } := frame s'.pieces
    have alone : item config room { s' with pieces := [] } = { after with pieces := [piece] } :=
      frame []
    have node := @settled_item { s' with pieces := [] } t config room
      ⟨proper'.finish, proper'.inside⟩ rfl (by
        rw [whole] at later
        rw [alone]
        exact ⟨later.kept, later.known⟩)
    rw [List.nil_append] at same
    rw [alone] at node
    have outline : (item config room s').outline =
        s'.outline ++ ({ after with pieces := [piece] } : State).outline := by
      rw [whole]
      simp [State.outline]
    rw [same] at before ⊢
    rw [outline]
    refine eachAll_append.mpr ⟨before, ?_⟩
    rwa [← size, List.drop_left]

end LosslessSyntax.Grammar
