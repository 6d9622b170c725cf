import LosslessSyntax.Proofs.Grammar.Accounted
import LosslessSyntax.Proofs.Parse.Ending
import LosslessSyntax.Proofs.Parse.Nodes

/-! # Recovery from errors

Nothing is skipped silently: where an error node begins, an unexpected token or a construct that
nests too deeply is reported, or the text is reported as incomplete at its end (`skipped_reported`).
Inside of a block, an error node takes no more closing braces than brackets are opened in it, and no
more than braces unless the nesting is reported as too deep (`closing_braces_kept`).
-/

namespace LosslessSyntax.Parse

open Lexeme Grammar Outline

variable {config : Config} {text : String}

theorem tokens_beginning (config : Config) (text : String) :
    (beginning config text).tokens = significant .start (lexemes config text) := by
  rw [State.tokens, beginning, (programStart_eq text.utf8ByteSize
    (Scanner.between_ofText text config.operatorLimit) rfl).1, lookaheads, map_token_ofTokens]
  rfl

/-- Every node that the statements of a text leave is settled by the reports of the grammar. -/
theorem settled_run (config : Config) (text : String) :
    EachAll (Settled (run config text)) (significant .start (lexemes config text))
      (run config text).outline := by
  obtain ⟨same, more⟩ := run_eq config text
  rw [← tokens_beginning config text]
  generalize (run config text).outline.length = count at same more
  rw [same]
  exact settled_statements (proper_beginning config text) outline_beginning count more
    ⟨fun _ => id, id⟩

/-- What holds of all nodes of the outline of a text holds of all nodes below its root. -/
theorem meets_of_mem_below {holds : Property} {cursor : Cursor}
    (each : EachAll holds (significant .start (lexemes config text)) (run config text).outline)
    (member : cursor ∈ Cursor.nodesOfStack (ofText config text).root.childNodes) :
    Meets .start (lexemes config text) holds cursor := by
  have nodes : (ofText config text).root.childNodes = Cursor.nodesAmong Position.start.offset
      (fillAll (leavesOf (lexemes config text)) (run config text).outline).1 := by
    change Cursor.nodesAmong 0 (ofText config text).tree.children = _
    rw [tree_ofText]
    change Cursor.nodesAmong 0 (plant _ _) = _
    rw [plant, Cursor.nodesAmong_append, Cursor.nodesAmong_leaves, List.append_nil]
    rfl
  rw [nodes] at member
  exact meets_fillAll (Nat.le_of_eq countAll_run) each cursor member

theorem meets_of_mem {holds : Property} {cursor : Cursor}
    (each : EachAll holds (significant .start (lexemes config text)) (run config text).outline)
    (member : cursor ∈ (ofText config text).root.descendants)
    (below : cursor.tree.nodeKind? ≠ some .root) : Meets .start (lexemes config text) holds cursor := by
  rw [Cursor.descendants_eq] at member
  rcases List.mem_cons.mp member with rfl | member
  · exfalso
    apply below
    rw [root, Cursor.ofRoot, tree_ofText]
    rfl
  · exact meets_of_mem_below each member

/-- Where an error node stands, and why it is there. -/
theorem exists_accounted {error : Cursor} (member : error ∈ (ofText config text).root.descendants)
    (kind : error.tree.nodeKind? = some .error) :
    ∃ before after children,
      NodeAt .start (lexemes config text) before after .error children error ∧
      Accounted (run config text) (significant (Position.start.after (charsOf before)) after)
        children := by
  obtain ⟨before, after, _, children, node, here⟩ :=
    meets_of_mem (settled_run config text) member (by rw [kind]; decide)
  rw [node.tree] at kind
  obtain rfl := Option.some.inj kind
  exact ⟨before, after, children, node, here.accounted rfl⟩

/-- The reports of the grammar are diagnostics of the text. -/
theorem mem_items_of_report {d : Diagnostic} (member : d ∈ (run config text).reports.items) :
    d ∈ (ofText config text).diagnostics.items := by
  rw [diagnostics_ofText]
  exact Diagnostics.mem_extend_of_mem _ member

/-- That a token is not expected, or that something nests too deeply at it, is reported. -/
def Tells (parse : Parse) (span : Span) : Prop :=
  ∃ d ∈ parse.diagnostics.items,
    (d.code = .unexpectedToken ∨ d.code = .nestingTooDeep) ∧ d.span = span

theorem tells_of_reported {span : Span} (reported : Reported (run config text) span) :
    (ofText config text).Tells span := by
  obtain ⟨d, member, code, span⟩ := reported
  exact ⟨d, mem_items_of_report member, code, span⟩

/-- The first of the tokens of a node is the first that the outline has there. -/
theorem span_head_directTokens {origin : Position} {lexemes before after : List Lexeme}
    {kind : NodeKind} {children : List Outline} {cursor : Cursor}
    (node : NodeAt origin lexemes before after kind children cursor) :
    cursor.directTokens.head?.map (·.span) =
      (direct (significant (origin.after (charsOf before)) after) children).head?.map (·.span) := by
  have places := congrArg (fun places => places.head?.map Prod.snd) node.directTokens_eq
  simp only [List.head?_map, Option.map_map] at places
  exact places

/-- A text that is reported as incomplete is so once. -/
theorem one_incomplete (known : (run config text).endReported = true) :
    ((ofText config text).diagnostics.items.filter (·.kind == .incomplete)).length = 1 := by
  obtain ⟨d, member, incomplete⟩ := exists_incomplete known
  have some : 0 < ((ofText config text).diagnostics.items.filter (·.kind == .incomplete)).length :=
    List.length_pos_of_mem (List.mem_filter.mpr ⟨member, beq_iff_eq.mpr incomplete⟩)
  have most := (ordered_diagnostics config text).length_filter_le
    fun d here e there incomplete incomplete' =>
      incomplete_unique here there (beq_iff_eq.mp incomplete) (beq_iff_eq.mp incomplete')
  omega

/-- Nothing is skipped silently: the first significant token in an error node is reported, and so is
the first one after an error node without children, unless that is the end, and the text is reported
as incomplete once. -/
theorem skipped_reported (config : Config) (text : String) (error : Cursor)
    (member : error ∈ (ofText config text).root.descendants)
    (kind : error.tree.nodeKind? = some .error) :
    (∀ first, error.directTokens.head? = some first → (ofText config text).Tells first.span) ∧
      (error.tree.children = [] →
        ∃ next, (scan text config.operatorLimit).1.find? (fun token =>
            token.kind.isSignificant && decide (error.start ≤ token.start)) = some next ∧
          ((ofText config text).Tells next.span ∨ next.kind = .eof ∧
            ((ofText config text).diagnostics.items.filter (·.kind == .incomplete)).length = 1)) := by
  obtain ⟨before, after, children, node, accounted⟩ := exists_accounted member kind
  constructor
  · intro first head
    have spans := span_head_directTokens node
    rw [head, Option.map_some] at spans
    obtain ⟨next, found, span⟩ := Option.map_eq_some_iff.mp spans.symm
    rw [← span]
    exact tells_of_reported (accounted.first next found)
  · intro none
    have solid : ∀ lexeme ∈ lexemes config text, lexeme.chars ≠ [] := fun lexeme => chars_ne_nil lexeme
    rw [scan_eq, node.find_next solid rfl rfl]
    refine ⟨_, rfl, ?_⟩
    rcases accounted.absent (node.children_eq_nil none) with ⟨next, head, reported⟩ | ⟨ended, known⟩
    · rw [head]
      exact .inl (tells_of_reported reported)
    · rw [ended]
      exact .inr ⟨rfl, one_incomplete known⟩

/-- Both cases: a token that no statement begins with, and a binding without its value. -/
theorem skipped_reported_binding :
    (∃ (error first : Cursor), error.directTokens.head? = some first ∧
      (ofText ⟨3, .standard, 8⟩ ") let x =").Tells first.span) ∧
    ∃ (error : Cursor) (next : Token), error.tree.children = [] ∧
      (scan ") let x =" 3).1.find? (fun token =>
        token.kind.isSignificant && decide (error.start ≤ token.start)) = some next ∧
      ((ofText ⟨3, .standard, 8⟩ ") let x =").Tells next.span ∨ next.kind = .eof ∧
        ((ofText ⟨3, .standard, 8⟩ ") let x =").diagnostics.items.filter
          (·.kind == .incomplete)).length = 1) := by
  constructor
  · have found : (ofText ⟨3, .standard, 8⟩ ") let x =").root.descendants.any (fun error =>
        error.tree.nodeKind? == some .error && error.directTokens.head?.isSome) = true := by
      decide +kernel
    obtain ⟨error, member, test⟩ := List.any_eq_true.mp found
    obtain ⟨kind, head⟩ := Bool.and_eq_true_iff.mp test
    obtain ⟨first, head⟩ := Option.isSome_iff_exists.mp head
    exact ⟨error, first, head,
      (skipped_reported ⟨3, .standard, 8⟩ _ error member (beq_iff_eq.mp kind)).1 first head⟩
  · have found : (ofText ⟨3, .standard, 8⟩ ") let x =").root.descendants.any (fun error =>
        error.tree.nodeKind? == some .error && error.tree.children.isEmpty) = true := by
      decide +kernel
    obtain ⟨error, member, test⟩ := List.any_eq_true.mp found
    obtain ⟨kind, empty⟩ := Bool.and_eq_true_iff.mp test
    have none := List.isEmpty_iff.mp empty
    obtain ⟨next, after, told⟩ :=
      (skipped_reported ⟨3, .standard, 8⟩ _ error member (beq_iff_eq.mp kind)).2 none
    exact ⟨error, next, none, after, told⟩

/-- The kinds of the tokens among the children of a node. -/
def kindsIn (cursor : Cursor) : List TokenKind := cursor.childTokens.filterMap (·.tree.tokenKind?)

/-- The significant ones are those that the outline has there. -/
theorem filter_kindsIn {origin : Position} {lexemes before after : List Lexeme} {kind : NodeKind}
    {children : List Outline} {cursor : Cursor}
    (node : NodeAt origin lexemes before after kind children cursor) :
    (kindsIn cursor).filter TokenKind.isSignificant =
      (direct (significant (origin.after (charsOf before)) after) children).map (·.kind) := by
  have places := congrArg (List.filterMap (·.1.tokenKind?)) node.directTokens_eq
  rw [List.filterMap_map, List.filterMap_map] at places
  have kinds (tokens : List Token) : tokens.filterMap
      ((·.1.tokenKind?) ∘ fun token => (Tree.leaf token.kind token.text, token.span)) =
      tokens.map (·.kind) := congrFun List.filterMap_eq_map tokens
  rw [kinds] at places
  rw [← places, kindsIn, List.filter_filterMap, Cursor.directTokens, List.filterMap_filter]
  apply List.filterMap_congr
  intro child _
  change Option.filter _ child.tree.tokenKind? = ite _ child.tree.tokenKind? none
  cases child.tree.tokenKind? <;> rfl

/-- Tokens that neither open nor close make no difference. -/
theorem covered_of_filter {closes opens keep : TokenKind → Bool} {level : Nat}
    {kinds : List TokenKind} (covered : Covered closes opens level (kinds.filter keep))
    (closing : ∀ kind, closes kind = true → keep kind = true)
    (opening : ∀ kind, opens kind = true → keep kind = true) :
    Covered closes opens level kinds := by
  have kept {test : TokenKind → Bool} (only : ∀ kind, test kind = true → keep kind = true)
      (front : List TokenKind) : (front.filter keep).countP test = front.countP test := by
    rw [List.countP_filter]
    apply List.countP_congr
    intro kind _
    rw [Bool.and_eq_true]
    exact ⟨And.left, fun here => ⟨here, only kind here⟩⟩
  intro front start
  have := covered (front.filter keep) (start.filter keep)
  rwa [kept closing, kept opening] at this

/-- Where an error node inside of a block stands, and what it takes of the brackets there. -/
theorem exists_tame {block error : Cursor}
    (member : block ∈ (ofText config text).root.descendants)
    (kind : block.tree.nodeKind? = some .block) (inside : error ∈ block.descendants)
    (kind' : error.tree.nodeKind? = some .error) :
    ∃ origin lexemes before after children,
      NodeAt origin lexemes before after .error children error ∧
      Tame (run config text) (significant (origin.after (charsOf before)) after) children := by
  obtain ⟨before, after, _, children, node, here⟩ :=
    meets_of_mem (settled_run config text) member (by rw [kind]; decide)
  have same := node.tree
  rw [same] at kind
  obtain rfl := Option.some.inj kind
  rw [Cursor.descendants_eq] at inside
  rcases List.mem_cons.mp inside with rfl | inside
  · rw [same] at kind'
    exact nomatch Option.some.inj kind'
  have nodes : block.childNodes = Cursor.nodesAmong (Position.start.after (charsOf before)).offset
      (fillAll (leavesOf after) children).1 := by
    rw [← node.start, Cursor.childNodes, Cursor.children, same]
    rfl
  rw [nodes] at inside
  obtain ⟨before', after', _, children', inner, sound⟩ :=
    meets_fillAll node.enough (here.inside rfl) error inside
  rw [inner.tree] at kind'
  obtain rfl := Option.some.inj kind'
  exact ⟨_, _, before', after', children', inner, sound.tame rfl⟩

/-- In an error node inside of a block, on every beginning of its tokens closing braces are no more
than brackets that open, and no more than opening braces unless something nests too deeply at the
first token. -/
theorem closing_braces_kept (config : Config) (text : String) (block error : Cursor)
    (member : block ∈ (ofText config text).root.descendants)
    (kind : block.tree.nodeKind? = some .block) (inside : error ∈ block.descendants)
    (kind' : error.tree.nodeKind? = some .error) :
    (∀ front, front <+: kindsIn error →
      front.count .rightBrace ≤ front.countP (·.closer?.isSome)) ∧
    ((∀ front, front <+: kindsIn error → front.count .rightBrace ≤ front.count .leftBrace) ∨
      ∃ first d, error.directTokens.head? = some first ∧
        d ∈ (ofText config text).diagnostics.items ∧ d.code = .nestingTooDeep ∧
        d.span = first.span) := by
  obtain ⟨origin, lexemes, before, after, children, node, tame⟩ :=
    exists_tame member kind inside kind'
  have bracketed := tame.bracketed
  have braced := tame.braced
  rw [← filter_kindsIn node] at bracketed braced
  have significant_of_brace (kind : TokenKind) :
      (kind == .leftBrace) = true ∨ (kind == .rightBrace) = true → kind.isSignificant = true := by
    cases kind <;> decide
  have significant_of_opener (kind : TokenKind) :
      kind.closer?.isSome = true → kind.isSignificant = true := by cases kind <;> decide
  refine ⟨covered_of_filter bracketed (fun kind closes => significant_of_brace kind (.inr closes))
    significant_of_opener, ?_⟩
  rcases braced with braced | ⟨next, d, head, reported, code, span⟩
  · exact .inl (covered_of_filter braced (fun kind closes => significant_of_brace kind (.inr closes))
      fun kind opens => significant_of_brace kind (.inl opens))
  · have spans := span_head_directTokens node
    rw [head, Option.map_some] at spans
    obtain ⟨first, found, same⟩ := Option.map_eq_some_iff.mp spans
    exact .inr ⟨first, d, found, mem_items_of_report reported, code, span.trans same.symm⟩

/-- A parenthesis and a block that are skipped together in another block. -/
theorem closing_braces_kept_in_loop :
    ∃ (block error : Cursor),
      error.tree.nodeKind? = some .error ∧ error ∈ block.descendants ∧
      (kindsIn error).contains .rightBrace = true ∧
      (∀ front, front <+: kindsIn error →
        front.count .rightBrace ≤ front.countP (·.closer?.isSome)) ∧
      ((∀ front, front <+: kindsIn error → front.count .rightBrace ≤ front.count .leftBrace) ∨
        ∃ first d, error.directTokens.head? = some first ∧
          d ∈ (ofText ⟨3, .standard, 8⟩ "loop { ) { a } }").diagnostics.items ∧
          d.code = .nestingTooDeep ∧ d.span = first.span) := by
  have found : (ofText ⟨3, .standard, 8⟩ "loop { ) { a } }").root.descendants.any
      (fun block => block.tree.nodeKind? == some .block && block.descendants.any fun error =>
        error.tree.nodeKind? == some .error && (kindsIn error).contains .rightBrace) = true := by
    decide +kernel
  obtain ⟨block, member, test⟩ := List.any_eq_true.mp found
  obtain ⟨kind, below⟩ := Bool.and_eq_true_iff.mp test
  obtain ⟨error, inside, test⟩ := List.any_eq_true.mp below
  obtain ⟨kind', brace⟩ := Bool.and_eq_true_iff.mp test
  exact ⟨block, error, beq_iff_eq.mp kind', inside, brace,
    closing_braces_kept ⟨3, .standard, 8⟩ _ block error member (beq_iff_eq.mp kind) inside
      (beq_iff_eq.mp kind')⟩

/-- Where nesting is too deep, a closing brace is taken for the end of another group. -/
theorem closing_brace_swallowed :
    ∃ (block error : Cursor) (front : List TokenKind),
      block ∈ (ofText ⟨3, .standard, 1⟩ "loop { (}").root.descendants ∧
      block.tree.nodeKind? = some .block ∧ error ∈ block.descendants ∧
      error.tree.nodeKind? = some .error ∧ front <+: kindsIn error ∧
      front.count .leftBrace < front.count .rightBrace := by
  have found : (ofText ⟨3, .standard, 1⟩ "loop { (}").root.descendants.any
      (fun block => block.tree.nodeKind? == some .block && block.descendants.any fun error =>
        error.tree.nodeKind? == some .error &&
          decide ((kindsIn error).count .leftBrace < (kindsIn error).count .rightBrace)) = true := by
    decide +kernel
  obtain ⟨block, member, test⟩ := List.any_eq_true.mp found
  obtain ⟨kind, below⟩ := Bool.and_eq_true_iff.mp test
  obtain ⟨error, inside, test⟩ := List.any_eq_true.mp below
  obtain ⟨kind', more⟩ := Bool.and_eq_true_iff.mp test
  exact ⟨block, error, kindsIn error, member, beq_iff_eq.mp kind, inside, beq_iff_eq.mp kind',
    List.prefix_rfl, of_decide_eq_true more⟩

end LosslessSyntax.Parse
