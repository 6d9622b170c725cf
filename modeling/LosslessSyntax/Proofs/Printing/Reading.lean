import LosslessSyntax.Proofs.Derivation.Constructs
import LosslessSyntax.Proofs.Printing.Expression
import LosslessSyntax.Proofs.Printing.Takes

/-! # Reading written expressions

The rules for expressions take a written expression as it is, wherever what follows it neither extends
its last operand nor takes it away (`Bounded`), as long as there is a level of nesting for each of its
nodes (`Readable.construct`). An operand is taken with the forms after it, one after the other, and an
operator tree with its operators, so `Readable` says where the loops over them stand once a tree has
been taken. The induction is on the tree (`readable_of_expression`).
-/

namespace LosslessSyntax.Grammar

open State LosslessSyntax.Tree

variable {config : Config} {table : OperatorTable} {tree : Tree} {room least : Nat}
  {recovery : KindSet} {s : State} {back : List Leaf}

/-- No operator follows that reaches a power. -/
def Weak (table : OperatorTable) (least : Nat) (back : List Leaf) : Prop :=
  ∀ text power, back.head? = some (.symbol, text) → table.binaryPower? text = some power →
    power.left < least

/-- The kinds of tokens with which an operand goes on. -/
def extendingKinds : List TokenKind := [.leftParen, .leftBracket, .dot, .asWord]

/-- What follows an expression neither extends its last operand nor takes it away. -/
structure Bounded (table : OperatorTable) (tree : Tree) (back : List Leaf) : Prop where
  apart : ∀ leaf ∈ back.head?, leaf.1 ∉ extendingKinds
  loose : ∀ inner ∈ tree.rightPowers table, Weak table inner back

/-- Neither an operator nor a form after an operand follows. -/
def Ends (back : List Leaf) : Prop :=
  ∀ leaf ∈ back.head?, leaf.1 ∉ .symbol :: extendingKinds

theorem Ends.weak (ends : Ends back) (least : Nat) : Weak table least back :=
  fun _ _ head _ => absurd List.mem_cons_self (ends _ head)

theorem Ends.closes (ends : Ends back) (tree : Tree) : Bounded table tree back where
  apart := fun leaf head member => ends leaf head (List.mem_cons_of_mem _ member)
  loose := fun inner _ => ends.weak inner

theorem Ends.of_cons {kind : TokenKind} (text : String)
    (other : kind ∉ .symbol :: extendingKinds) (back : List Leaf) :
    Ends ((kind, text) :: back) := fun leaf head => by
  rw [← Option.some.inj head]
  exact other

theorem binaryOperators_of_weak (faces : s.Faces back) (weak : Weak config.operators least back)
    (inner : ConstructRule) : binaryOperators config inner least recovery s = s := by
  rw [binaryOperators_eq]
  refine repeatStep_of_halt ?_
  rcases binaryStep_cases config inner least recovery s with ⟨halts, -⟩ | ⟨power, here, strong, -⟩
  · exact halts
  · rw [operatorAhead?] at here
    split at here
    case isFalse => exact absurd here.symm (Option.some_ne_none power)
    case isTrue symbol =>
      have symbol : s.kind = .symbol := beq_iff_eq.mp (Bool.and_eq_true_iff.mp symbol).1
      cases back with
      | nil =>
        rw [faces.kind_eq_eof] at symbol
        exact absurd symbol (by decide)
      | cons first rest =>
        obtain ⟨kind, text⟩ := first
        rw [faces.kind_eq] at symbol
        rw [faces.text_eq] at here
        exact absurd strong (Nat.not_le_of_lt (weak text power (by rw [symbol]; rfl) here))

theorem postfixForms_of_apart (faces : s.Faces back)
    (apart : ∀ leaf ∈ back.head?, leaf.1 ∉ extendingKinds)
    (inner : ConstructRule) : postfixForms config inner s = s := by
  have other : s.kind ∉ extendingKinds := by
    rw [faces.kind_eq_head]
    cases head : back.head? with
    | none => decide
    | some leaf => exact apart leaf head
  rw [postfixForms]
  refine repeatStep_of_halt ?_
  split
  · rfl
  split
  case h_5 => rfl
  all_goals
    rename_i same
    rw [same] at other
    exact absurd (by decide) other

/-- Whether an expression may begin with a token. -/
def opens (table : OperatorTable) (leaf : Leaf) : Bool :=
  literalKinds.contains leaf.1 || leaf.1 == .ident || leaf.1 == .leftParen ||
    leaf.1 == .leftBracket || (leaf.1 == .symbol && (table.unaryPower? leaf.2).isSome)

theorem atExprStart_eq_opens {leaf : Leaf} (faces : s.Faces (leaf :: back)) :
    atExprStart config s = opens config.operators leaf := by
  obtain ⟨kind, text⟩ := leaf
  rw [atExprStart, isAtAny, isAt, isAt, isAt, isAt, faces.kind_eq, faces.text_eq]
  rfl

/-- Once a tree has been taken as an operand, the loop over the forms after it goes on. -/
def TakesOperand (config : Config) (room : Nat) (recovery : KindSet) (tree : Tree) (s : State) :
    Prop :=
  ∃ s', Takes s s' [tree] ∧ operand config (construct config room) recovery s =
    (true, postfixForms config (construct config room) s')

/-- The rules for expressions take a tree as it is. -/
structure Readable (config : Config) (tree : Tree) : Prop where
  node : 0 < tree.nodeKinds.length
  begins : ∃ first rest, tree.leaves = first :: rest ∧ opens config.operators first = true
  /-- Once the tree has been taken, the loop over operators goes on. -/
  expr (room least : Nat) (recovery : KindSet) (s : State) (back : List Leaf) :
    tree.nodeKinds.length ≤ room + 1 → s.Faces (tree.leaves ++ back) →
    Bounded config.operators tree back → (∀ inner ∈ tree.leftPowers config.operators, least ≤ inner) →
    ∃ s', Takes s s' [tree] ∧ exprBody config (construct config room) least recovery s =
      binaryOperators config (construct config room) least recovery s'
  operand (room : Nat) (recovery : KindSet) (s : State) (back : List Leaf) :
    tree.isOperand = true → tree.nodeKinds.length ≤ room + 1 → s.Faces (tree.leaves ++ back) →
    TakesOperand config room recovery tree s

theorem leavesAll_singleton (tree : Tree) : leavesAll [tree] = tree.leaves := by
  rw [leavesAll_cons, leavesAll_nil, List.append_nil]

namespace Readable

theorem atExprStart (readable : Readable config tree) (faces : s.Faces (tree.leaves ++ back)) :
    atExprStart config s = true := by
  obtain ⟨first, rest, leaves, begins⟩ := readable.begins
  rw [leaves, List.cons_append] at faces
  rw [atExprStart_eq_opens faces, begins]

/-- A readable tree is taken whole where the loop over operators stops after it. -/
theorem construct (readable : Readable config tree) (enough : tree.nodeKinds.length ≤ room)
    (faces : s.Faces (tree.leaves ++ back)) (closes : Bounded config.operators tree back)
    (weak : Weak config.operators least back)
    (strong : ∀ inner ∈ tree.leftPowers config.operators, least ≤ inner) :
    Takes s (Grammar.construct config room (.expr least recovery) s) [tree] := by
  obtain ⟨room, rfl⟩ := Nat.exists_eq_add_one.mpr (Nat.lt_of_lt_of_le readable.node enough)
  have inside := faces.of_context (s.depth + 1) (.expression :: s.phases)
  obtain ⟨s', takes, same⟩ := readable.expr room least recovery _ back enough inside closes strong
  have stops : binaryOperators config (Grammar.construct config room) least recovery s' = s' := by
    refine binaryOperators_of_weak (takes.faces ?_) weak _
    rwa [leavesAll_singleton]
  rw [stops] at same
  rw [Grammar.construct, nested, during, same]
  exact takes.of_context

/-- A readable tree is taken whole where an element of a list or of a group ends. -/
theorem element (readable : Readable config tree) (enough : tree.nodeKinds.length ≤ room)
    (faces : s.Faces (tree.leaves ++ back)) (ends : Ends back) :
    Takes s (Grammar.construct config room (.expr 0 recovery) s) [tree] :=
  readable.construct enough faces (ends.closes tree) (ends.weak 0) fun inner _ => Nat.zero_le inner

end Readable

section Lists

variable {elements rest : List Tree} {trailing : Bool} {close : TokenKind} {text : String}

theorem ends_listRest (closing : close = .rightParen ∨ close = .rightBracket) :
    Ends (leavesAll (listRest trailing rest) ++ (close, text) :: back) := by
  cases rest with
  | nil =>
    cases trailing with
    | false =>
      rw [listRest, if_neg Bool.false_ne_true, leavesAll_nil, List.nil_append]
      exact .of_cons text (by rcases closing with rfl | rfl <;> decide) back
    | true =>
      rw [listRest, if_pos rfl]
      exact .of_cons "," (by decide) _
  | cons next rest =>
    rw [listRest]
    exact .of_cons "," (by decide) _

theorem leavesAll_leaf_append (kind : TokenKind) (text : String) (trees : List Tree)
    (back : List Leaf) :
    leavesAll (.leaf kind text :: trees) ++ back = (kind, text) :: (leavesAll trees ++ back) := by
  rw [leavesAll_cons, Tree.leaves, List.append_assoc, List.singleton_append]

/-- A comma is ahead, and then what comes after it. -/
theorem faces_comma {trees : List Tree}
    (faces : s.Faces (leavesAll (comma :: trees) ++ back)) :
    s.Faces ((.comma, ",") :: (leavesAll trees ++ back)) := by
  rwa [comma, leavesAll_leaf_append] at faces

theorem faces_cons {first : Tree} {trees : List Tree}
    (faces : s.Faces (leavesAll (first :: trees) ++ back)) :
    s.Faces (first.leaves ++ (leavesAll trees ++ back)) := by
  rwa [leavesAll_cons, List.append_assoc] at faces

/-- After a token, what comes after it is ahead. -/
theorem State.Faces.bump {kind : TokenKind} {leaves : List Leaf}
    (faces : s.Faces ((kind, text) :: leaves)) : s.bump.Faces leaves :=
  (Takes.bump faces).faces (by rwa [leavesAll_leaf_append])

/-- After a tree, what comes after it is ahead. -/
theorem Takes.faces_one {s' : State} {leaves : List Leaf} (takes : Takes s s' [tree])
    (faces : s.Faces (tree.leaves ++ leaves)) : s'.Faces leaves :=
  takes.faces (by rwa [leavesAll_singleton])

/-- The elements of a group behind the first. -/
theorem takes_elements (readable : ∀ element ∈ rest, Readable config element)
    (enough : ∀ element ∈ rest, element.nodeKinds.length ≤ room)
    (faces : s.Faces (leavesAll (listRest trailing rest) ++ (.rightParen, text) :: back)) :
    Takes s (s.repeatStep (elementStep (construct config room))) (listRest trailing rest) := by
  induction rest generalizing s with
  | nil =>
    cases trailing with
    | false =>
      rw [listRest, if_neg Bool.false_ne_true, leavesAll_nil, List.nil_append] at faces
      rw [listRest, if_neg Bool.false_ne_true, repeatStep_of_halt (by
        rw [elementStep, if_neg (faces.isAt_other (by decide))])]
      exact .refl s
    | true =>
      rw [listRest, if_pos rfl] at faces ⊢
      have comma := faces_comma faces
      rw [repeatStep_of_halt (by
        rw [elementStep, if_pos comma.isAt_here, if_pos (State.Faces.isAt_here comma.bump)])]
      exact .bump comma
  | cons next rest ih =>
    rw [listRest] at faces ⊢
    have comma := faces_comma faces
    have inside := faces_cons comma.bump
    have here := readable next List.mem_cons_self
    have taken : Takes s.bump _ [next] := @Readable.element _ _ _ (.ofList [.rightParen, .comma]) _ _
      here (enough next List.mem_cons_self) inside (ends_listRest (.inl rfl))
    have both := (Takes.bump comma).trans taken
    have other := (starts_expr config (.inl rfl) _ (here.atExprStart inside)).1
    rw [repeatStep_of_go (by
        rw [elementStep, if_pos comma.isAt_here, other, if_neg Bool.false_ne_true])
      (both.shorter comma (List.cons_ne_nil _ _))]
    exact both.trans (ih (fun element member => readable element (List.mem_cons_of_mem _ member))
      (fun element member => enough element (List.mem_cons_of_mem _ member))
      (taken.faces_one inside))

/-- The elements of a list up to the bracket that closes it. -/
theorem takes_commaList (what : String) (closing : close = .rightParen ∨ close = .rightBracket)
    (readable : ∀ element ∈ elements, Readable config element)
    (enough : ∀ element ∈ elements, element.nodeKinds.length ≤ room)
    (faces : s.Faces (leavesAll (listed trailing elements) ++ (close, text) :: back)) :
    Takes s (commaList close what (atExprStart config)
      (fun recovery => construct config room (.expr 0 recovery)) s) (listed trailing elements) := by
  have ended {t : State} (ends : t.Faces ((close, text) :: back)) :
      commaList close what (atExprStart config)
        (fun recovery => construct config room (.expr 0 recovery)) t = t := by
    rw [commaList]
    exact repeatStep_of_halt (by rw [ends.isAt_eq, BEq.rfl, Bool.true_or, if_pos rfl])
  induction elements generalizing s with
  | nil =>
    rw [listed, leavesAll_nil, List.nil_append] at faces
    rw [listed, ended faces]
    exact .refl s
  | cons first rest ih =>
    rw [listed] at faces ⊢
    have here := readable first List.mem_cons_self
    have inside := faces_cons faces
    have taken : Takes s _ [first] := @Readable.element _ _ _ (.ofList [close, .comma]) _ _
      here (enough first List.mem_cons_self) inside (ends_listRest closing)
    have begins := here.atExprStart inside
    have other := (starts_expr config closing _ begins).1
    have after := taken.faces_one inside
    obtain ⟨leaf, more, leaves, -⟩ := here.begins
    have some := inside
    rw [leaves, List.cons_append] at some
    have inner : s.atEnd = false := inside_of_kind fun ends => by
      have member := mem_of_atExprStart begins
      rw [ends] at member
      exact absurd member (by decide)
    -- The comma after the element, where there is one, belongs to the same step of the loop.
    have step {u : State} {comma : List Tree}
        (separated : Takes (construct config room (.expr 0 (.ofList [close, .comma])) s) u comma)
        (same : separator close (.ofList [close, .comma])
          (construct config room (.expr 0 (.ofList [close, .comma])) s) = u) :
        Takes s u (first :: comma) ∧ commaList close what (atExprStart config)
            (fun recovery => construct config room (.expr 0 recovery)) s =
          commaList close what (atExprStart config)
            (fun recovery => construct config room (.expr 0 recovery)) u := by
      have both := taken.trans separated
      refine ⟨both, ?_⟩
      rw [commaList, commaList]
      refine repeatStep_of_go ?_ (both.shorter some ?_)
      · rw [other, inner, Bool.or_false, if_neg Bool.false_ne_true, if_pos begins, same]
      · rw [List.singleton_append, leavesAll_cons, leaves]
        exact List.cons_ne_nil _ _
    rcases listRest_cases trailing rest with ⟨rfl, last⟩ | more
    · rw [last, leavesAll_nil, List.nil_append] at after
      obtain ⟨both, same⟩ := step (.refl _) (by
        rw [separator, if_neg (after.isAt_other (by rcases closing with rfl | rfl <;> decide)),
          if_pos (by rw [after.isAt_here, Bool.true_or])])
      rw [last, same, ended after]
      exact both
    · rw [more] at after
      have comma := faces_comma after
      obtain ⟨both, same⟩ := step (.bump comma) (by rw [separator, if_pos comma.isAt_here])
      rw [more, same]
      exact both.trans (ih (fun element member => readable element (List.mem_cons_of_mem _ member))
        (fun element member => enough element (List.mem_cons_of_mem _ member)) comma.bump)

/-- A list between brackets, in a node. -/
theorem takes_delimited (kind : NodeKind) (what : String) {opening : TokenKind} {mark : String}
    (closing : close = .rightParen ∨ close = .rightBracket)
    (readable : ∀ element ∈ elements, Readable config element)
    (enough : ∀ element ∈ elements, element.nodeKinds.length ≤ room)
    (faces : s.Faces ((opening, mark) ::
      (leavesAll (listed trailing elements) ++ (close, text) :: back))) :
    Takes s (delimited kind close what (atExprStart config)
        (fun recovery => construct config room (.expr 0 recovery)) s)
      [.node kind (.leaf opening mark :: (listed trailing elements ++ [.leaf close text]))] := by
  have before := Takes.bump faces.openNode
  have inside := State.Faces.bump faces.openNode
  have list := (takes_commaList what closing readable enough (inside.pushBreaks false)).popBreaks
  exact ((before.trans list).trans (.expect (list.faces inside))).closeNode kind

end Lists

section Groups

variable {elements rest : List Tree} {first : Tree} {trailing : Bool}

theorem faces_parenthesized {trees : List Tree}
    (faces : s.Faces (leavesAll (Tree.parenthesized trees) ++ back)) :
    s.Faces ((.leftParen, "(") :: (leavesAll trees ++ (.rightParen, ")") :: back)) := by
  rwa [Tree.parenthesized, leavesAll_leaf_append, leavesAll_append, List.append_assoc,
    leavesAll_leaf_append, leavesAll_nil, List.nil_append] at faces

/-- Nothing between parentheses. -/
theorem takes_unit
    (faces : s.Faces (leavesAll (Tree.parenthesized []) ++ back)) (inner : ConstructRule) :
    Takes s (Grammar.parenthesized inner s) [.node .tupleExpr (Tree.parenthesized [])] := by
  have faces := (faces_parenthesized faces).openNode
  rw [leavesAll_nil, List.nil_append] at faces
  have inside := State.Faces.bump faces
  rw [Grammar.parenthesized, nodeOf]
  simp only [if_pos (State.Faces.isAt_here (inside.pushBreaks false))]
  exact ((Takes.bump faces).trans (.expect inside)).closeNode .tupleExpr

theorem faces_bracketed {trees : List Tree}
    (faces : s.Faces (leavesAll (Tree.bracketed trees) ++ back)) :
    s.Faces ((.leftBracket, "[") :: (leavesAll trees ++ (.rightBracket, "]") :: back)) := by
  rwa [Tree.bracketed, leavesAll_leaf_append, leavesAll_append, List.append_assoc,
    leavesAll_leaf_append, leavesAll_nil, List.nil_append] at faces

/-- Expressions between parentheses are a tuple if there is a comma after the first. -/
theorem takes_parenthesized (readable : ∀ element ∈ first :: rest, Readable config element)
    (enough : ∀ element ∈ first :: rest, element.nodeKinds.length ≤ room)
    (faces : s.Faces (leavesAll (Tree.parenthesized (listed trailing (first :: rest))) ++ back)) :
    Takes s (Grammar.parenthesized (construct config room) s)
      [.node (if (listRest trailing rest).isEmpty then .parenExpr else .tupleExpr)
        (Tree.parenthesized (listed trailing (first :: rest)))] := by
  have faces := (faces_parenthesized faces).openNode
  have before := Takes.bump faces
  have inside := State.Faces.bump faces
  rw [listed] at inside
  have here := readable first List.mem_cons_self
  have here' := faces_cons (inside.pushBreaks false)
  have taken := @Readable.element _ _ _ (.ofList [.rightParen, .comma]) _ _ here
    (enough first List.mem_cons_self) here' (ends_listRest (.inl rfl))
  have after := taken.faces_one here'
  have others := takes_elements (fun element member => readable element (List.mem_cons_of_mem _ member))
    (fun element member => enough element (List.mem_cons_of_mem _ member)) after
  have list := (taken.trans others).popBreaks
  have other := (starts_expr config (.inl rfl) _ (here.atExprStart here')).1
  have kind : (if State.isAt .comma (construct config room
        (.expr 0 (.ofList [.rightParen, .comma])) (s.openNode.bump.pushBreaks false)) then
      NodeKind.tupleExpr else .parenExpr) =
      if (listRest trailing rest).isEmpty then .parenExpr else .tupleExpr := by
    rcases listRest_cases trailing rest with ⟨-, last⟩ | more
    · rw [last, leavesAll_nil, List.nil_append] at after
      rw [last, if_neg (after.isAt_other (by decide))]
      rfl
    · rw [more] at after
      rw [more, if_pos (faces_comma after).isAt_here]
      rfl
  rw [Grammar.parenthesized, nodeOf]
  simp only [other, Bool.false_eq_true, ↓reduceIte]
  rw [kind]
  exact ((before.trans list).trans (.expect (list.faces inside))).closeNode _

end Groups

theorem length_le_of_mem {trees : List Tree} (member : tree ∈ trees) :
    tree.nodeKinds.length ≤ (nodeKindsAll trees).length := by
  induction trees with
  | nil => exact absurd member List.not_mem_nil
  | cons first rest ih =>
    rw [nodeKindsAll, List.length_append]
    rcases List.mem_cons.mp member with rfl | member
    · exact Nat.le_add_right _ _
    · exact Nat.le_trans (ih member) (Nat.le_add_left _ _)

theorem mem_listed (trailing : Bool) {elements : List Tree} (member : tree ∈ elements) :
    tree ∈ listed trailing elements := by
  induction elements with
  | nil => exact absurd member List.not_mem_nil
  | cons first rest ih =>
    rw [listed]
    rcases List.mem_cons.mp member with rfl | member
    · exact List.mem_cons_self
    · rcases listRest_cases trailing rest with ⟨rfl, -⟩ | more
      · exact absurd member List.not_mem_nil
      · rw [more]
        exact List.mem_cons_of_mem _ (List.mem_cons_of_mem _ (ih member))

namespace Readable

/-- What holds of an operand that is taken before the loop over the forms after it makes it
readable. -/
theorem of_operand (node : 0 < tree.nodeKinds.length)
    (begins : ∃ first rest, tree.leaves = first :: rest ∧ opens config.operators first = true)
    (operand : ∀ room recovery s back, tree.nodeKinds.length ≤ room + 1 →
      s.Faces (tree.leaves ++ back) → TakesOperand config room recovery tree s) :
    Readable config tree where
  node := node
  begins := begins
  expr := fun room least recovery s back enough faces closes _ => by
    obtain ⟨s', takes, same⟩ := operand room recovery s back enough faces
    refine ⟨s', takes, ?_⟩
    rw [exprBody, same]
    simp only [↓reduceIte]
    rw [postfixForms_of_apart (takes.faces_one faces) closes.apart]
  operand := fun room recovery s back _ => operand room recovery s back

theorem literal {kind : TokenKind} {text : String} (closed : Literal kind text) :
    Readable config (.node .literal [.leaf kind text]) := by
  have literal : literalKinds.contains kind = true := by
    cases closed with
    | string delimits closed =>
      rw [Lexeme.stringKind]
      split <;> rfl
    | _ => rfl
  refine of_operand (by simp [nodeKinds]) ⟨(kind, text), [], by simp [leavesAll, leaves], ?_⟩
    fun room recovery s back enough faces => ?_
  · rw [opens, literal]
    rfl
  · rw [leaves_node, leavesAll_leaf_append, leavesAll_nil, List.nil_append] at faces
    refine ⟨_, (Takes.bump faces.openNode).closeNode .literal, ?_⟩
    rw [Grammar.operand, if_pos (by rw [isAtAny, faces.kind_eq, literal])]
    rfl

theorem name (text : String) : Readable config (.node .nameRef [.leaf .ident text]) := by
  refine of_operand (by simp [nodeKinds]) ⟨(.ident, text), [], by simp [leavesAll, leaves], rfl⟩
    fun room recovery s back enough faces => ?_
  rw [leaves_node, leavesAll_leaf_append, leavesAll_nil, List.nil_append] at faces
  refine ⟨_, (Takes.bump faces.openNode).closeNode .nameRef, ?_⟩
  rw [Grammar.operand, if_neg (by rw [isAtAny, faces.kind_eq]; decide), if_pos faces.isAt_here]
  rfl

/-- An operand that begins with a parenthesis. -/
theorem group {kind : NodeKind} {trees : List Tree}
    (takes : ∀ room s back, (nodeKindsAll (Tree.parenthesized trees)).length ≤ room →
      s.Faces (leavesAll (Tree.parenthesized trees) ++ back) →
      Takes s (Grammar.parenthesized (Grammar.construct config room) s)
        [.node kind (Tree.parenthesized trees)]) :
    Readable config (.node kind (Tree.parenthesized trees)) := by
  refine of_operand (by simp [nodeKinds]) ⟨(.leftParen, "("), _, by
    rw [leaves_node, Tree.parenthesized, leavesAll_cons, leaves, List.singleton_append], rfl⟩
    fun room recovery s back enough faces => ?_
  rw [leaves_node] at faces
  refine ⟨_, takes room s back (Nat.le_of_succ_le_succ enough) faces, ?_⟩
  have faces := faces_parenthesized faces
  rw [Grammar.operand, if_neg (by rw [isAtAny, faces.kind_eq]; decide),
    if_neg (faces.isAt_other (by decide)), if_pos faces.isAt_here]

theorem paren (readable : Readable config tree) :
    Readable config (.node .parenExpr (Tree.parenthesized [tree])) := by
  refine group fun room s back enough faces => ?_
  have here : ∀ element ∈ [tree], Readable config element := fun element member =>
    List.mem_singleton.mp member ▸ readable
  exact @takes_parenthesized _ _ _ _ [] tree false here (fun element member =>
    Nat.le_trans (length_le_of_mem (List.mem_cons_of_mem _ (List.mem_append_left _ member))) enough)
    faces

variable {elements : List Tree} {trailing : Bool}

theorem tuple (other : elements.length = 1 → trailing = true)
    (readable : ∀ element ∈ elements, Readable config element) :
    Readable config (.node .tupleExpr (Tree.parenthesized (listed trailing elements))) := by
  refine group fun room s back enough faces => ?_
  cases elements with
  | nil => exact takes_unit faces _
  | cons first rest =>
    have taken := takes_parenthesized readable (fun element member =>
      Nat.le_trans (length_le_of_mem (List.mem_cons_of_mem _
        (List.mem_append_left _ (mem_listed trailing member)))) enough) faces
    rcases listRest_cases trailing rest with ⟨rfl, last⟩ | more
    · rw [listRest, other rfl] at last
      exact absurd last (List.cons_ne_nil _ _)
    · rwa [more] at taken

theorem array (readable : ∀ element ∈ elements, Readable config element) :
    Readable config (.node .arrayExpr (Tree.bracketed (listed trailing elements))) := by
  refine of_operand (by simp [nodeKinds]) ⟨(.leftBracket, "["), _, by
    rw [leaves_node, Tree.bracketed, leavesAll_cons, leaves, List.singleton_append], rfl⟩
    fun room recovery s back enough faces => ?_
  rw [leaves_node] at faces
  have faces := faces_bracketed faces
  refine ⟨_, takes_delimited .arrayExpr "expression" (.inr rfl) readable (fun element member =>
    Nat.le_trans (length_le_of_mem (List.mem_cons_of_mem _
      (List.mem_append_left _ (mem_listed trailing member)))) (Nat.le_of_succ_le_succ enough)) faces,
    ?_⟩
  rw [Grammar.operand, if_neg (by rw [isAtAny, faces.kind_eq]; decide),
    if_neg (faces.isAt_other (by decide)), if_neg (faces.isAt_other (by decide)),
    if_pos faces.isAt_here]

theorem exists_node (readable : Readable config tree) :
    ∃ kind children, tree = .node kind children := by
  cases tree with
  | node kind children => exact ⟨kind, children, rfl⟩
  | leaf kind text => exact absurd readable.node (by rw [nodeKinds]; decide)

theorem begins_cons (readable : Readable config tree) (kind : NodeKind) (trees : List Tree) :
    ∃ first rest, (Tree.node kind (tree :: trees)).leaves = first :: rest ∧
      opens config.operators first = true := by
  obtain ⟨first, rest, leaves, begins⟩ := readable.begins
  exact ⟨first, rest ++ leavesAll trees, by rw [leaves_node, leavesAll_cons, leaves,
    List.cons_append], begins⟩

/-- An operand with another form after it is an operand. -/
theorem extend (readable : Readable config tree) (operand : tree.isOperand = true)
    (kind : TokenKind) {form : NodeKind} {trees : List Tree}
    (begins : ∃ text rest, leavesAll trees = (kind, text) :: rest) (body : Nat → State → State)
    (step : ∀ room s, Coupling.postfixForm config (Grammar.construct config room) kind s =
      (true, s.wrap form (body room)))
    (takes : ∀ room s back, (nodeKindsAll trees).length ≤ room → s.Faces (leavesAll trees ++ back) →
      Takes s (body room s) trees) :
    Readable config (.node form (tree :: trees)) := by
  refine of_operand (by simp [nodeKinds]) (readable.begins_cons form trees)
    fun room recovery s back enough faces => ?_
  rw [leaves_node, leavesAll_cons, List.append_assoc] at faces
  rw [nodeKinds, nodeKindsAll, List.length_cons, List.length_append] at enough
  obtain ⟨text, rest, begins⟩ := begins
  obtain ⟨s', taken, same⟩ := readable.operand room recovery s _ operand (by omega) faces
  obtain ⟨inside, children, rfl⟩ := readable.exists_node
  have after := (taken.faces_one faces).precedeNode
  have more := takes room _ back (by omega) after
  rw [begins, List.cons_append] at after
  refine ⟨closeWrap s' form (body room s'.precedeNode), taken.closeWrap more, ?_⟩
  rw [same]
  refine congrArg (Prod.mk true) (repeatStep_of_go ?_ ?_)
  · have here : s'.Faces ((kind, text) :: (rest ++ back)) :=
      ⟨after.ahead, after.flat, after.finish⟩
    rw [here.atBreak_eq, if_neg Bool.false_ne_true]
    change Coupling.postfixForm config (Grammar.construct config room) s'.kind s' = _
    rw [here.kind_eq, step, State.wrap]
  · rw [ahead_closeWrap]
    exact more.shorter after (by rw [begins]; exact List.cons_ne_nil _ _)

theorem call (readable : Readable config tree) (operand : tree.isOperand = true)
    (arguments : ∀ element ∈ elements, Readable config element) :
    Readable config
      (.node .callExpr [tree, .node .argList (Tree.parenthesized (listed trailing elements))]) := by
  refine readable.extend operand .leftParen ⟨"(", _, by
    rw [leavesAll_singleton, leaves_node, Tree.parenthesized, leavesAll_cons, leaves,
      List.singleton_append]⟩
    (fun room => delimited .argList .rightParen "argument" (Grammar.atExprStart config)
      fun recovery => Grammar.construct config room (.expr 0 recovery))
    (fun room s => rfl) fun room s back enough faces => ?_
  rw [leavesAll_singleton, leaves_node] at faces
  rw [nodeKindsAll, nodeKinds, List.length_append, List.length_cons] at enough
  refine takes_delimited .argList "argument" (.inl rfl) arguments (fun element member => ?_)
    (faces_parenthesized faces)
  have inside := length_le_of_mem (List.mem_cons_of_mem (.leaf .leftParen "(")
    (List.mem_append_left [.leaf .rightParen ")"] (mem_listed trailing member)))
  rw [Tree.parenthesized] at enough
  omega

theorem index {inner : Tree} (readable : Readable config tree) (operand : tree.isOperand = true)
    (within : Readable config inner) :
    Readable config (.node .indexExpr (tree :: Tree.bracketed [inner])) := by
  refine readable.extend operand .leftBracket ⟨"[", _, by
    rw [Tree.bracketed, leavesAll_cons, leaves, List.singleton_append]⟩
    (fun room s => (s.bump.withBreaks false
      (Grammar.construct config room (.expr 0 (.ofList [.rightBracket])))).expect .rightBracket)
    (fun room s => rfl) fun room s back enough faces => ?_
  have faces := faces_bracketed faces
  have inside := faces_cons faces.bump
  rw [leavesAll_nil, List.nil_append] at inside
  have taken := @Readable.element _ _ _ (.ofList [.rightBracket]) _ _ within
    (Nat.le_trans (length_le_of_mem (List.mem_cons_of_mem _ List.mem_cons_self)) enough)
    (inside.pushBreaks false) (.of_cons "]" (by decide) back)
  have after : State.Faces _ ((.rightBracket, "]") :: back) :=
    taken.popBreaks.faces_one inside
  exact ((Takes.bump faces).trans taken.popBreaks).trans (.expect after)

theorem member (readable : Readable config tree) (operand : tree.isOperand = true) (text : String) :
    Readable config (.node .memberExpr [tree, .leaf .dot ".", .leaf .ident text]) := by
  refine readable.extend operand .dot ⟨".", _, by
    rw [leavesAll_cons, leaves, List.singleton_append]⟩ (fun _ s => s.bump.expect .ident)
    (fun room s => rfl) fun room s back enough faces => ?_
  rw [leavesAll_leaf_append, leavesAll_leaf_append] at faces
  exact (Takes.bump faces).trans (.expect faces.bump)

theorem prefixed {operator : String} {power : Nat} (readable : Readable config tree)
    (known : config.operators.unaryPower? operator = some power)
    (tight : ∀ inner ∈ tree.leftPowers config.operators, power ≤ inner) :
    Readable config (.node .prefixExpr [.leaf .symbol operator, tree]) where
  node := by simp [nodeKinds]
  begins := ⟨(.symbol, operator), _, by rw [leaves_node, leavesAll_cons, leaves,
    List.singleton_append], by simp [opens, known]⟩
  expr := fun room least recovery s back enough faces closes _ => by
    rw [leaves_node, leavesAll_leaf_append, leavesAll_singleton] at faces
    have loose : ∀ inner ∈ power :: tree.rightPowers config.operators,
        Weak config.operators inner back := by
      have loose := closes.loose
      rwa [Operation.rightPowers_prefixed known] at loose
    have enough : tree.nodeKinds.length ≤ room := by
      simpa [nodeKinds, nodeKindsAll] using enough
    have taken := @Readable.construct _ _ _ _ recovery _ _ readable enough (faces.openNode.bump)
      ⟨closes.apart, fun inner within => loose inner (List.mem_cons_of_mem power within)⟩
      (loose power List.mem_cons_self) tight
    refine ⟨_, ((Takes.bump faces.openNode).trans taken).closeNode .prefixExpr, ?_⟩
    have found : Grammar.operand config (Grammar.construct config room) recovery s =
        (true, s.node .prefixExpr fun s =>
          Grammar.construct config room (.expr power recovery) s.bump) := by
      rw [Grammar.operand, if_neg (by rw [isAtAny, faces.kind_eq]; decide),
        if_neg (faces.isAt_other (by decide)), if_neg (faces.isAt_other (by decide)),
        if_neg (faces.isAt_other (by decide)), if_pos faces.isAt_here, faces.text_eq, known]
    rw [exprBody, found]
    rfl
  operand := fun room recovery s back operand => absurd operand Bool.false_ne_true

theorem binary {left right : Tree} {operator : String} {power : BindingPower}
    (first : Readable config left) (second : Readable config right)
    (known : config.operators.binaryPower? operator = some power)
    (loose : ∀ inner ∈ left.rightPowers config.operators, power.left < inner)
    (tight : ∀ inner ∈ right.leftPowers config.operators, power.right ≤ inner) :
    Readable config (.node .binaryExpr [left, .leaf .symbol operator, right]) where
  node := by simp [nodeKinds]
  begins := first.begins_cons .binaryExpr _
  expr := fun room least recovery s back enough faces closes strong => by
    rw [Operation.leftPowers_binary known] at strong
    have closes' := closes.loose
    rw [Operation.rightPowers_binary known] at closes'
    rw [leaves_node, leavesAll_cons, List.append_assoc, leavesAll_leaf_append,
      leavesAll_singleton] at faces
    rw [nodeKinds, nodeKindsAll, nodeKindsAll, nodeKindsAll, nodeKindsAll, nodeKinds,
      List.nil_append, List.append_nil, List.length_cons, List.length_append] at enough
    have held : Bounded config.operators left ((.symbol, operator) :: (right.leaves ++ back)) := by
      refine ⟨fun leaf head => ?_, fun inner within text found head same => ?_⟩
      · rw [← Option.some.inj head]
        exact (by decide : TokenKind.symbol ∉ extendingKinds)
      · obtain rfl : operator = text := congrArg Prod.snd (Option.some.inj head)
        rw [← Option.some.inj (known.symm.trans same)]
        exact loose inner within
    obtain ⟨s', taken, same⟩ := first.expr room least recovery s _ (by omega) faces held
      fun inner within => strong inner (List.mem_cons_of_mem _ within)
    have after := taken.faces_one faces
    have enough : right.nodeKinds.length ≤ room := by omega
    have more := @Readable.construct _ _ _ _ recovery _ _ second enough after.precedeNode.bump
      ⟨closes.apart, fun inner within => closes' inner (List.mem_cons_of_mem _ within)⟩
      (closes' power.right List.mem_cons_self) tight
    have rest := (Takes.bump after.precedeNode).trans more
    obtain ⟨inside, children, rfl⟩ := first.exists_node
    refine ⟨_, taken.closeWrap rest, ?_⟩
    rw [same, binaryOperators_eq]
    refine repeatStep_of_go ?_ ?_
    · rw [binaryStep, after.isAt_here, after.atBreak_eq, after.text_eq, known]
      simp only [Bool.not_false, Bool.and_self, ↓reduceIte]
      rw [if_neg (Nat.not_lt_of_le (strong power.left List.mem_cons_self)), State.wrap]
    · rw [ahead_closeWrap]
      exact rest.shorter after.precedeNode (List.cons_ne_nil _ _)
  operand := fun room recovery s back operand => absurd operand Bool.false_ne_true

end Readable

/-- Every written expression is readable. -/
theorem readable_of_expression (expression : Expression config.operators tree) :
    Readable config tree := by
  induction expression with
  | literal closed => exact .literal closed
  | name free => exact .name _
  | paren within ih => exact .paren ih
  | tuple other within ih => exact .tuple other ih
  | array trailing within ih => exact .array ih
  | call trailing operand first within base arguments => exact base.call operand arguments
  | index operand first within base inner => exact base.index operand inner
  | member operand first free base => exact base.member operand _
  | prefixed known tight within ih => exact ih.prefixed known tight
  | binary known loose tight first second left right => exact left.binary right known loose tight

end LosslessSyntax.Grammar
