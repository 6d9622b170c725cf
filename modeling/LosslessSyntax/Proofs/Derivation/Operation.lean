import LosslessSyntax.Operator.Table
import LosslessSyntax.Tree.Basic

/-! # Operator trees

An expression is a tree of operators over operands (`Operation`). Where two operators compete for an
operand, the one that holds it with the greater power gets it: so an operator holds its left operand
looser than every operator on the right edge of that operand does (`rightPowers`), and its right
operand no tighter than the operators on the left edge hold theirs (`leftPowers`). Operands and
operators in a row (`items`) determine the tree (`Operation.eq_of_items`).
-/

namespace LosslessSyntax

namespace Tree

variable (table : OperatorTable)

/-- The powers with which binary operators hold the left edge of a tree. -/
def leftPowers : Tree → List Nat
  | .node .binaryExpr [left, .leaf _ operator, _] =>
    ((table.binaryPower? operator).map (·.left)).toList ++ leftPowers left
  | _ => []

/-- The powers with which operators hold the right edge of a tree. -/
def rightPowers : Tree → List Nat
  | .node .binaryExpr [_, .leaf _ operator, right] =>
    ((table.binaryPower? operator).map (·.right)).toList ++ rightPowers right
  | .node .prefixExpr [.leaf _ operator, operand] =>
    (table.unaryPower? operator).toList ++ rightPowers operand
  | _ => []

/-- The operands and operators of a tree in a row. -/
def items : Tree → List Tree
  | .node .binaryExpr [left, .leaf kind operator, right] =>
    items left ++ .leaf kind operator :: items right
  | .node .prefixExpr [.leaf kind operator, operand] => .leaf kind operator :: items operand
  | tree => [tree]

end Tree

open LosslessSyntax.Tree

variable {table : OperatorTable}

/-- A tree of operators over operands in which every operand is held by the operator that holds it
tighter. -/
inductive Operation (table : OperatorTable) : Tree → Prop where
  | operand {kind : NodeKind} {children : List Tree} (notPrefix : kind ≠ .prefixExpr)
      (notBinary : kind ≠ .binaryExpr) : Operation table (.node kind children)
  | prefixed {operator : String} {operand : Tree} {power : Nat}
      (known : table.unaryPower? operator = some power)
      (tight : ∀ inner ∈ operand.leftPowers table, power ≤ inner)
      (within : Operation table operand) :
      Operation table (.node .prefixExpr [.leaf .symbol operator, operand])
  | binary {left right : Tree} {operator : String} {power : BindingPower}
      (known : table.binaryPower? operator = some power)
      (loose : ∀ inner ∈ left.rightPowers table, power.left < inner)
      (tight : ∀ inner ∈ right.leftPowers table, power.right ≤ inner)
      (first : Operation table left) (second : Operation table right) :
      Operation table (.node .binaryExpr [left, .leaf .symbol operator, right])

namespace Operation

@[simp] theorem leftPowers_binary {left right : Tree} {kind : TokenKind} {operator : String}
    {power : BindingPower} (known : table.binaryPower? operator = some power) :
    leftPowers table (.node .binaryExpr [left, .leaf kind operator, right]) =
      power.left :: leftPowers table left := by
  simp [leftPowers, known]

@[simp] theorem rightPowers_binary {left right : Tree} {kind : TokenKind} {operator : String}
    {power : BindingPower} (known : table.binaryPower? operator = some power) :
    rightPowers table (.node .binaryExpr [left, .leaf kind operator, right]) =
      power.right :: rightPowers table right := by
  simp [rightPowers, known]

@[simp] theorem rightPowers_prefixed {operand : Tree} {kind : TokenKind} {operator : String}
    {power : Nat} (known : table.unaryPower? operator = some power) :
    rightPowers table (.node .prefixExpr [.leaf kind operator, operand]) =
      power :: rightPowers table operand := by
  simp [rightPowers, known]

@[simp] theorem leftPowers_prefixed (children : List Tree) :
    leftPowers table (.node .prefixExpr children) = [] := by
  simp [leftPowers]

theorem edges_operand {kind : NodeKind} (notPrefix : kind ≠ .prefixExpr)
    (notBinary : kind ≠ .binaryExpr) (children : List Tree) :
    leftPowers table (.node kind children) = [] ∧ rightPowers table (.node kind children) = [] ∧
      items (.node kind children) = [.node kind children] := by
  refine ⟨?_, ?_, ?_⟩
  · unfold leftPowers
    split <;> simp_all
  · unfold rightPowers
    split <;> simp_all
  · unfold items
    split <;> simp_all

/-- The tree that binary operators make of a tree on their left, one after the other, where each of
them holds its left operand with at least the given power. The operators and the items of their right
operands are listed. -/
inductive Chain (table : OperatorTable) (least : Nat) : Tree → List Tree → Tree → Prop where
  | nil (tree : Tree) : Chain table least tree [] tree
  | cons {left right whole : Tree} {operator : String} {power : BindingPower} {more : List Tree}
      (known : table.binaryPower? operator = some power) (strong : least ≤ power.left)
      (loose : ∀ inner ∈ left.rightPowers table, power.left < inner)
      (tight : ∀ inner ∈ right.leftPowers table, power.right ≤ inner)
      (second : Operation table right)
      (rest : Chain table least (.node .binaryExpr [left, .leaf .symbol operator, right]) more
        whole) :
      Chain table least left (.leaf .symbol operator :: items right ++ more) whole

theorem Chain.concat {least : Nat} {head left right : Tree} {operator : String}
    {power : BindingPower} {more : List Tree} (chain : Chain table least head more left)
    (known : table.binaryPower? operator = some power) (strong : least ≤ power.left)
    (loose : ∀ inner ∈ left.rightPowers table, power.left < inner)
    (tight : ∀ inner ∈ right.leftPowers table, power.right ≤ inner)
    (second : Operation table right) :
    Chain table least head (more ++ .leaf .symbol operator :: items right)
      (.node .binaryExpr [left, .leaf .symbol operator, right]) := by
  induction chain with
  | nil tree =>
    rw [List.nil_append, ← List.append_nil (_ :: items right)]
    exact .cons known strong loose tight second (.nil _)
  | cons known' strong' loose' tight' second' rest ih =>
    rw [List.append_assoc]
    exact .cons known' strong' loose' tight' second' (ih loose)

/-- Every tree of operators is an operand, perhaps with a prefix operator, and a chain of binary
operators. -/
theorem exists_chain {least : Nat} {tree : Tree} (operation : Operation table tree)
    (strong : ∀ inner ∈ tree.leftPowers table, least ≤ inner) :
    ∃ head more, Operation table head ∧ head.nodeKind? ≠ some .binaryExpr ∧
      Chain table least head more tree ∧ tree.items = head.items ++ more := by
  induction operation with
  | @operand kind children notPrefix notBinary =>
    exact ⟨_, [], .operand notPrefix notBinary, fun here => notBinary (Option.some.inj here),
      .nil _, (List.append_nil _).symm⟩
  | @prefixed operator operand power known tight within ih =>
    exact ⟨_, [], .prefixed known tight within, by simp [nodeKind?], .nil _,
      (List.append_nil _).symm⟩
  | @binary left right operator power known loose tight first second ih _ =>
    rw [leftPowers_binary known] at strong
    obtain ⟨head, more, inner, kind, chain, split⟩ :=
      ih fun inner member => strong inner (List.mem_cons_of_mem _ member)
    refine ⟨head, _, inner, kind, chain.concat known (strong _ List.mem_cons_self) loose tight second,
      ?_⟩
    rw [items, split, List.append_assoc]

/-- What follows a tree does not begin with an operator that would take the tree, or a part of its
right edge, for its left operand. -/
def Stops (table : OperatorTable) (least : Nat) (tree : Tree) (rest : List Tree) : Prop :=
  ∀ operator power, rest.head? = some (.leaf .symbol operator) →
    table.binaryPower? operator = some power →
    power.left < least ∧ ∀ inner ∈ tree.rightPowers table, power.left < inner

theorem Chain.stops {least : Nat} {head whole : Tree} {more rest : List Tree}
    (chain : Chain table least head more whole) (stops : Stops table least whole rest) :
    ∀ operator power, (more ++ rest).head? = some (.leaf .symbol operator) →
      table.binaryPower? operator = some power →
      ∀ inner ∈ head.rightPowers table, power.left < inner := by
  intro operator power here known inner member
  cases chain with
  | nil => exact (stops operator power here known).2 inner member
  | cons known' strong loose tight second rest =>
    obtain ⟨-, rfl⟩ := Tree.leaf.inj (Option.some.inj here)
    obtain rfl := Option.some.inj (known'.symm.trans known)
    exact loose inner member

/-- Trees with at most so many items are known from what they begin. -/
def Determined (table : OperatorTable) (size : Nat) : Prop :=
  ∀ (least : Nat) (tree tree' : Tree) (rest rest' : List Tree), tree.items.length ≤ size →
    Operation table tree → Operation table tree' →
    (∀ inner ∈ tree.leftPowers table, least ≤ inner) →
    (∀ inner ∈ tree'.leftPowers table, least ≤ inner) →
    Stops table least tree rest → Stops table least tree' rest' →
    tree.items ++ rest = tree'.items ++ rest' → tree = tree' ∧ rest = rest'

/-- The first operand of a chain is known from what it begins. -/
theorem Determined.heads {size least : Nat} (determined : Determined table size)
    {head head' whole whole' : Tree} {more more' rest rest' : List Tree}
    (small : head.items.length ≤ size + 1) (inner : Operation table head)
    (inner' : Operation table head') (kind : head.nodeKind? ≠ some .binaryExpr)
    (kind' : head'.nodeKind? ≠ some .binaryExpr) (chain : Chain table least head more whole)
    (chain' : Chain table least head' more' whole') (stops : Stops table least whole rest)
    (stops' : Stops table least whole' rest')
    (same : head.items ++ (more ++ rest) = head'.items ++ (more' ++ rest')) :
    head = head' ∧ more ++ rest = more' ++ rest' := by
  have onward := chain.stops stops
  have onward' := chain'.stops stops'
  cases inner with
  | binary => exact absurd rfl kind
  | operand notPrefix notBinary =>
    rw [(@edges_operand table _ notPrefix notBinary _).2.2] at same
    cases inner' with
    | binary => exact absurd rfl kind'
    | operand notPrefix' notBinary' =>
      rw [(@edges_operand table _ notPrefix' notBinary' _).2.2] at same
      exact List.cons.inj same
    | prefixed known' tight' within' =>
      rw [items] at same
      exact Tree.noConfusion (List.cons.inj same).1
  | prefixed known tight within =>
    cases inner' with
    | binary => exact absurd rfl kind'
    | operand notPrefix' notBinary' =>
      rw [(@edges_operand table _ notPrefix' notBinary' _).2.2, items] at same
      exact Tree.noConfusion (List.cons.inj same).1
    | prefixed known' tight' within' =>
      rw [items, List.length_cons] at small
      rw [items, items, List.cons_append, List.cons_append, List.cons.injEq] at same
      obtain ⟨operator, same⟩ := same
      obtain ⟨-, rfl⟩ := Tree.leaf.inj operator
      obtain rfl := Option.some.inj (known.symm.trans known')
      simp only [rightPowers_prefixed known, List.forall_mem_cons] at onward onward'
      obtain ⟨rfl, rest⟩ := determined _ _ _ _ _ (Nat.le_of_succ_le_succ small) within within'
        tight tight' onward onward' same
      exact ⟨rfl, rest⟩

/-- What binary operators make of a tree on their left is known from what the chain begins. -/
theorem Determined.chains {size least : Nat} (determined : Determined table size)
    {head whole whole' : Tree} {more more' rest rest' : List Tree}
    (small : more.length ≤ size + 1) (chain : Chain table least head more whole)
    (chain' : Chain table least head more' whole') (stops : Stops table least whole rest)
    (stops' : Stops table least whole' rest') (same : more ++ rest = more' ++ rest') :
    whole = whole' ∧ rest = rest' := by
  induction chain generalizing more' with
  | nil tree =>
    cases chain' with
    | nil => exact ⟨rfl, same⟩
    | cons known strong =>
      have weak := (stops _ _ (by rw [List.nil_append] at same; rw [same]; rfl) known).1
      exact absurd strong (Nat.not_le_of_lt weak)
  | @cons left right whole operator power more known strong loose tight second next ih =>
    cases chain' with
    | nil =>
      have weak := (stops' _ _ (by rw [List.nil_append] at same; rw [← same]; rfl) known).1
      exact absurd strong (Nat.not_le_of_lt weak)
    | @cons _ right' _ operator' power' more' known' strong' loose' tight' second' next' =>
      rw [List.cons_append, List.cons_append, List.cons_append, List.cons_append,
        List.cons.injEq, List.append_assoc, List.append_assoc] at same
      obtain ⟨here, same⟩ := same
      obtain ⟨-, rfl⟩ := Tree.leaf.inj here
      obtain rfl := Option.some.inj (known.symm.trans known')
      rw [List.cons_append, List.length_cons, List.length_append] at small
      have onward := next.stops stops
      have onward' := next'.stops stops'
      simp only [rightPowers_binary known, List.forall_mem_cons] at onward onward'
      obtain ⟨rfl, after⟩ := determined _ _ _ _ _ (by omega) second second' tight tight' onward
        onward' same
      exact ih (by omega) next' stops after

theorem items_ne_nil {tree : Tree} (operation : Operation table tree) : tree.items ≠ [] := by
  cases operation with
  | operand notPrefix notBinary =>
    rw [(@edges_operand table _ notPrefix notBinary _).2.2]
    exact List.cons_ne_nil _ _
  | prefixed => exact List.cons_ne_nil _ _
  | binary =>
    rw [items]
    exact List.append_ne_nil_of_right_ne_nil _ (List.cons_ne_nil _ _)

theorem determined (table : OperatorTable) (size : Nat) : Determined table size := by
  induction size with
  | zero =>
    intro least tree tree' rest rest' small operation
    exact absurd (List.eq_nil_of_length_eq_zero (Nat.le_zero.mp small)) operation.items_ne_nil
  | succ size ih =>
    intro least tree tree' rest rest' small operation operation' strong strong' stops stops' same
    obtain ⟨head, more, inner, kind, chain, split⟩ := operation.exists_chain strong
    obtain ⟨head', more', inner', kind', chain', split'⟩ := operation'.exists_chain strong'
    rw [split, List.length_append] at small
    rw [split, split', List.append_assoc, List.append_assoc] at same
    obtain ⟨rfl, after⟩ := ih.heads (by omega) inner inner' kind kind' chain chain' stops stops' same
    exact ih.chains (by omega) chain chain' stops stops' after

/-- Operands and operators in a row are the items of one tree of operators only. -/
theorem eq_of_items {tree tree' : Tree} (operation : Operation table tree)
    (operation' : Operation table tree') (same : tree.items = tree'.items) : tree = tree' := by
  have stops (tree : Tree) : Stops table 0 tree [] := fun operator power here =>
    absurd here (Option.some_ne_none _).symm
  exact (determined table _ 0 tree tree' [] [] (Nat.le_refl _) operation operation'
    (fun inner _ => Nat.zero_le inner) (fun inner _ => Nat.zero_le inner) (stops tree) (stops tree')
    (by rw [same])).1

end Operation

end LosslessSyntax
