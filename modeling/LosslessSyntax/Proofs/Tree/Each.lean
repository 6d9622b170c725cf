import Mathlib.Data.List.Induction
import LosslessSyntax.Proofs.Tree.Outline
import LosslessSyntax.Token.Basic

/-! # Outlines over their tokens

`Outline.Each` says what is true of every node of an outline, given the significant tokens from its
first one on. So a property of nodes may speak of the tokens that the node holds, and of those after
it. The tokens among the children of a node are its direct ones (`Outline.direct`).
-/

namespace LosslessSyntax.Outline

/-- A property of a node: its kind, the tokens from its first one on, and its children. -/
abbrev Property := NodeKind → List Token → List Outline → Prop

mutual
/-- A property holds of every node of an outline that begins at the first of some tokens. -/
def Each (holds : Property) (tokens : List Token) : Outline → Prop
  | .token => True
  | .node kind children => holds kind tokens children ∧ EachAll holds tokens children
/-- The same for outlines that follow each other. -/
def EachAll (holds : Property) (tokens : List Token) : List Outline → Prop
  | [] => True
  | first :: rest => Each holds tokens first ∧ EachAll holds (tokens.drop first.count) rest
end

/-- The tokens among the children of a node, which begins at the first of some tokens. -/
def direct (tokens : List Token) : List Outline → List Token
  | [] => []
  | .token :: rest => tokens.take 1 ++ direct (tokens.drop 1) rest
  | .node _ children :: rest => direct (tokens.drop (countAll children)) rest

variable {holds holds' : Property} {tokens : List Token}

@[simp] theorem each_token : Each holds tokens .token := by
  rw [Each]
  trivial

@[simp] theorem each_node {kind : NodeKind} {children : List Outline} :
    Each holds tokens (.node kind children) ↔
      holds kind tokens children ∧ EachAll holds tokens children := by
  rw [Each]

@[simp] theorem eachAll_nil : EachAll holds tokens [] := by
  rw [EachAll]
  trivial

@[simp] theorem eachAll_cons {first : Outline} {rest : List Outline} :
    EachAll holds tokens (first :: rest) ↔
      Each holds tokens first ∧ EachAll holds (tokens.drop first.count) rest := by
  rw [EachAll]

theorem eachAll_append {front back : List Outline} :
    EachAll holds tokens (front ++ back) ↔
      EachAll holds tokens front ∧ EachAll holds (tokens.drop (countAll front)) back := by
  induction front generalizing tokens with
  | nil => simp
  | cons first rest ih =>
    rw [List.cons_append, eachAll_cons, eachAll_cons, ih, List.drop_drop, countAll_cons, and_assoc]

theorem eachAll_replicate (count : Nat) : EachAll holds tokens (List.replicate count .token) := by
  induction count generalizing tokens with
  | zero => exact eachAll_nil
  | succ count ih => exact eachAll_cons.mpr ⟨each_token, ih⟩

/-- A node around the outline that was read last is the only one that is new. It begins no later than
what is put behind. -/
theorem eachAll_wrapLast {kind : NodeKind} {outlines rest : List Outline}
    (here : ∀ count ≤ countAll outlines, ∀ children, holds kind (tokens.drop count) children)
    (before : EachAll holds tokens outlines)
    (after : EachAll holds (tokens.drop (countAll outlines)) rest) :
    EachAll holds tokens (wrapLast kind rest outlines) := by
  induction outlines using List.reverseRecOn with
  | nil =>
    rw [wrapLast, eachAll_cons, each_node]
    exact ⟨⟨here 0 (Nat.zero_le _) _, by simpa using after⟩, eachAll_nil⟩
  | append_singleton front last =>
    rw [wrapLast_concat, eachAll_append]
    rw [eachAll_append] at before
    rw [countAll_append] at here after
    refine ⟨before.1, ?_⟩
    cases last with
    | token => simpa [wrapLast] using ⟨here _ (Nat.le_refl _) rest, after⟩
    | node inner children =>
      rw [← List.drop_drop] at after
      simp only [wrapLast, eachAll_cons, each_node, eachAll_nil, and_true]
      refine ⟨here _ (Nat.le_add_right _ _) _, (eachAll_cons.mp before.2).1, ?_⟩
      simpa using after

mutual
/-- A property follows from another one that holds of a node and of all nodes below it. -/
theorem Each.imp {tokens : List Token} {outline : Outline}
    (follows : ∀ kind tokens children, holds kind tokens children → EachAll holds tokens children →
      holds' kind tokens children) (each : Each holds tokens outline) : Each holds' tokens outline := by
  match outline with
  | .token => exact each_token
  | .node kind children =>
    obtain ⟨here, below⟩ := each_node.mp each
    exact each_node.mpr ⟨follows _ _ _ here below, EachAll.imp follows below⟩
theorem EachAll.imp {tokens : List Token} {outlines : List Outline}
    (follows : ∀ kind tokens children, holds kind tokens children → EachAll holds tokens children →
      holds' kind tokens children) (each : EachAll holds tokens outlines) :
    EachAll holds' tokens outlines := by
  match outlines with
  | [] => exact eachAll_nil
  | first :: rest =>
    obtain ⟨here, others⟩ := eachAll_cons.mp each
    exact eachAll_cons.mpr ⟨Each.imp follows here, EachAll.imp follows others⟩
end

theorem direct_replicate {count : Nat} (tokens : List Token) :
    direct tokens (List.replicate count .token) = tokens.take count := by
  induction count generalizing tokens with
  | zero => rw [List.replicate_zero, direct, List.take_zero]
  | succ count ih => rw [List.replicate_succ, direct, ih, ← List.take_add, Nat.add_comm]

theorem direct_nodes {outlines : List Outline} (tokens : List Token)
    (nodes : ∀ outline ∈ outlines, outline ≠ .token) : direct tokens outlines = [] := by
  induction outlines generalizing tokens with
  | nil => rw [direct]
  | cons first rest ih =>
    cases first with
    | token => exact absurd rfl (nodes .token List.mem_cons_self)
    | node kind children =>
      rw [direct]
      exact ih _ fun outline member => nodes outline (List.mem_cons_of_mem _ member)

end LosslessSyntax.Outline
