import Mathlib.Data.List.Induction
import LosslessSyntax.Proofs.Tree.Outline

/-! # Exchanging one block

A block of an outline is known by how many tokens are left where it begins and by the number of
blocks around it. `Outline.exchangeAll` puts other children into it, and `Outline.HasBlockAll` says
that it is there.
-/

namespace LosslessSyntax.Outline

mutual
/-- An outline that begins when `left` tokens are left, with other children in the block inside
`depth` blocks that begins when `place` tokens are left. -/
def exchange (place : Nat) (children' : List Outline) (depth left : Nat) : Outline → Outline
  | .token => .token
  | .node kind children =>
    if kind = .block then
      match depth with
      | 0 =>
        if left = place ∧ 0 < countAll children then .node kind children' else .node kind children
      | depth + 1 => .node kind (exchangeAll place children' depth left children)
    else .node kind (exchangeAll place children' depth left children)
/-- The same for several outlines. -/
def exchangeAll (place : Nat) (children' : List Outline) (depth left : Nat) :
    List Outline → List Outline
  | [] => []
  | first :: rest =>
    exchange place children' depth left first ::
      exchangeAll place children' depth (left - first.count) rest
end

mutual
/-- Whether an outline that begins when `left` tokens are left has, inside `depth` blocks, a block
that begins when `place` tokens are left and holds `size` tokens. -/
def HasBlock (place size depth left : Nat) : Outline → Prop
  | .token => False
  | .node kind children =>
    if kind = .block then
      match depth with
      | 0 => left = place ∧ countAll children = size
      | depth + 1 => HasBlockAll place size depth left children
    else HasBlockAll place size depth left children
/-- The same for several outlines. -/
def HasBlockAll (place size depth left : Nat) : List Outline → Prop
  | [] => False
  | first :: rest =>
    HasBlock place size depth left first ∨
      HasBlockAll place size depth (left - first.count) rest
end

variable {place size depth left : Nat} {children' : List Outline}

@[simp] theorem exchange_token : exchange place children' depth left .token = .token := by
  rw [exchange]

theorem exchange_other {kind : NodeKind} (other : kind ≠ .block) (children : List Outline) :
    exchange place children' depth left (.node kind children) =
      .node kind (exchangeAll place children' depth left children) := by
  cases depth <;> rw [exchange] <;> simp only [other, ↓reduceIte]

theorem exchange_block (children : List Outline) :
    exchange place children' (depth + 1) left (.node .block children) =
      .node .block (exchangeAll place children' depth left children) := by
  rw [exchange]
  simp only [↓reduceIte]

theorem exchange_here (children : List Outline) :
    exchange place children' 0 left (.node .block children) =
      if left = place ∧ 0 < countAll children then .node .block children'
      else .node .block children := by
  rw [exchange]
  simp only [↓reduceIte]

@[simp] theorem exchangeAll_nil : exchangeAll place children' depth left [] = [] := by
  rw [exchangeAll]

@[simp] theorem exchangeAll_cons (first : Outline) (rest : List Outline) :
    exchangeAll place children' depth left (first :: rest) =
      exchange place children' depth left first ::
        exchangeAll place children' depth (left - first.count) rest := by
  rw [exchangeAll]

theorem exchangeAll_append (front back : List Outline) :
    exchangeAll place children' depth left (front ++ back) =
      exchangeAll place children' depth left front ++
        exchangeAll place children' depth (left - countAll front) back := by
  induction front generalizing left with
  | nil => simp
  | cons first rest ih => simp only [List.cons_append, exchangeAll_cons, ih, countAll_cons, Nat.sub_sub]

mutual
/-- Outlines that end before the block, or begin after it, stay as they are. -/
theorem exchange_apart {depth left : Nat} (outline : Outline) (apart : left < place ∨ place + outline.count ≤ left) :
    exchange place children' depth left outline = outline := by
  match outline with
  | .token => exact exchange_token
  | .node kind children =>
    rw [count_node] at apart
    by_cases block : kind = .block
    · subst block
      cases depth with
      | zero =>
        rw [exchange_here, if_neg]
        omega
      | succ depth => rw [exchange_block, exchangeAll_apart children apart]
    · rw [exchange_other block, exchangeAll_apart children apart]
theorem exchangeAll_apart {depth left : Nat} (outlines : List Outline)
    (apart : left < place ∨ place + countAll outlines ≤ left) :
    exchangeAll place children' depth left outlines = outlines := by
  match outlines with
  | [] => exact exchangeAll_nil
  | first :: rest =>
    rw [countAll_cons] at apart
    rw [exchangeAll_cons, exchange_apart first (by omega), exchangeAll_apart rest (by omega)]
end

theorem exchangeAll_wrapLast {kind : NodeKind} (other : kind ≠ .block)
    (rest outlines : List Outline) :
    exchangeAll place children' depth left (wrapLast kind rest outlines) =
      wrapLast kind (exchangeAll place children' depth (left - countAll outlines) rest)
        (exchangeAll place children' depth left outlines) := by
  induction outlines using List.reverseRecOn with
  | nil => simp [wrapLast, exchange_other other]
  | append_singleton before last =>
    rw [wrapLast_concat, exchangeAll_append, exchangeAll_append, exchangeAll_cons, exchangeAll_nil,
      wrapLast_concat, countAll_append, countAll_cons, countAll_nil, Nat.add_zero, ← Nat.sub_sub]
    congr 1
    generalize left - countAll before = left
    cases last with
    | token => simp [wrapLast, exchange_other other]
    | node inner children =>
      obtain ⟨changed, same⟩ : ∃ changed,
          exchange place children' depth left (.node inner children) = .node inner changed := by
        rw [exchange.eq_def]
        dsimp only
        repeat' split
        all_goals exact ⟨_, rfl⟩
      rw [same, wrapLast, wrapLast, exchangeAll_cons, exchange_other other, exchangeAll_cons, same,
        exchangeAll_nil, count_node]

@[simp] theorem hasBlock_token : ¬ HasBlock place size depth left .token := by
  rw [HasBlock]
  exact id

theorem hasBlock_other {kind : NodeKind} (other : kind ≠ .block) (children : List Outline) :
    HasBlock place size depth left (.node kind children) ↔
      HasBlockAll place size depth left children := by
  cases depth <;> rw [HasBlock] <;> simp only [other, ↓reduceIte]

theorem hasBlock_block (children : List Outline) :
    HasBlock place size (depth + 1) left (.node .block children) ↔
      HasBlockAll place size depth left children := by
  rw [HasBlock]
  simp only [↓reduceIte]

theorem hasBlock_here (children : List Outline) :
    HasBlock place size 0 left (.node .block children) ↔
      left = place ∧ countAll children = size := by
  rw [HasBlock]
  simp only [↓reduceIte]

@[simp] theorem hasBlockAll_nil : ¬ HasBlockAll place size depth left [] := by
  rw [HasBlockAll]
  exact id

@[simp] theorem hasBlockAll_cons (first : Outline) (rest : List Outline) :
    HasBlockAll place size depth left (first :: rest) ↔
      HasBlock place size depth left first ∨
        HasBlockAll place size depth (left - first.count) rest := by
  rw [HasBlockAll]

theorem hasBlockAll_append (front back : List Outline) :
    HasBlockAll place size depth left (front ++ back) ↔
      HasBlockAll place size depth left front ∨
        HasBlockAll place size depth (left - countAll front) back := by
  induction front generalizing left with
  | nil => simp
  | cons first rest ih =>
    rw [List.cons_append, hasBlockAll_cons, hasBlockAll_cons, ih, or_assoc, countAll_cons,
      Nat.sub_sub]

theorem hasBlockAll_wrapLast {kind : NodeKind} (other : kind ≠ .block)
    (rest outlines : List Outline) :
    HasBlockAll place size depth left (wrapLast kind rest outlines) ↔
      HasBlockAll place size depth left outlines ∨
        HasBlockAll place size depth (left - countAll outlines) rest := by
  induction outlines using List.reverseRecOn with
  | nil => simp [wrapLast, hasBlock_other other]
  | append_singleton before last =>
    rw [wrapLast_concat, hasBlockAll_append, hasBlockAll_append, countAll_append, countAll_cons,
      countAll_nil, Nat.add_zero, ← Nat.sub_sub, or_assoc]
    refine or_congr_right ?_
    generalize left - countAll before = left
    cases last with
    | token => simp [wrapLast, hasBlock_other other]
    | node inner children => simp [wrapLast, hasBlock_other other]

mutual
/-- A block lies within the outline that has it. -/
theorem HasBlock.within {depth left : Nat} {outline : Outline}
    (has : HasBlock place size depth left outline) :
    place ≤ left ∧ left + size ≤ place + outline.count := by
  match outline with
  | .token => exact absurd has hasBlock_token
  | .node kind children =>
    rw [count_node]
    by_cases block : kind = .block
    · subst block
      cases depth with
      | zero =>
        have := (hasBlock_here children).mp has
        omega
      | succ depth => exact HasBlockAll.within ((hasBlock_block children).mp has)
    · exact HasBlockAll.within ((hasBlock_other block children).mp has)
theorem HasBlockAll.within {depth left : Nat} {outlines : List Outline}
    (has : HasBlockAll place size depth left outlines) :
    place ≤ left ∧ left + size ≤ place + countAll outlines := by
  match outlines with
  | [] => exact absurd has hasBlockAll_nil
  | first :: rest =>
    rw [countAll_cons]
    rcases (hasBlockAll_cons first rest).mp has with has | has
    · have := HasBlock.within has
      omega
    · have := HasBlockAll.within has
      omega
end

end LosslessSyntax.Outline
