import LosslessSyntax.Grammar.Shape

/-! # Outlines

An outline is a shape in which wrapping has been carried out: a wrapped shape has become the first
child of the node around it. What the grammar says about a text is known from the outlines of its
shapes, so the laws about trees are stated over them. A token that is wrapped stays where it is, and
the node that was to enclose it follows it.
-/

namespace LosslessSyntax

/-- How significant tokens are grouped, without wrapping. -/
inductive Outline where
  /-- The next significant token. -/
  | token
  /-- A node with its children. -/
  | node (kind : NodeKind) (children : List Outline)
deriving Repr, Inhabited

namespace Outline

mutual
/-- Number of tokens. -/
def count : Outline → Nat
  | .token => 1
  | .node _ children => countAll children
/-- Number of tokens of several outlines. -/
def countAll : List Outline → Nat
  | [] => 0
  | first :: rest => first.count + countAll rest
end

@[simp] theorem count_token : count .token = 1 := rfl

@[simp] theorem count_node (kind : NodeKind) (children : List Outline) :
    count (.node kind children) = countAll children := rfl

@[simp] theorem countAll_nil : countAll [] = 0 := rfl

@[simp] theorem countAll_cons (first : Outline) (rest : List Outline) :
    countAll (first :: rest) = first.count + countAll rest := rfl

@[simp] theorem countAll_append (front back : List Outline) :
    countAll (front ++ back) = countAll front + countAll back := by
  induction front with
  | nil => simp
  | cons first rest ih => simp only [List.cons_append, countAll_cons, ih, Nat.add_assoc]

/-- An outline in which no node is empty. -/
inductive Solid : Outline → Prop where
  /-- A token. -/
  | token : Solid .token
  /-- A node over others. -/
  | node {kind : NodeKind} {children : List Outline} :
    children ≠ [] → (∀ child ∈ children, Solid child) → Solid (.node kind children)

theorem Solid.count_pos {outline : Outline} (solid : outline.Solid) : 0 < outline.count := by
  induction solid with
  | token => exact Nat.zero_lt_one
  | @node kind children some _ ih =>
    obtain ⟨first, rest, rfl⟩ := List.exists_cons_of_ne_nil some
    exact Nat.add_pos_left (ih first List.mem_cons_self) _

/-- Outlines of which the last, if it is a node, becomes the first child of a new node. -/
def wrapLast (kind : NodeKind) (rest : List Outline) : List Outline → List Outline
  | [] => [.node kind rest]
  | [.node inner children] => [.node kind (.node inner children :: rest)]
  | first :: others => first :: wrapLast kind rest others

theorem wrapLast_append (kind : NodeKind) (rest front : List Outline) {back : List Outline}
    (some : back ≠ []) : wrapLast kind rest (front ++ back) = front ++ wrapLast kind rest back := by
  induction front with
  | nil => rfl
  | cons first others ih =>
    rw [List.cons_append, List.cons_append, wrapLast, ih]
    intro inner children _ ended
    exact some (List.append_eq_nil_iff.mp ended).2

theorem wrapLast_concat (kind : NodeKind) (rest before : List Outline) (last : Outline) :
    wrapLast kind rest (before ++ [last]) = before ++ wrapLast kind rest [last] :=
  wrapLast_append kind rest before (List.cons_ne_nil last [])

@[simp] theorem countAll_wrapLast (kind : NodeKind) (rest outlines : List Outline) :
    countAll (wrapLast kind rest outlines) = countAll outlines + countAll rest := by
  fun_induction wrapLast kind rest outlines <;> simp_all [Nat.add_assoc]

end Outline

namespace Shape

mutual
/-- The outlines of a shape; there is more than one only if a token is wrapped. -/
def outline : Shape → List Outline
  | .token => [.token]
  | .node kind children => [.node kind (outlineAll children)]
  | .wrap kind first rest => Outline.wrapLast kind (outlineAll rest) first.outline
/-- The outlines of shapes that follow each other. -/
def outlineAll : List Shape → List Outline
  | [] => []
  | first :: rest => first.outline ++ outlineAll rest
end

@[simp] theorem outline_token : outline .token = [.token] := by rw [outline]

@[simp] theorem outline_node (kind : NodeKind) (children : List Shape) :
    outline (.node kind children) = [.node kind (outlineAll children)] := by rw [outline]

@[simp] theorem outline_wrap (kind : NodeKind) (first : Shape) (rest : List Shape) :
    outline (.wrap kind first rest) = Outline.wrapLast kind (outlineAll rest) first.outline := by
  rw [outline]

@[simp] theorem outlineAll_nil : outlineAll [] = [] := by rw [outlineAll]

@[simp] theorem outlineAll_cons (first : Shape) (rest : List Shape) :
    outlineAll (first :: rest) = first.outline ++ outlineAll rest := by rw [outlineAll]

@[simp] theorem outlineAll_append (front back : List Shape) :
    outlineAll (front ++ back) = outlineAll front ++ outlineAll back := by
  induction front with
  | nil => simp
  | cons first rest ih =>
    rw [List.cons_append, outlineAll_cons, outlineAll_cons, ih, List.append_assoc]

theorem outline_ne_nil (shape : Shape) : shape.outline ≠ [] := by
  cases shape with
  | token => simp
  | node kind children => simp
  | wrap kind first rest =>
    rw [outline_wrap]
    unfold Outline.wrapLast
    split <;> exact List.cons_ne_nil _ _

end Shape

end LosslessSyntax
