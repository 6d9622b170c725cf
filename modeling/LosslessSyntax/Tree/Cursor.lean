import LosslessSyntax.Span
import LosslessSyntax.Tree.Basic

/-! # Cursors

A cursor is a tree together with the offset at which its text starts in the source, so that every
node and token has a span. Cursors are made on the way down from a root.
-/

namespace LosslessSyntax

/-- A tree that stands at an offset of the source. -/
structure Cursor where
  /-- The tree. -/
  tree : Tree
  /-- Where its text starts. -/
  start : Nat
deriving Repr, Inhabited

namespace Cursor

/-- The cursor of a whole tree. -/
def ofRoot (tree : Tree) : Cursor := ⟨tree, 0⟩

/-- The bytes that the tree covers. -/
def span (cursor : Cursor) : Span := .ofLength cursor.start cursor.tree.width

/-- Trees that follow each other from an offset on. -/
def sequence : Nat → List Tree → List Cursor
  | _, [] => []
  | start, first :: rest => ⟨first, start⟩ :: sequence (start + first.width) rest

/-- The children, tokens included. -/
def children (cursor : Cursor) : List Cursor := sequence cursor.start cursor.tree.children

/-- The children that are nodes. -/
def childNodes (cursor : Cursor) : List Cursor := cursor.children.filter (·.tree.isNode)

/-- The children that are tokens. -/
def childTokens (cursor : Cursor) : List Cursor := cursor.children.filter (!·.tree.isNode)

/-- The first child that is a node of a given kind. -/
def childOfKind? (kind : NodeKind) (cursor : Cursor) : Option Cursor :=
  cursor.children.find? fun child => child.tree.nodeKind? == some kind

/-- The cursor that the child indices of a path lead to. -/
def atPath? : List Nat → Cursor → Option Cursor
  | [], cursor => some cursor
  | index :: path, cursor => do (← cursor.children[index]?).atPath? path

/-- The size of a tree in a list of cursors, for walks that keep one. -/
def sizeAll : List Cursor → Nat
  | [] => 0
  | first :: rest => first.tree.size + sizeAll rest

@[simp] theorem sizeAll_nil : sizeAll [] = 0 := rfl

@[simp] theorem sizeAll_cons (first : Cursor) (rest : List Cursor) :
    sizeAll (first :: rest) = first.tree.size + sizeAll rest := rfl

@[simp] theorem sizeAll_append (front back : List Cursor) :
    sizeAll (front ++ back) = sizeAll front + sizeAll back := by
  induction front with
  | nil => simp
  | cons first rest ih => simp [ih, Nat.add_assoc]

@[simp] theorem sizeAll_sequence (start : Nat) (trees : List Tree) :
    sizeAll (sequence start trees) = Tree.sizeAll trees := by
  induction trees generalizing start with
  | nil => rfl
  | cons first rest ih => simp [sequence, Tree.sizeAll, ih]

theorem sizeAll_filter_le (keep : Cursor → Bool) (cursors : List Cursor) :
    sizeAll (cursors.filter keep) ≤ sizeAll cursors := by
  induction cursors with
  | nil => simp
  | cons first rest ih =>
    simp only [List.filter_cons]
    split <;> simp only [sizeAll_cons] <;> omega

theorem sizeAll_children_lt (cursor : Cursor) : sizeAll cursor.children < cursor.tree.size := by
  obtain ⟨tree, start⟩ := cursor
  cases tree <;> simp [children, Tree.children, Tree.size, Tree.sizeAll]

end Cursor

end LosslessSyntax
