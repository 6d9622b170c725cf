import LosslessSyntax.Tree.Cursor

/-! # Walks

The walks keep a stack of what is still to be visited, so a deep tree needs no deep recursion. All
leaves are visited from left to right (`Cursor.tokens`), all nodes each before its children
(`Cursor.descendants`).
-/

namespace LosslessSyntax.Cursor

/-- The leaves of the trees on a stack, from left to right. -/
def leavesOfStack : List Cursor → List Cursor
  | [] => []
  | top :: stack =>
    match top.tree with
    | .leaf _ _ => top :: leavesOfStack stack
    | .node _ _ => leavesOfStack (top.children ++ stack)
termination_by stack => sizeAll stack
decreasing_by
  · have : 0 < top.tree.size := by cases top.tree <;> simp [Tree.size]
    simp; omega
  · have := sizeAll_children_lt top
    simp; omega

/-- The nodes of the trees on a stack, each before the nodes below it. -/
def nodesOfStack : List Cursor → List Cursor
  | [] => []
  | top :: stack => top :: nodesOfStack (top.childNodes ++ stack)
termination_by stack => sizeAll stack
decreasing_by
  have := sizeAll_children_lt top
  have := sizeAll_filter_le (·.tree.isNode) top.children
  simp only [sizeAll_append, sizeAll_cons, childNodes]
  omega

/-- The leaves, from left to right. -/
def tokens (cursor : Cursor) : List Cursor := leavesOfStack [cursor]

/-- The leaves that are not trivia. -/
def significantTokens (cursor : Cursor) : List Cursor :=
  cursor.tokens.filter (!·.tree.isTrivia)

/-- The node itself and all nodes below it, each before the nodes below it. -/
def descendants (cursor : Cursor) : List Cursor := nodesOfStack [cursor]

/-- The text of a leaf; a node has none of its own. -/
def ownText (cursor : Cursor) : String :=
  match cursor.tree with
  | .leaf _ text => text
  | .node _ _ => ""

/-- The text of all leaves. -/
def text (cursor : Cursor) : String := String.join (cursor.tokens.map ownText)

mutual
/-- The leaf that holds an offset, in a tree that starts at `start`. At each node the search goes to
the child that covers the offset, or to the last child if none does. -/
def tokenWithin? (offset start : Nat) : Tree → Option Cursor
  | .leaf kind text => some ⟨.leaf kind text, start⟩
  | .node _ children => tokenAmong? offset start children
/-- The same among several trees. -/
def tokenAmong? (offset start : Nat) : List Tree → Option Cursor
  | [] => none
  | [last] => tokenWithin? offset start last
  | first :: second :: rest =>
    if (Span.ofLength start first.width).containsOffset offset then
      tokenWithin? offset start first
    else tokenAmong? offset (start + first.width) (second :: rest)
end

/-- The leaf that holds an offset; at the end of the text, the last leaf. -/
def tokenAt? (offset : Nat) (cursor : Cursor) : Option Cursor :=
  tokenWithin? offset cursor.start cursor.tree

end LosslessSyntax.Cursor
